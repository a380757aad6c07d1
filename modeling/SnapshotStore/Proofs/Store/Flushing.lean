import SnapshotStore.Proofs.Routine.Protocol
import SnapshotStore.Store.Flush

namespace SnapshotStore

variable {K V S σ ω α β : Type}

-- Whether the serializer or the file system has refused something.
def Exchange.fails : Exchange K V → Bool
  | ⟨.serialize _, .error _⟩ => true
  | ⟨.create _, .error _⟩ => true
  | ⟨.append _ _, .error _⟩ => true
  | ⟨.sync _, .error _⟩ => true
  | ⟨.rename _ _, .error _⟩ => true
  | _ => false

def Exchange.decides (exchange : Exchange K V) : Bool :=
  exchange.renames || exchange.fails

-- A protocol that forbids nothing and notes whether it is decided how a save ends.
def deciding (K V : Type) : Protocol K V Bool where
  Allows _ _ := True
  AllowsAside _ := True
  after decided request response := decided || Exchange.decides ⟨request, response⟩

theorem along_deciding (decided : Bool) (exchanges : List (Exchange K V)) :
    (deciding K V).along decided exchanges = (decided || exchanges.any Exchange.decides) := by
  induction exchanges generalizing decided with
  | nil => simp [Protocol.along]
  | cons exchange rest ih =>
      rw [List.any_cons, ← Bool.or_assoc]
      exact ih (decided || exchange.decides)

namespace Routine

theorem obeys_deciding (routine : Routine K V ω α) (decided : Bool) :
    routine.Obeys (deciding K V) (fun _ _ => True) decided := by
  induction routine generalizing decided with
  | done answer => exact trivial
  | call request rest ih => exact ⟨trivial, fun response => ih response _⟩
  | aside act rest ih => exact ⟨trivial, fun answer => ih answer _⟩

-- What is decided stays so.
theorem stays_decided (routine : Routine K V ω α) :
    routine.Obeys (deciding K V) (fun decided _ => decided = true) true := by
  induction routine with
  | done answer => exact rfl
  | call request rest ih => exact ⟨trivial, fun response => ih response⟩
  | aside act rest ih => exact ⟨trivial, fun answer => ih answer⟩

end Routine

namespace Action

-- An action that comes to its end only when it is decided.
def Decides (action : Action K V ω α) : Prop :=
  ∀ decided, action.Obeys (deciding K V) (fun decided _ => decided = true) decided

theorem decides_bind {action : Action K V ω α} (h : Decides action)
    (next : α → Action K V ω β) : Decides (action >>= next) := by
  intro decided
  refine (obeys_bind action next).mpr ((h decided).mono ?_)
  rintro _ (failure | answer) rfl
  · exact rfl
  · exact (next answer).run.stays_decided

theorem decides_ofRoutine_bind (routine : Routine K V ω α) {next : α → Action K V ω β}
    (hnext : ∀ answer, Decides (next answer)) : Decides (ofRoutine routine >>= next) := by
  intro decided
  refine (obeys_ofRoutine_bind routine next).mpr ((routine.obeys_deciding decided).mono ?_)
  exact fun decided answer _ => hnext answer decided

-- It is enough to look at the answers that decide nothing.
theorem decides_ask_bind {request : Request K V} {next : request.Response → Action K V ω β}
    (hnext : ∀ response, Exchange.decides ⟨request, response⟩ = true ∨ Decides (next response)) :
    Decides (ask request >>= next) := by
  refine fun decided => (obeys_ask_bind request next).mpr ⟨trivial, fun response => ?_⟩
  rcases hnext response with hdecides | hrest
  · have hafter : (deciding K V).after decided request response = true := by
      simp [deciding, hdecides]
    rw [hafter]
    exact (next response).run.stays_decided
  · exact hrest _

theorem decides_exclusively {action : Action K V ω α} (h : Decides action) :
    Decides (exclusively action) := by
  refine fun decided => (obeys_exclusively action).mpr ⟨trivial, (h _).mono ?_⟩
  rintro _ outcome rfl
  exact ⟨trivial, rfl⟩

end Action

namespace Persistence

open SnapshotStore.Action

-- The content is all written, or something was refused.
theorem decides_appendAll (location : Location) (chunks : List Bytes) (decided : Bool) :
    (appendAll location chunks : Routine K V ω _).Obeys (deciding K V)
      (fun decided answer => decided = true ∨ answer = .ok ()) decided := by
  induction chunks generalizing decided with
  | nil =>
      refine (Routine.obeys_ask _).mpr ⟨trivial, ?_⟩
      rintro (reason | _)
      · exact .inl (Bool.or_true _)
      · exact .inr rfl
  | cons chunk rest ih =>
      refine (Routine.obeys_bind _ _).mpr ⟨trivial, ?_⟩
      rintro (reason | _)
      · exact .inl (Bool.or_true _)
      · exact ih _

theorem decides_replaceFile (path : Path) (chunks : List Bytes) :
    Decides (replaceFile path chunks : Action K V ω Unit) := by
  apply decides_ask_bind
  rintro (reason | location)
  · exact .inl rfl
  right
  intro decided
  refine (obeys_ofRoutine_bind _ _).mpr ((decides_appendAll location chunks decided).mono ?_)
  rintro decided answer (rfl | rfl)
  · exact Routine.stays_decided _
  · refine decides_ask_bind ?_ decided
    rintro (reason | _)
    · exact .inl rfl
    · exact .inl rfl

theorem decides_write (persistence : Persistence K V) (entries : List (K × V)) :
    Decides (persistence.write entries : Action K V ω Unit) := by
  apply decides_ask_bind
  rintro (failure | bytes)
  · exact .inl rfl
  · exact .inr (decides_replaceFile _ _)

theorem decides_saveFrom (persistence : Persistence K V) (backend : Backend K V S) :
    Decides (persistence.saveFrom backend : Action K V ω Nat) := by
  apply decides_exclusively
  apply decides_ofRoutine_bind
  intro entries
  exact decides_bind (decides_write persistence entries) _

end Persistence

namespace Store

open SnapshotStore.Action

theorem decides_flush (store : Store K V S σ) : Decides (store.flush : Action K V ω Unit) := by
  intro decided
  refine (obeys_ofRoutine_bind _ _).mpr
    ((Persistence.decides_saveFrom store.persistence store.backend decided).mono ?_)
  rintro _ outcome rfl
  exact Routine.stays_decided _

theorem exists_renames_of_flush {store : Store K V S σ} {exchanges : List (Exchange K V)}
    {outcome : Except Failure Unit}
    (h : (store.flush : Action K V ω Unit).run.Follows exchanges (.done outcome))
    (hnone : ∀ exchange ∈ exchanges, exchange.fails = false) :
    ∃ exchange ∈ exchanges, exchange.renames = true := by
  have hdecided : (deciding K V).along false exchanges = true :=
    h.obeys (store.decides_flush false)
  rw [along_deciding, Bool.false_or, List.any_eq_true] at hdecided
  obtain ⟨exchange, hmem, hdecides⟩ := hdecided
  refine ⟨exchange, hmem, ?_⟩
  simpa [Exchange.decides, hnone exchange hmem] using hdecides

end Store

end SnapshotStore
