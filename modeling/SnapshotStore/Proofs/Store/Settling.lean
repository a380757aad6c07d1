import SnapshotStore.Proofs.Store.Parts
import SnapshotStore.Store.Command

namespace SnapshotStore.Store

-- What a routine has left of its changes for the file to take up.
inductive Wash where
  -- it has neither changed the map nor begun to save
  | quiet
  | dirty
  -- it has replaced the file since its last change
  | clean
  deriving DecidableEq

namespace Wash

variable {K V : Type}

def after (wash : Wash) (exchange : Exchange K V) : Wash :=
  if exchange.writes then dirty
  else if exchange.renames then clean
  else
    match wash, exchange.request with
    | quiet, .acquire => dirty
    | wash, _ => wash

end Wash

def washing (K V : Type) : Protocol K V Wash where
  Allows _ _ := True
  AllowsAside _ := True
  after wash request response := wash.after ⟨request, response⟩

open SnapshotStore.Action

variable {K V S σ ω α β ρ : Type}

theorem leftByReads_washing (wash : Wash) : LeftByReads (washing K V) wash where
  get _ := ⟨trivial, fun _ => by cases wash <;> rfl⟩
  contains _ := ⟨trivial, fun _ => by cases wash <;> rfl⟩
  count _ := ⟨trivial, fun _ => by cases wash <;> rfl⟩
  copy _ := ⟨trivial, fun _ => by cases wash <;> rfl⟩
  notify _ _ := ⟨trivial, fun _ => by cases wash <;> rfl⟩

theorem obeys_washing (routine : Routine K V ω α) (wash : Wash) :
    routine.Obeys (washing K V) (fun _ _ => True) wash := by
  induction routine generalizing wash with
  | done answer => exact trivial
  | call request rest ih => exact ⟨trivial, fun response => ih response _⟩
  | aside act rest ih => exact ⟨trivial, fun answer => ih answer _⟩

-- An action that ends without a failure only after it has replaced the file.
def Settles (action : Action K V ω α) : Prop :=
  ∀ wash, action.Obeys (washing K V) (fun wash outcome => ∀ answer, outcome = .ok answer →
    wash = .clean) wash

theorem settles_of_failing {action : Action K V ω α}
    (h : ∀ wash, action.Obeys (washing K V) (fun _ outcome => ∀ answer, outcome ≠ .ok answer)
      wash) :
    Settles action :=
  fun wash => (h wash).mono fun _ _ hfails answer hanswer => absurd hanswer (hfails answer)

-- It is enough that the last part settles.
theorem settles_bind_of_next {action : Action K V ω α} {next : α → Action K V ω β}
    (hnext : ∀ answer, Settles (next answer)) : Settles (action >>= next) := by
  intro wash
  refine (obeys_bind action next).mpr ((obeys_washing action.run wash).mono ?_)
  rintro wash (failure | answer) -
  · exact fun _ h => by cases h
  · exact hnext answer wash

theorem settles_bind {action : Action K V ω α} {next : α → Action K V ω β} (h : Settles action)
    (hnext : ∀ answer, (next answer).Returns (washing K V) .clean) :
    Settles (action >>= next) := by
  intro wash
  refine (obeys_bind action next).mpr ((h wash).mono ?_)
  rintro wash (failure | answer) hclean
  · exact fun _ h => by cases h
  · obtain rfl := hclean answer rfl
    exact Routine.Obeys.mono (hnext answer) fun _ _ hwash _ _ => hwash

theorem settles_abandon (temporary : Path) (cause : IoCause) :
    Settles (Persistence.abandon temporary cause : Action K V ω α) :=
  settles_of_failing fun _ => ⟨trivial, fun _ _ h => by cases h⟩

theorem settles_replaceFile (path : Path) (chunks : List Bytes) :
    Settles (Persistence.replaceFile path chunks : Action K V ω Unit) := by
  apply settles_bind_of_next
  rintro (reason | location)
  · exact settles_of_failing fun _ _ h => by cases h
  · apply settles_bind_of_next
    rintro (reason | _)
    · exact settles_abandon _ _
    · intro wash
      refine (obeys_ask_bind _ _).mpr ⟨trivial, ?_⟩
      rintro (reason | _)
      · exact settles_abandon _ _ _
      · exact fun _ _ => rfl

theorem settles_write (persistence : Persistence K V) (entries : List (K × V)) :
    Settles (persistence.write entries : Action K V ω Unit) :=
  settles_bind_of_next fun _ => settles_bind_of_next fun _ => settles_replaceFile _ _

theorem settles_saveFrom (persistence : Persistence K V) (backend : Backend K V S) :
    Settles (persistence.saveFrom backend : Action K V ω Nat) := by
  intro wash
  refine (obeys_exclusively _).mpr ⟨trivial, ?_⟩
  have hsave : ∀ entries, Settles (do
      persistence.write entries
      pure entries.length : Action K V ω Nat) :=
    fun entries => settles_bind (settles_write persistence entries) fun _ => returns_pure _
  apply (settles_bind_of_next hsave _).mono
  intro wash outcome hclean
  refine ⟨trivial, fun answer hanswer => ?_⟩
  obtain rfl := hclean answer hanswer
  exact rfl

variable (store : Store K V S σ)

theorem settles_report (failure : Failure) :
    Settles (store.report failure : Action K V ω Unit) := by
  have hraise : Settles (raise failure : Action K V ω Unit) :=
    settles_of_failing fun _ _ h => by cases h
  unfold report
  cases failure with
  | store error => exact settles_bind_of_next fun _ => hraise
  | exception text => exact hraise
  | unknown => exact hraise

theorem settles_flush : Settles (store.flush : Action K V ω Unit) := by
  intro wash
  refine (obeys_ofRoutine_bind _ _).mpr
    ((settles_saveFrom store.persistence store.backend wash).mono ?_)
  rintro wash (failure | entries) hclean
  · exact store.settles_report failure wash
  · obtain rfl := hclean entries rfl
    exact Routine.Obeys.mono (store.returns_tell (leftByReads_washing .clean) _)
      fun _ _ hwash _ _ => hwash

variable {store}

theorem settles_settle (hpolicy : store.policy = .writeThrough) :
    Settles (store.settle : Action K V ω Unit) := by
  unfold settle
  rw [hpolicy]
  exact store.settles_flush

theorem settles_settle_pure (hpolicy : store.policy = .writeThrough) (answer : α) :
    Settles (do
      store.settle
      pure answer : Action K V ω α) :=
  settles_bind (settles_settle hpolicy) fun _ => returns_pure _

theorem settles_insert (hpolicy : store.policy = .writeThrough) (key : K) (value : V) :
    Settles (store.insert key value : Action K V ω (Option V)) := by
  apply settles_bind_of_next
  intro previous
  exact settles_settle_pure hpolicy previous

theorem settles_remove (hpolicy : store.policy = .writeThrough) (key : K) :
    Settles (store.remove key : Action K V ω (Option V)) := by
  apply settles_bind_of_next
  intro removed
  apply settles_bind_of_next
  intro _
  exact settles_settle_pure hpolicy removed

theorem settles_clear (hpolicy : store.policy = .writeThrough) :
    Settles (store.clear : Action K V ω Unit) := by
  apply settles_bind_of_next
  intro _
  apply settles_bind_of_next
  intro _
  exact settles_settle hpolicy

theorem settles_extend (hpolicy : store.policy = .writeThrough) (entries : List (K × V)) :
    Settles (store.extend entries : Action K V ω Unit) :=
  settles_bind_of_next fun _ => settles_settle hpolicy

-- An action that, if it ends without a failure, leaves nothing for the file to take up.
def Resolves (action : Action K V ω α) : Prop :=
  action.Obeys (washing K V) (fun wash outcome => ∀ answer, outcome = .ok answer → wash ≠ .dirty)
    .quiet

theorem Settles.resolves {action : Action K V ω α} (h : Settles action) : Resolves action :=
  (h .quiet).mono fun _ _ hclean answer hanswer => by simp [hclean answer hanswer]

theorem resolves_of_returns {action : Action K V ω α} (h : action.Returns (washing K V) .quiet) :
    Resolves action :=
  Routine.Obeys.mono h fun _ _ hwash _ _ => by simp [hwash]

theorem resolves_map (f : α → β) {action : Action K V ω α} (h : Resolves action) :
    Resolves (f <$> action) := by
  refine (obeys_map f action).mpr (h.mono ?_)
  rintro wash (failure | answer) hwash
  · exact fun _ h => by cases h
  · exact fun _ _ => hwash answer rfl

-- A look at one key decides whether anything is to be done.
theorem resolves_get_bind {key : K} {next : Option V → Action K V ω α}
    (hnext : ∀ found, Resolves (next found)) :
    Resolves (ask (.get key) >>= next) :=
  (obeys_ask_bind _ _).mpr ⟨trivial, fun found => hnext found⟩

theorem resolves_update (hpolicy : store.policy = .writeThrough) (key : K)
    (mutate : V → Action K V ω (V × ρ)) : Resolves (store.update key mutate) := by
  apply resolves_get_bind
  rintro (_ | current)
  · exact resolves_of_returns (returns_pure _)
  · apply Settles.resolves
    apply settles_bind_of_next
    intro made
    apply settles_bind_of_next
    intro _
    apply settles_bind_of_next
    intro _
    exact settles_settle_pure hpolicy (some made.2)

theorem resolves_getOrInsertWith (hpolicy : store.policy = .writeThrough) (key : K)
    (make : Action K V ω (V × ρ)) : Resolves (store.getOrInsertWith key make) := by
  apply resolves_get_bind
  rintro (_ | existing)
  · apply Settles.resolves
    apply settles_bind_of_next
    intro made
    apply settles_bind_of_next
    intro _
    exact settles_settle_pure hpolicy (made.1, some made.2)
  · exact resolves_of_returns (returns_pure _)

theorem resolves_getOrInsert (hpolicy : store.policy = .writeThrough) (key : K) (value : V) :
    Resolves (store.getOrInsert key value : Action K V ω V) := by
  apply resolves_get_bind
  rintro (_ | existing)
  · apply Settles.resolves
    apply settles_bind_of_next
    intro _
    exact settles_settle_pure hpolicy value
  · exact resolves_of_returns (returns_pure _)

theorem resolves_perform (hpolicy : store.policy = .writeThrough) (command : Command K V ω β) :
    Resolves (store.perform command) := by
  have hlooks := (leftByReads_washing (K := K) (V := V) .quiet).toLeftByLooks
  cases command with
  | insert key value =>
      rw [perform]
      exact resolves_map _ (settles_insert hpolicy key value).resolves
  | remove key =>
      rw [perform]
      exact resolves_map _ (settles_remove hpolicy key).resolves
  | clear =>
      rw [perform]
      exact resolves_map _ (settles_clear hpolicy).resolves
  | extend entries =>
      rw [perform]
      exact resolves_map _ (settles_extend hpolicy entries).resolves
  | update key inner edit =>
      rw [perform]
      exact resolves_map _ (resolves_update hpolicy key _)
  | getOrInsert key value =>
      rw [perform]
      exact resolves_map _ (resolves_getOrInsert hpolicy key value)
  | getOrInsertWith key inner make =>
      rw [perform]
      exact resolves_map _ (resolves_getOrInsertWith hpolicy key _)
  | flush =>
      rw [perform]
      exact resolves_map _ store.settles_flush.resolves
  | aside act =>
      rw [perform]
      exact resolves_map _ ⟨trivial, fun _ _ _ => by simp⟩
  | _ => exact resolves_of_returns (store.returns_perform_of_reads hlooks trivial)

end SnapshotStore.Store
