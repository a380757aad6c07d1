import SnapshotStore.Proofs.Routine.Terms
import SnapshotStore.Proofs.Store.Alike

namespace SnapshotStore

variable {K V S S' σ ω ω' α ρ β : Type}

mutual

-- The operations on single keys, of which all are of one kind, also those that callbacks run.
def Command.KeepsTo (own : K → Prop) : Command K V ω β → Prop
  | .get key => own key
  | .containsKey key => own key
  | .insert key _ => own key
  | .remove key => own key
  | .extend list => ∀ entry ∈ list, own entry.1
  | .update key inner _ => own key ∧ Command.AllKeepTo own inner
  | .getOrInsert key _ => own key
  | .getOrInsertWith key inner _ => own key ∧ Command.AllKeepTo own inner
  | _ => False

def Command.AllKeepTo (own : K → Prop) : List (Command K V ω β) → Prop
  | [] => True
  | command :: rest => command.KeepsTo own ∧ Command.AllKeepTo own rest

end

def Store.over (store : Store K V S σ) (backend : Backend K V S') : Store K V S' σ :=
  { store with backend := backend }

namespace Terms

open SnapshotStore.Action (ask)

variable [DecidableEq K] {terms : Terms K V}

theorem act_askGet {key : K} (hkey : terms.own key) :
    terms.ActAgree (ask (.get key) : Action K V ω _) (ask (.get key) : Action K V ω' _) :=
  act_ofRoutine (agree_ask hkey (· key) fun _ _ h => h)

theorem act_askInsert {key : K} (hkey : terms.own key) (value : V) :
    terms.ActAgree (ask (.insert key value) : Action K V ω _)
      (ask (.insert key value) : Action K V ω' _) :=
  act_ofRoutine (agree_ask hkey (· key) fun _ _ h => h)

theorem act_askRemove {key : K} (hkey : terms.own key) :
    terms.ActAgree (ask (.remove key) : Action K V ω _) (ask (.remove key) : Action K V ω' _) :=
  act_ofRoutine (agree_ask hkey (· key) fun _ _ h => h)

-- One backend tests a key and the other one may have to read it.
theorem obeys_contains {key : K} (hkey : terms.own key) (backend : Backend K V S)
    (bindings : K → Option V) :
    (Memory.contains backend key : Routine K V ω Bool).Obeys terms.protocol
      (Kept fun last found => last = bindings ∧ found = (bindings key).isSome)
      (some bindings) := by
  unfold Memory.contains
  cases backend.bulk with
  | some bulk =>
      refine obeys_call hkey fun found hexpects last h => ?_
      exact ⟨(Option.some.inj h).symm, hexpects⟩
  | none =>
      refine obeys_call hkey fun value hexpects last h => ?_
      exact ⟨(Option.some.inj h).symm, congrArg Option.isSome hexpects⟩

theorem act_containsKey {key : K} (hkey : terms.own key) (store : Store K V S σ)
    (store' : Store K V S' σ) :
    terms.ActAgree (store.containsKey key : Action K V ω Bool)
      (store'.containsKey key : Action K V ω' Bool) :=
  act_ofRoutine fun bindings => ⟨(bindings key).isSome, bindings,
    obeys_contains hkey store.backend bindings, obeys_contains hkey store'.backend bindings⟩

theorem obeys_appendAll (hsaves : terms.saves) (location : Location) (chunks : List Bytes)
    (bindings : K → Option V) :
    (Persistence.appendAll location chunks : Routine K V ω _).Obeys terms.protocol
      (Kept fun last answer => last = bindings ∧ answer = .ok ()) (some bindings) := by
  induction chunks with
  | nil =>
      refine obeys_plain trivial hsaves ?_
      rintro (reason | _) hfails
      · cases hfails
      · exact fun last h => ⟨(Option.some.inj h).symm, rfl⟩
  | cons chunk rest ih =>
      refine obeys_plain trivial hsaves ?_
      rintro (reason | _) hfails
      · cases hfails
      · exact ih

theorem passes_replaceFile (hsaves : terms.saves) (path : Path) (chunks : List Bytes) :
    terms.Passes (Persistence.replaceFile path chunks : Action K V ω Unit) := by
  refine passes_ask_bind trivial hsaves ?_
  rintro (reason | location) hfails
  · cases hfails
  refine passes_ofRoutine_bind (obeys_appendAll hsaves location chunks) ?_
  rintro _ rfl
  refine passes_ask_bind trivial hsaves ?_
  rintro (reason | _) hfails
  · cases hfails
  · exact passes_pure ()

theorem obeys_snapshotFrom (hsaves : terms.saves) (segments : List Nat) (bindings : K → Option V) :
    (Memory.snapshotFrom segments : Routine K V ω _).Obeys terms.protocol
      (Kept fun last _ => last = bindings ∧ True) (some bindings) := by
  induction segments with
  | nil => exact fun last h => ⟨(Option.some.inj h).symm, trivial⟩
  | cons segment rest ih =>
      refine obeys_plain trivial hsaves fun entries _ => ?_
      change Routine.Obeys _ _ (Memory.snapshotFrom rest >>= fun others =>
        pure (entries ++ others)) _
      refine obeys_bind ih ?_
      rintro _ others ⟨rfl, -⟩ last h
      exact ⟨(Option.some.inj h).symm, trivial⟩

theorem passes_saveFrom (hsaves : terms.saves) (persistence : Persistence K V)
    (backend : Backend K V S) :
    terms.Passes (persistence.saveFrom backend : Action K V ω Nat) := by
  refine passes_exclusively ?_ hsaves
  refine passes_ofRoutine_bind (obeys_snapshotFrom hsaves _) fun entries _ => ?_
  refine passes_bind ?_ fun _ => passes_pure _
  refine passes_ask_bind trivial hsaves ?_
  rintro (failure | bytes) hfails
  · cases hfails
  · exact passes_replaceFile hsaves _ _

-- What a store has to meet for its operations to be on these terms.
structure Met (terms : Terms K V) (store : Store K V S σ) : Prop where
  listeners : store.listeners.length = terms.listeners
  saves : store.policy = .writeThrough → terms.saves
  flush : store.policy = .writeThrough →
    ∀ position entries, terms.verdict position (.flush entries) = .ok ()

theorem act_tellFrom (event : Event K V) (positions : List Nat)
    (hpositions : ∀ position ∈ positions, position < terms.listeners) :
    terms.ActAgree (Store.tellFrom event positions : Action K V ω Unit)
      (Store.tellFrom event positions : Action K V ω' Unit) := by
  induction positions with
  | nil => exact act_pure ()
  | cons position rest ih =>
      rw [List.forall_mem_cons] at hpositions
      refine act_bind (act_ofRoutine (agree_ask hpositions.1
        (fun _ => terms.verdict position event) fun _ _ h => h)) fun outcome => ?_
      exact act_bind (act_ofExcept outcome) fun _ => ih hpositions.2

theorem passes_tellFrom {event : Event K V}
    (hok : ∀ position, terms.verdict position event = .ok ())
    (positions : List Nat) (hpositions : ∀ position ∈ positions, position < terms.listeners) :
    terms.Passes (Store.tellFrom event positions : Action K V ω Unit) := by
  induction positions with
  | nil => exact passes_pure ()
  | cons position rest ih =>
      rw [List.forall_mem_cons] at hpositions
      intro bindings
      refine obeys_call hpositions.1 fun outcome hexpects => ?_
      obtain rfl : outcome = .ok () := hexpects.trans (hok position)
      exact ih hpositions.2 bindings

variable {store : Store K V S σ} {store' : Store K V S' σ} (met : terms.Met store)
  (met' : terms.Met store')

include met

omit [DecidableEq K] in
theorem lt_of_mem_range : ∀ position ∈ List.range store.listeners.length,
    position < terms.listeners := by
  intro position hposition
  rw [← met.listeners]
  exact List.mem_range.mp hposition

theorem passes_settle : terms.Passes (store.settle : Action K V ω Unit) := by
  unfold Store.settle
  cases hpolicy : store.policy with
  | writeThrough =>
      have hsaves := met.saves hpolicy
      have hsave : ∀ bindings,
          (store.persistence.saveFrom store.backend : Action K V ω Nat).run.Obeys terms.protocol
            (Kept fun last outcome => last = bindings ∧ ∃ n, outcome = .ok n) (some bindings) :=
        passes_saveFrom hsaves _ _
      refine passes_ofRoutine_bind hsave ?_
      rintro _ ⟨n, rfl⟩
      exact passes_tellFrom (fun position => met.flush hpolicy position n) _ (lt_of_mem_range met)
  | background milliseconds =>
      intro bindings
      refine obeys_call trivial fun _ _ last h => ?_
      exact ⟨(Option.some.inj h).symm, (), rfl⟩
  | callerDriven => exact passes_pure ()

include met'

theorem act_settle :
    terms.ActAgree (store.settle : Action K V ω Unit) (store'.settle : Action K V ω' Unit) :=
  agree_of_passes (passes_settle met) (passes_settle met')

theorem act_tell (event : Event K V) :
    terms.ActAgree (store.tell event : Action K V ω Unit)
      (store'.tell event : Action K V ω' Unit) := by
  unfold Store.tell
  rw [met.listeners, ← met'.listeners]
  exact act_tellFrom event _ (lt_of_mem_range met')

theorem act_put {key : K} (hkey : terms.own key) (value : V) :
    terms.ActAgree (store.put key value : Action K V ω _)
      (store'.put key value : Action K V ω' _) := by
  refine act_bind (act_askInsert hkey value) fun previous => ?_
  exact act_bind (act_tell met met' _) fun _ => act_pure previous

theorem act_insert {key : K} (hkey : terms.own key) (value : V) :
    terms.ActAgree (store.insert key value : Action K V ω _)
      (store'.insert key value : Action K V ω' _) := by
  refine act_bind (act_put met met' hkey value) fun previous => ?_
  exact act_bind (act_settle met met') fun _ => act_pure previous

theorem act_tellRemoval (key : K) (removed : Option V) :
    terms.ActAgree (store.tellRemoval key removed : Action K V ω Unit)
      (store'.tellRemoval key removed : Action K V ω' Unit) := by
  cases removed with
  | none => exact act_pure ()
  | some value => exact act_tell met met' (.remove key)

theorem act_remove {key : K} (hkey : terms.own key) :
    terms.ActAgree (store.remove key : Action K V ω _) (store'.remove key : Action K V ω' _) := by
  refine act_bind (act_askRemove hkey) fun removed => ?_
  refine act_bind (act_tellRemoval met met' key removed) fun _ => ?_
  exact act_bind (act_settle met met') fun _ => act_pure removed

theorem act_putAll (entries : List (K × V)) (hkeys : ∀ entry ∈ entries, terms.own entry.1) :
    terms.ActAgree (store.putAll entries : Action K V ω Unit)
      (store'.putAll entries : Action K V ω' Unit) := by
  induction entries with
  | nil => exact act_pure ()
  | cons entry rest ih =>
      rw [List.forall_mem_cons] at hkeys
      exact act_bind (act_put met met' hkeys.1 entry.2) fun _ => ih hkeys.2

theorem act_extend (entries : List (K × V)) (hkeys : ∀ entry ∈ entries, terms.own entry.1) :
    terms.ActAgree (store.extend entries : Action K V ω Unit)
      (store'.extend entries : Action K V ω' Unit) :=
  act_bind (act_putAll met met' entries hkeys) fun _ => act_settle met met'

-- Others may come in before and after the callback, but not at this key.
theorem act_update {key : K} (hkey : terms.own key) {mutate : V → Action K V ω (V × ρ)}
    {mutate' : V → Action K V ω' (V × ρ)}
    (hmutate : ∀ value, terms.ActAgree (mutate value) (mutate' value)) :
    terms.ActAgree (store.update key mutate) (store'.update key mutate') := by
  refine act_bind (act_askGet hkey) ?_
  rintro (_ | current)
  · exact act_pure none
  · refine act_bind (hmutate current) fun made => ?_
    refine act_bind (act_askInsert hkey made.1) fun _ => ?_
    refine act_bind (act_tell met met' _) fun _ => ?_
    exact act_bind (act_settle met met') fun _ => act_pure (some made.2)

theorem act_fill {key : K} (hkey : terms.own key) (value : V) (answer : ρ) :
    terms.ActAgree
      (do
        let _ ← store.put key value
        store.settle
        pure answer : Action K V ω ρ)
      (do
        let _ ← store'.put key value
        store'.settle
        pure answer : Action K V ω' ρ) := by
  refine act_bind (act_put met met' hkey value) fun _ => ?_
  exact act_bind (act_settle met met') fun _ => act_pure answer

theorem act_getOrInsertWith {key : K} (hkey : terms.own key) {make : Action K V ω (V × ρ)}
    {make' : Action K V ω' (V × ρ)} (hmake : terms.ActAgree make make') :
    terms.ActAgree (store.getOrInsertWith key make) (store'.getOrInsertWith key make') := by
  refine act_bind (act_askGet hkey) ?_
  rintro (_ | existing)
  · exact act_bind hmake fun made => act_fill met met' hkey made.1 (made.1, some made.2)
  · exact act_pure (existing, none)

theorem act_getOrInsert {key : K} (hkey : terms.own key) (value : V) :
    terms.ActAgree (store.getOrInsert key value : Action K V ω V)
      (store'.getOrInsert key value : Action K V ω' V) := by
  refine act_bind (act_askGet hkey) ?_
  rintro (_ | existing)
  · exact act_fill met met' hkey value value
  · exact act_pure existing

omit met met' in
theorem act_callback {inner : Routine K V ω ρ} {inner' : Routine K V ω' ρ}
    (h : terms.Agree inner inner') (made : Except Failure V) :
    terms.ActAgree
      (do
        let outcomes ← Action.ofRoutine inner
        let value ← Action.ofExcept made
        pure (value, outcomes))
      (do
        let outcomes ← Action.ofRoutine inner'
        let value ← Action.ofExcept made
        pure (value, outcomes)) := by
  refine act_bind (act_ofRoutine h) fun outcomes => ?_
  exact act_bind (act_ofExcept made) fun value => act_pure (value, outcomes)

end Terms

namespace Terms

variable [DecidableEq K] {terms : Terms K V} {store : Store K V S σ} {store' : Store K V S' σ}

mutual

theorem act_perform (met : terms.Met store) (met' : terms.Met store') :
    ∀ command : Command K V (Surroundings Unit) β, command.KeepsTo terms.own →
      terms.ActAgree (store.perform (command.within S σ)) (store'.perform (command.within S' σ))
  | .get key, hkeeps => act_map _ (act_askGet hkeeps)
  | .containsKey key, hkeeps => act_map _ (act_containsKey hkeeps store store')
  | .insert key value, hkeeps => act_map _ (act_insert met met' hkeeps value)
  | .remove key, hkeeps => act_map _ (act_remove met met' hkeeps)
  | .extend list, hkeeps => act_map _ (act_extend met met' list hkeeps)
  | .update key inner edit, hkeeps => by
      have hinner := agree_performAll met met' inner hkeeps.2
      exact act_map _ (act_update met met' hkeeps.1 fun value => act_callback hinner (edit value))
  | .getOrInsert key value, hkeeps => act_map _ (act_getOrInsert met met' hkeeps value)
  | .getOrInsertWith key inner make, hkeeps => by
      have hinner := agree_performAll met met' inner hkeeps.2
      exact act_map _ (act_getOrInsertWith met met' hkeeps.1 (act_callback hinner make))
  | .length, hkeeps => hkeeps.elim
  | .isEmpty, hkeeps => hkeeps.elim
  | .entries, hkeeps => hkeeps.elim
  | .keys, hkeeps => hkeeps.elim
  | .values, hkeeps => hkeeps.elim
  | .clear, hkeeps => hkeeps.elim
  | .flush, hkeeps => hkeeps.elim
  | .aside act, hkeeps => hkeeps.elim

theorem agree_performAll (met : terms.Met store) (met' : terms.Met store') :
    ∀ commands : List (Command K V (Surroundings Unit) β), Command.AllKeepTo terms.own commands →
      terms.Agree (store.performAll (Command.allWithin S σ commands))
        (store'.performAll (Command.allWithin S' σ commands))
  | [], _ => by
      rw [Command.allWithin, Command.allWithin, Store.performAll_nil, Store.performAll_nil]
      exact agree_pure []
  | command :: rest, hkeeps => by
      rw [Command.allWithin, Command.allWithin, Store.performAll_cons, Store.performAll_cons]
      refine agree_bind (act_perform met met' command hkeeps.1) fun outcome => ?_
      exact agree_map _ (agree_performAll met met' rest hkeeps.2)

end

end Terms

end SnapshotStore
