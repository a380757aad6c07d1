import SnapshotStore.Proofs.Store.Announcing
import SnapshotStore.Proofs.Store.Changelog
import SnapshotStore.Proofs.Store.Shown

namespace SnapshotStore

variable {K V S σ ω α β : Type}

-- What the listeners are told of a change, and the map that it has led to.
structure Report (K V S : Type) where
  event : Event K V
  map : S

-- Entries that are set one by one.
def Command.inserts (entries : List (K × V)) : List (Command K V ω β) :=
  entries.map fun entry => .insert entry.1 entry.2

-- Of what is told by an evaluation nothing is a mutation.
theorem Event.filter_isMutation_saved (saved : Option (Except Failure Nat)) :
    (saved.toList.filterMap ofSave?).filter isMutation = ([] : List (Event K V)) := by
  rcases saved with _ | (_ | _ | _) | entries <;> rfl

namespace Backend

variable (backend : Backend K V S)

def insertAll (entries : List (K × V)) (map : S) : S :=
  entries.foldl (fun map entry => (backend.insert entry.1 entry.2 map).2) map

-- What is reported of entries that are set one after the other. A key that is repeated is bound
-- from its second time on.
def puts : List (K × V) → S → List (Report K V S)
  | [], _ => []
  | entry :: rest, map =>
    let put := backend.insert entry.1 entry.2 map
    ⟨.ofPut entry.1 put.1 entry.2, put.2⟩ :: puts rest put.2

-- Each entry is reported when the ones before it have been set.
theorem getElem?_puts (entries : List (K × V)) (map : S) (i : Nat) :
    (backend.puts entries map)[i]? = entries[i]?.map fun entry =>
      let before := backend.insertAll (entries.take i) map
      ⟨.ofPut entry.1 (backend.insert entry.1 entry.2 before).1 entry.2,
        backend.insertAll (entries.take (i + 1)) map⟩ := by
  induction entries generalizing map i with
  | nil => rfl
  | cons entry rest ih =>
      cases i with
      | zero => rfl
      | succ i => exact ih _ i

def putEvents (entries : List (K × V)) (map : S) : List (Event K V) :=
  (backend.puts entries map).map Report.event

theorem filter_isMutation_putEvents (entries : List (K × V)) (map : S) :
    (backend.putEvents entries map).filter Event.isMutation = backend.putEvents entries map := by
  induction entries generalizing map with
  | nil => rfl
  | cons entry rest ih =>
      refine (List.filter_cons_of_pos (Event.isMutation_ofPut _ _ _)).trans ?_
      exact congrArg (List.cons _) (ih _)

end Backend

namespace Store

open SnapshotStore.Action

variable {store : Store K V S σ} (hlisteners : ∀ listener ∈ store.listeners, listener.NeverFails)

include hlisteners

theorem ends_put (key : K) (value : V) (world : World S σ) :
    let put := store.backend.insert key value world.map
    ∃ desk, (store.put key value).Ends (World.serve store.setting) world
      (⟨.insert key value, put.1⟩ :: store.notices (.ofPut key put.1 value)) (.ok put.1)
      { world with map := put.2, desk := desk } := by
  intro put
  obtain ⟨desk, htell⟩ := ends_notices (.ofPut key put.1 value)
    { world with map := put.2 } hlisteners
  have hends : (do
      store.tell (.ofPut key put.1 value)
      pure put.1 : Action K V (World S σ) (Option V)).Ends (World.serve store.setting) _ _ _ _ :=
    htell.bind (ends_pure put.1)
  rw [List.append_nil] at hends
  exact ⟨desk, ends_ask_bind hends⟩

theorem ends_putAll (entries : List (K × V)) (world : World S σ) :
    ∃ exchanges desk, Tally store.listeners.length exchanges 0 0
        (store.backend.putEvents entries world.map) ∧
      (store.putAll entries).Ends (World.serve store.setting) world exchanges (.ok ())
        { world with map := store.backend.insertAll entries world.map, desk := desk } := by
  induction entries generalizing world with
  | nil => exact ⟨[], world.desk, Tally.mute _ (fun _ hmem => absurd hmem List.not_mem_nil),
      ends_pure ()⟩
  | cons entry rest ih =>
      obtain ⟨desk, hput⟩ := ends_put hlisteners entry.1 entry.2 world
      obtain ⟨exchanges, last, htally, hrest⟩ := ih { world with
        map := (store.backend.insert entry.1 entry.2 world.map).2, desk := desk }
      have hinsert := Exchange.mute_insert entry.1 entry.2
        (store.backend.insert entry.1 entry.2 world.map).1
      have hfirst := (Tally.mute _ hinsert).append (Tally.notices store
        (.ofPut entry.1 (store.backend.insert entry.1 entry.2 world.map).1 entry.2))
      exact ⟨_, last, hfirst.append htally, hput.bind hrest⟩

theorem ends_extend (entries : List (K × V)) (world : World S σ) :
    ∃ puts middle evaluation saved after,
      Tally store.listeners.length puts 0 0 (store.backend.putEvents entries world.map) ∧
      (store.putAll entries).Ends (World.serve store.setting) world puts (.ok ()) middle ∧
      middle.map = store.backend.insertAll entries world.map ∧ middle.files = world.files ∧
      store.Evaluation (World S σ) evaluation saved ∧ after.map = middle.map ∧
      store.settle.Ends (World.serve store.setting) middle evaluation (answered saved ()) after ∧
      (store.extend entries).Ends (World.serve store.setting) world (puts ++ evaluation)
        (answered saved ()) after := by
  obtain ⟨puts, desk, htally, hputs⟩ := ends_putAll hlisteners entries world
  obtain ⟨evaluation, saved, after, hevaluation, hmap, hsettle⟩ := ends_settle hlisteners
    { world with map := store.backend.insertAll entries world.map, desk := desk }
  exact ⟨puts, _, evaluation, saved, after, htally, hputs, rfl, rfl, hevaluation, hmap, hsettle,
    hputs.bind hsettle⟩

omit hlisteners in
theorem perform_insert (key : K) (value : V) :
    (store.perform (.insert key value) : Action K V ω (Answer K V β)) =
      .found <$> store.insert key value := by
  rw [perform]

theorem ends_perform_insert (key : K) (value : V) (world : World S σ) :
    let put := store.backend.insert key value world.map
    ∃ evaluation saved after, store.Evaluation (World S σ) evaluation saved ∧ after.map = put.2 ∧
      (store.perform (.insert key value) : Action K V (World S σ) (Answer K V β)).Ends
        (World.serve store.setting) world (⟨.insert key value, put.1⟩ ::
          (store.notices (.ofPut key put.1 value) ++ evaluation)) (answered saved (.found put.1))
        after := by
  intro put
  obtain ⟨evaluation, saved, after, hevaluation, hmap, hinsert⟩ :=
    (store.sets_insert key value world).evaluates hlisteners
  have hends := hinsert.map (Answer.found (K := K) (β := β))
  rw [answered_map, ← perform_insert] at hends
  exact ⟨evaluation, saved, after, hevaluation, hmap, hends⟩

-- The policy is evaluated after each of the entries, but of that no mutation is told.
theorem exec_inserts (entries : List (K × V)) (world : World S σ) :
    let separate : Routine K V (World S σ) (List (Outcome K V β)) :=
      store.performAll (Command.inserts entries)
    (separate.run (World.serve store.setting) world).2.map =
        store.backend.insertAll entries world.map ∧
      ∀ position < store.listeners.length,
        (told position (separate.exchanges (World.serve store.setting) world)).filter
          Event.isMutation = store.backend.putEvents entries world.map := by
  induction entries generalizing world with
  | nil => exact ⟨rfl, fun _ _ => rfl⟩
  | cons entry rest ih =>
      obtain ⟨evaluation, saved, after, hevaluation, hmap, hends⟩ :=
        @ends_perform_insert _ _ _ _ β store hlisteners entry.1 entry.2 world
      obtain ⟨hrun, hexchanges⟩ := performAll_of_ends hends (Command.inserts rest)
      obtain ⟨hrest, htold⟩ := ih after
      rw [hmap] at hrest htold
      refine ⟨(congrArg (fun run => run.2.map) hrun).trans hrest, fun position hlt => ?_⟩
      have hinsert := Exchange.mute_insert entry.1 entry.2
        (store.backend.insert entry.1 entry.2 world.map).1
      have htally := hevaluation.tally_announced hinsert
        (.ofPut entry.1 (store.backend.insert entry.1 entry.2 world.map).1 entry.2)
      refine (congrArg (fun own => (told position own).filter Event.isMutation) hexchanges).trans ?_
      rw [← List.singleton_append, told_append, List.filter_append, htold position hlt,
        htally.told position hlt, List.filter_cons_of_pos (Event.isMutation_ofPut _ _ _),
        Event.filter_isMutation_saved]
      rfl

section

variable (hpolicy : store.policy = .writeThrough) {world after : World S σ}

include hpolicy

omit hlisteners in
theorem shows_settled
    (h : store.settle.exec (World.serve store.setting) world = (.ok (), after))
    (hwritable : store.Writable world.files) :
    store.Writable after.files ∧ store.ShowsMap after.files after.map := by
  have hmap := (Routine.run_looks store.looks_settle store.setting world).1
  have hrun : (store.settle : Action K V (World S σ) Unit).run.run (World.serve store.setting)
    world = (.ok (), after) := h
  rw [hrun] at hmap
  rw [settle, hpolicy] at h
  rw [hmap]
  exact shows_flushed hwritable h

theorem shows_inserted {key : K} {value : V} {answer : Answer K V β}
    (h : (store.perform (.insert key value)).exec (World.serve store.setting) world =
      (.ok answer, after)) (hwritable : store.Writable world.files) :
    store.Writable after.files ∧ store.ShowsMap after.files after.map := by
  rw [perform_insert, map_eq_pure_bind] at h
  obtain ⟨previous, saved, hinsert, hfound⟩ := exists_of_exec_bind h
  obtain ⟨-, rfl⟩ := Prod.mk.inj hfound
  obtain ⟨_, middle, hput, hrest⟩ := exists_of_exec_bind hinsert
  obtain ⟨_, last, hsettle, hanswer⟩ := exists_of_exec_bind hrest
  obtain ⟨desk, hends⟩ := ends_put hlisteners key value world
  obtain ⟨-, rfl⟩ := Prod.mk.inj (hends.exec.symm.trans hput)
  obtain ⟨-, rfl⟩ := Prod.mk.inj hanswer
  exact shows_settled hpolicy hsettle hwritable

theorem shows_inserts (entries : List (K × V)) :
    let run := ((store.performAll (Command.inserts entries) : Routine K V (World S σ)
      (List (Outcome K V β))).run (World.serve store.setting) world)
    (∀ outcome ∈ run.1, ∃ answer, outcome = .ok answer) → store.Writable world.files →
      store.Writable run.2.files ∧ (entries ≠ [] → store.ShowsMap run.2.files run.2.map) := by
  induction entries generalizing world with
  | nil => exact fun _ hwritable => ⟨hwritable, fun hne => absurd rfl hne⟩
  | cons entry rest ih =>
      intro run hok hwritable
      rcases hinsert : (store.perform (.insert entry.1 entry.2) :
        Action K V (World S σ) (Answer K V β)).exec (World.serve store.setting) world
        with ⟨outcome, first⟩
      obtain ⟨hrun, -⟩ := performAll_of_ends ⟨hinsert, rfl⟩ (Command.inserts rest)
      rw [show run = _ from hrun] at hok ⊢
      obtain ⟨⟨answer, rfl⟩, hrest⟩ := List.forall_mem_cons.mp hok
      obtain ⟨hfirst, hshows⟩ := shows_inserted hlisteners hpolicy hinsert hwritable
      obtain ⟨hlast, hshown⟩ := ih hrest hfirst
      refine ⟨hlast, fun _ => ?_⟩
      cases rest with
      | nil => exact hshows
      | cons next others => exact hshown (List.cons_ne_nil next others)

end

end Store

end SnapshotStore
