import Mathlib.Data.List.Sort
import SnapshotStore.Proofs.Backend.Shards
import SnapshotStore.Proofs.Persistence.Load
import SnapshotStore.Proofs.Store.Alike

namespace SnapshotStore

variable {K V S S' σ σ' β : Type}

def World.withMap (world : World S σ) (map : S') : World S' σ :=
  { world with map := map }

def World.withDesk (world : World S σ) (desk : σ') : World S σ' :=
  { world with desk := desk }

-- The bytes, or the failure, are the same for the same bindings.
def Serializer.IgnoresOrder (serializer : Serializer K V) : Prop :=
  ∀ entries entries', (entries.map Prod.fst).Nodup → entries.Perm entries' →
    serializer.serialize entries = serializer.serialize entries'

-- A listener that looks at the store does not mind the order in which it sees the bindings.
def Listener.IgnoresOrder (listener : Listener K V σ) : Prop :=
  ∀ event sight sight' desk, sight.entries.get.Perm sight'.entries.get →
    sight.files = sight'.files →
    listener.notify event sight desk = listener.notify event sight' desk

namespace Likeness

open SnapshotStore.Action (ask)

section Backends

variable [DecidableEq K] {backend : Backend K V S} {backend' : Backend K V S'}
  (laws : backend.Laws) (laws' : backend'.Laws) {persistence : Persistence K V}
  {policy : FlushPolicy} {pretty connected : Bool} {listeners : List (Listener K V σ)}

-- Maps with the same bindings.
def ofLaws (serializer : Serializer K V) (listeners : List (Listener K V σ)) :
    Likeness ⟨backend, serializer, listeners⟩ ⟨backend', serializer, listeners⟩ where
  maps map map' := laws.Valid map ∧ laws'.Valid map' ∧
    ∀ key, backend.get key map = backend'.get key map'
  desks := Eq
  lists := List.Perm
  lists_map f _ _ h := h.map f
  lists_length h := h.length_eq
  compared _ := true

theorem perm_snapshot {map : S} {map' : S'} (hvalid : laws.Valid map) (hvalid' : laws'.Valid map')
    (hsame : ∀ key, backend.get key map = backend'.get key map') :
    (backend.snapshot map).Perm (backend'.snapshot map') := by
  apply laws'.perm_snapshot hvalid' (laws.nodup_snapshot hvalid)
  intro key value
  rw [laws.mem_snapshot hvalid, hsame]

theorem Worlds.notify {serializer : Serializer K V}
    (hlisteners : ∀ listener ∈ listeners, listener.IgnoresOrder) (position : Nat)
    (event : Event K V) {world : World S σ} {world' : World S' σ}
    (h : (ofLaws laws laws' serializer listeners).Worlds world world') :
    (world'.notify ⟨backend', serializer, listeners⟩ position event).1 =
      (world.notify ⟨backend, serializer, listeners⟩ position event).1 ∧
    (ofLaws laws laws' serializer listeners).Worlds
      (world.notify ⟨backend, serializer, listeners⟩ position event).2
      (world'.notify ⟨backend', serializer, listeners⟩ position event).2 := by
  unfold World.notify
  cases hlistener : listeners[position]? with
  | none => exact ⟨rfl, h⟩
  | some listener =>
      obtain ⟨hvalid, hvalid', hsame⟩ := h.map
      have hperm := perm_snapshot laws laws' hvalid hvalid' hsame
      have hsight := hlisteners listener (List.mem_of_getElem? hlistener) event
        ⟨.mk fun _ => backend.snapshot world.map, world.files⟩
        ⟨.mk fun _ => backend'.snapshot world'.map, world'.files⟩ world.desk hperm h.files.symm
      have hdesk : world'.desk = world.desk := h.desk.symm
      simp only [hdesk, ← hsight]
      exact ⟨trivial, { h with desk := rfl }⟩

theorem act_tellFrom (hlisteners : ∀ listener ∈ listeners, listener.IgnoresOrder)
    (serializer : Serializer K V) (event : Event K V) (positions : List Nat) :
    (ofLaws laws laws' serializer listeners).ActAlike Eq (Store.tellFrom event positions)
      (Store.tellFrom event positions) := by
  induction positions with
  | nil => exact act_pure rfl
  | cons position rest ih =>
      have hnotify : (ofLaws laws laws' serializer listeners).ActAlike Eq
          (ask (.notify position event)) (ask (.notify position event)) :=
        act_ofRoutine (alike_ask fun _ _ hworlds =>
          hworlds.notify laws laws' hlisteners position event)
      refine act_bind hnotify ?_
      rintro outcome _ rfl
      exact act_bind (act_ofExcept outcome) fun _ _ _ => ih

theorem holds_ofLaws (hserializer : persistence.serializer.IgnoresOrder)
    (hlisteners : ∀ listener ∈ listeners, listener.IgnoresOrder) :
    Holds ⟨backend, persistence, policy, pretty, connected, listeners⟩
      ⟨backend', persistence, policy, pretty, connected, listeners⟩
      (ofLaws laws laws' persistence.serializer listeners) where
  policy := rfl
  path := rfl
  get key h := h.2.2 key
  insert key value h := by
    obtain ⟨hvalid, hvalid', hsame⟩ := h
    refine ⟨?_, laws.valid_insert key value hvalid, laws'.valid_insert key value hvalid',
      fun k => ?_⟩
    · rw [laws.insert_fst key value hvalid, laws'.insert_fst key value hvalid', hsame]
    · rw [laws.get_insert key value k hvalid, laws'.get_insert key value k hvalid', hsame]
  remove key h := by
    obtain ⟨hvalid, hvalid', hsame⟩ := h
    refine ⟨?_, laws.valid_remove key hvalid, laws'.valid_remove key hvalid', fun k => ?_⟩
    · rw [laws.remove_fst key hvalid, laws'.remove_fst key hvalid', hsame]
    · rw [laws.get_remove key k hvalid, laws'.get_remove key k hvalid', hsame]
  contains key h := by
    rw [laws.contains_eq h.1, laws'.contains_eq h.2.1, h.2.2]
  size h := by
    rw [laws.size_eq h.1, laws'.size_eq h.2.1]
    exact (perm_snapshot laws laws' h.1 h.2.1 h.2.2).length_eq
  clear h := by
    refine ⟨laws.valid_clear h.1, laws'.valid_clear h.2.1, fun key => ?_⟩
    rw [laws.get_clear h.1, laws'.get_clear h.2.1]
  snapshot h := perm_snapshot laws laws' h.1 h.2.1 h.2.2
  serialize h :=
    hserializer _ _ (laws.nodup_snapshot h.1) (perm_snapshot laws laws' h.1 h.2.1 h.2.2)
  tell event := act_tellFrom laws laws' hlisteners _ event _

theorem Worlds.eq_withMap {serializer : Serializer K V} {world : World S σ} {world' : World S' σ}
    (h : (ofLaws laws laws' serializer listeners).Worlds world world') :
    world' = world.withMap world'.map := by
  obtain ⟨⟨files, channel, mishaps, desk⟩, map, saving, saves⟩ := world
  obtain ⟨⟨files', channel', mishaps', desk'⟩, map', saving', saves'⟩ := world'
  obtain ⟨-, hdesk, rfl, rfl, rfl, rfl, rfl⟩ := h
  obtain rfl : desk = desk' := hdesk
  rfl

end Backends

section Listeners

variable {backend : Backend K V S} {persistence : Persistence K V} {policy : FlushPolicy}
  {pretty connected : Bool} {listeners : List (Listener K V σ)}
  {listeners' : List (Listener K V σ')}

-- The same map, whatever is on the desks, and nothing of what the listeners are told is compared.
def ofListeners (backend : Backend K V S) (serializer : Serializer K V)
    (listeners : List (Listener K V σ)) (listeners' : List (Listener K V σ')) :
    Likeness ⟨backend, serializer, listeners⟩ ⟨backend, serializer, listeners'⟩ where
  maps := Eq
  desks _ _ := True
  lists := Eq
  lists_map f _ _ h := congrArg (List.map f) h
  lists_length h := congrArg List.length h
  compared glimpse := !glimpse.isTold

-- What a listener does that never fails stays on its desk.
theorem notify_neverFails {setting : Setting K V S σ}
    (hlisteners : ∀ listener ∈ setting.listeners, listener.NeverFails) (position : Nat)
    (event : Event K V) (world : World S σ) :
    ∃ desk, world.notify setting position event = (.ok (), { world with desk := desk }) := by
  unfold World.notify
  cases hlistener : setting.listeners[position]? with
  | none => exact ⟨world.desk, rfl⟩
  | some listener =>
      have hok := hlisteners listener (List.mem_of_getElem? hlistener) event
      exact ⟨_, Prod.ext (hok _ _) rfl⟩

theorem run_tellFrom (setting : Setting K V S σ)
    (hlisteners : ∀ listener ∈ setting.listeners, listener.NeverFails) (event : Event K V)
    (positions : List Nat) (world : World S σ) :
    (∃ desk, (Store.tellFrom event positions).exec (World.serve setting) world =
      (.ok (), { world with desk := desk })) ∧
    ((Store.tellFrom event positions).run.chronicle setting world).filter (!·.isTold) = [] := by
  induction positions generalizing world with
  | nil => exact ⟨⟨world.desk, rfl⟩, rfl⟩
  | cons position rest ih =>
      obtain ⟨desk, hnotify⟩ := notify_neverFails hlisteners position event world
      have hask : (ask (.notify position event)).run.run (World.serve setting) world =
          (.ok (.ok ()), { world with desk := desk }) := by
        change (Except.ok (world.notify setting position event).1,
          (world.notify setting position event).2) = _
        rw [hnotify]
      obtain ⟨⟨last, hexec⟩, hchronicle⟩ := ih { world with desk := desk }
      constructor
      · refine ⟨last, ?_⟩
        rw [Store.tellFrom, Action.exec_bind, Action.exec, hask]
        exact hexec
      · rw [Store.tellFrom, ExceptT.run_bind, Routine.chronicle_bind, hask, List.filter_append]
        exact hchronicle

theorem holds_ofListeners (hlisteners : ∀ listener ∈ listeners, listener.NeverFails)
    (hlisteners' : ∀ listener ∈ listeners', listener.NeverFails) :
    Holds ⟨backend, persistence, policy, pretty, connected, listeners⟩
      ⟨backend, persistence, policy, pretty, connected, listeners'⟩
      (ofListeners backend persistence.serializer listeners listeners') where
  policy := rfl
  path := rfl
  get key h := by rw [h]
  insert key value h := by rw [h]; exact ⟨rfl, rfl⟩
  remove key h := by rw [h]; exact ⟨rfl, rfl⟩
  contains key h := by rw [h]
  size h := by rw [h]
  clear h := by rw [h]; rfl
  snapshot h := by rw [h]; rfl
  serialize h := by rw [h]
  tell event := by
    intro world world' hworlds
    obtain ⟨⟨desk, hexec⟩, hchronicle⟩ :=
      run_tellFrom ⟨backend, persistence.serializer, listeners⟩ hlisteners event
        (List.range listeners.length) world
    obtain ⟨⟨desk', hexec'⟩, hchronicle'⟩ :=
      run_tellFrom ⟨backend, persistence.serializer, listeners'⟩ hlisteners' event
        (List.range listeners'.length) world'
    unfold Action.exec at hexec hexec'
    refine ⟨?_, ?_, hchronicle.trans hchronicle'.symm⟩
    · simp only [Store.tell, Store.setting, hexec, hexec']
      exact .ok rfl
    · simp only [Store.tell, Store.setting, hexec, hexec']
      exact { hworlds with desk := trivial }

theorem Worlds.eq_withDesk {serializer : Serializer K V} {world : World S σ}
    {world' : World S σ'}
    (h : (ofListeners backend serializer listeners listeners').Worlds world world') :
    world' = world.withDesk world'.desk := by
  obtain ⟨⟨files, channel, mishaps, desk⟩, map, saving, saves⟩ := world
  obtain ⟨⟨files', channel', mishaps', desk'⟩, map', saving', saves'⟩ := world'
  obtain ⟨hmap, -, rfl, rfl, rfl, rfl, rfl⟩ := h
  obtain rfl : map = map' := hmap
  rfl

end Listeners

end Likeness

mutual

theorem Answer.Alike.eq {answer answer' : Answer K V β} (h : Answer.Alike Eq answer answer') :
    answer = answer' := by
  cases h with
  | nothing => rfl
  | found value => rfl
  | flag holds => rfl
  | count n => rfl
  | entries h => rw [h]
  | keys h => rw [h]
  | values h => rw [h]
  | absent => rfl
  | updated h => rw [Outcome.AllAlike.eq h]
  | existing value => rfl
  | obtained value h => rw [Outcome.AllAlike.eq h]
  | beside answer => rfl

theorem Outcome.AllAlike.eq {outcomes outcomes' : List (Outcome K V β)}
    (h : Outcome.AllAlike Eq outcomes outcomes') : outcomes = outcomes' := by
  cases h with
  | nil => rfl
  | answer hanswer hrest => rw [Answer.Alike.eq hanswer, Outcome.AllAlike.eq hrest]
  | failure failure hrest => rw [Outcome.AllAlike.eq hrest]

end

-- What comes of some commands on a store that nobody else uses.
structure Record (K V S σ β : Type) where
  outcomes : List (Outcome K V β)
  after : World S σ
  -- what is seen of the run from beside the map
  chronicle : List (Glimpse K V)

def Store.record (store : Store K V S σ) (commands : List (Command K V (Surroundings Unit) β))
    (world : World S σ) : Record K V S σ β :=
  let routine := store.performAll (Command.allWithin S σ commands)
  let (outcomes, after) := routine.run (World.serve store.setting) world
  ⟨outcomes, after, routine.chronicle store.setting world⟩

-- Two backends with the same bindings: the outcomes differ at most in the order of entries, keys
-- and values, the listeners are told the same, nudges are accepted alike, the files are the same
-- after each step, and the maps have the same bindings at the end. Two lists of listeners that
-- never fail: nothing differs but what is told and what is on the desks.
theorem runs_are_independent [DecidableEq K] {backend : Backend K V S} {backend' : Backend K V S'}
    (laws : backend.Laws) (laws' : backend'.Laws) (persistence : Persistence K V)
    (policy : FlushPolicy) (pretty connected : Bool)
    (commands : List (Command K V (Surroundings Unit) β)) (world : World S σ) :
    (∀ (listeners : List (Listener K V σ)) (map' : S'), persistence.serializer.IgnoresOrder →
      (∀ listener ∈ listeners, listener.IgnoresOrder) →
      laws.Valid world.map → laws'.Valid map' →
      (∀ key, backend'.get key map' = backend.get key world.map) →
      let store : Store K V S σ := ⟨backend, persistence, policy, pretty, connected, listeners⟩
      let store' : Store K V S' σ := ⟨backend', persistence, policy, pretty, connected, listeners⟩
      let run := store.record commands world
      let run' := store'.record commands (world.withMap map')
      Outcome.AllAlike List.Perm run.outcomes run'.outcomes ∧ run'.chronicle = run.chronicle ∧
      run'.after = run.after.withMap run'.after.map ∧
      ∀ key, backend'.get key run'.after.map = backend.get key run.after.map) ∧
    ∀ (listeners : List (Listener K V σ)) (listeners' : List (Listener K V σ')) (desk' : σ'),
      (∀ listener ∈ listeners, listener.NeverFails) →
      (∀ listener ∈ listeners', listener.NeverFails) →
      let store : Store K V S σ := ⟨backend, persistence, policy, pretty, connected, listeners⟩
      let store' : Store K V S σ' := ⟨backend, persistence, policy, pretty, connected, listeners'⟩
      let run := store.record commands world
      let run' := store'.record commands (world.withDesk desk')
      run'.outcomes = run.outcomes ∧ run'.after = run.after.withDesk run'.after.desk ∧
      run'.chronicle.filter (!·.isTold) = run.chronicle.filter (!·.isTold) := by
  constructor
  · intro listeners map' hserializer hlisteners hvalid hvalid' hsame store store' run run'
    have hholds : Likeness.Holds store store'
        (Likeness.ofLaws laws laws' persistence.serializer listeners) :=
      Likeness.holds_ofLaws laws laws' hserializer hlisteners
    obtain ⟨houtcomes, hafter, hchronicle⟩ :=
      Likeness.alike_performAll hholds commands world (world.withMap map')
        ⟨⟨hvalid, hvalid', fun key => (hsame key).symm⟩, rfl, rfl, rfl, rfl, rfl, rfl⟩
    refine ⟨houtcomes, ?_, hafter.eq_withMap, fun key => (hafter.map.2.2 key).symm⟩
    have hall : (store.performAll (Command.allWithin S σ commands)).chronicle store.setting world =
        (store'.performAll (Command.allWithin S' σ commands)).chronicle store'.setting
          (world.withMap map') := by
      simpa [Likeness.ofLaws] using hchronicle
    exact hall.symm
  · intro listeners listeners' desk' hlisteners hlisteners' store store' run run'
    have hholds : Likeness.Holds store store'
        (Likeness.ofListeners backend persistence.serializer listeners listeners') :=
      Likeness.holds_ofListeners hlisteners hlisteners'
    obtain ⟨houtcomes, hafter, hchronicle⟩ :=
      Likeness.alike_performAll hholds commands world (world.withDesk desk')
        ⟨rfl, trivial, rfl, rfl, rfl, rfl, rfl⟩
    exact ⟨houtcomes.eq.symm, hafter.eq_withDesk, hchronicle.symm⟩

-- Bytes bound to bytes, the least key first.
def Serializer.sortedPairs : Serializer UInt8 UInt8 where
  serialize entries := Serializer.pairs.serialize (entries.insertionSort fun a b => a.1 ≤ b.1)
  deserialize := Serializer.pairs.deserialize

theorem Serializer.ignoresOrder_sortedPairs : sortedPairs.IgnoresOrder := by
  intro entries entries' hnodup hperm
  let before : UInt8 × UInt8 → UInt8 × UInt8 → Prop := fun a b => a.1 ≤ b.1
  have hsorted : ∀ list : List (UInt8 × UInt8), (list.insertionSort before).Pairwise before :=
    fun list => List.pairwise_insertionSort before list
  have hsame : entries.insertionSort before = entries'.insertionSort before := by
    have hall := ((List.perm_insertionSort before entries).trans hperm).trans
      (List.perm_insertionSort before entries').symm
    refine hall.eq_of_pairwise (fun a b ha hb hab hba => ?_) (hsorted _) (hsorted _)
    have hmem := (List.perm_insertionSort before entries).mem_iff.mp ha
    have hmem' := hperm.mem_iff.mpr ((List.perm_insertionSort before entries').mem_iff.mp hb)
    exact List.inj_on_of_nodup_map hnodup hmem hmem' (UInt8.le_antisymm hab hba)
  exact congrArg Serializer.pairs.serialize hsame

-- The second save fails, and a callback looks at the whole map.
def secondSaveFails : World (Buckets UInt8 UInt8 2) (List String) where
  files := ⟨.ofEntries [], [], []⟩
  channel := default
  mishaps save := if save = 1 then .renaming .accessDenied else .none
  desk := []
  map := .empty

def namesEvents : Listener UInt8 UInt8 (List String) :=
  .recording fun event _ names => event.name :: names

theorem runs_are_independent_secondSaveFails :
    let commands : List (Command UInt8 UInt8 (Surroundings Unit) Unit) :=
      [.insert 1 10, .insert 2 20, .update 1 [.entries] (.ok <| · + 1), .clear, .length]
    let persistence : Persistence UInt8 UInt8 := ⟨⟨"db"⟩, .sortedPairs⟩
    let store : Store UInt8 UInt8 (Buckets UInt8 UInt8 2) (List String) :=
      ⟨.locked 2 UInt8.toNat, persistence, .writeThrough, false, false, [namesEvents]⟩
    let sharded : Store UInt8 UInt8 (Shards UInt8 UInt8 3 1) (List String) :=
      ⟨(Backend.sharded 3 1 UInt8.toNat).withoutBulk, persistence, .writeThrough, false, false,
        [namesEvents]⟩
    let unheard : Store UInt8 UInt8 (Buckets UInt8 UInt8 2) Unit :=
      ⟨.locked 2 UInt8.toNat, persistence, .writeThrough, false, false, []⟩
    let run := store.record commands secondSaveFails
    let run' :=
      sharded.record commands (secondSaveFails.withMap (Backend.sharded 3 1 UInt8.toNat).empty)
    let run'' := unheard.record commands (secondSaveFails.withDesk ())
    run.outcomes.map Except.isOk = [true, false, true, true, true] ∧
    Outcome.AllAlike List.Perm run.outcomes run'.outcomes ∧ run'.chronicle = run.chronicle ∧
    run''.outcomes = run.outcomes := by
  intro commands persistence store sharded unheard run run' run''
  have hignores : ∀ listener ∈ [namesEvents], listener.IgnoresOrder := by
    intro listener hlistener event sight sight' desk _ _
    rw [List.mem_singleton.mp hlistener]
    rfl
  have hnever : ∀ listener ∈ [namesEvents], listener.NeverFails := by
    intro listener hlistener event sight desk
    rw [List.mem_singleton.mp hlistener]
    rfl
  let laws := Backend.lockedLaws (K := UInt8) (V := UInt8) 2 UInt8.toNat
  let laws' := (Backend.shardedLaws (K := UInt8) (V := UInt8) 3 1 UInt8.toNat).withoutBulk
  obtain ⟨hbackends, hlisteners⟩ := @runs_are_independent _ _ _ _ _ Unit _ _ _ _ laws laws'
    persistence .writeThrough false false commands secondSaveFails
  obtain ⟨houtcomes, hchronicle, -, -⟩ := hbackends [namesEvents]
    (Backend.sharded 3 1 UInt8.toNat).empty Serializer.ignoresOrder_sortedPairs hignores
    laws.valid_empty laws'.valid_empty
    fun key => (laws'.get_empty key).trans (laws.get_empty key).symm
  have hnone : ∀ listener ∈ ([] : List (Listener UInt8 UInt8 Unit)), listener.NeverFails :=
    fun _ h => (List.not_mem_nil h).elim
  obtain ⟨hsame, -, -⟩ := hlisteners [namesEvents] [] () hnever hnone
  exact ⟨by decide +kernel, houtcomes, hchronicle, hsame⟩

end SnapshotStore
