import SnapshotStore.Proofs.Routine.Alike
import SnapshotStore.Proofs.Store.Tracking
import SnapshotStore.Store.Command

namespace SnapshotStore

variable {K V S S' σ σ' ω α α' ρ ρ' β : Type}

def Request.IsInside : Request K V → Prop
  | .insert _ _ => True
  | .get _ => True
  | .remove _ => True
  | .contains _ => True
  | .copy _ => True
  | .count _ => True
  | .wipe _ => True
  | _ => False

-- The protocol of a single phase in which nothing is asked for but the map.
def inside (K V : Type) : Protocol K V Unit where
  Allows _ := Request.IsInside
  AllowsAside _ := False
  after _ _ _ := ()

theorem Routine.chronicle_inside {routine : Routine K V (World S σ) α}
    (h : routine.Returns (inside K V) ()) (setting : Setting K V S σ) (world : World S σ) :
    routine.chronicle setting world = [] := by
  induction routine generalizing world with
  | done answer => rfl
  | call request next ih =>
      have hnone : ∀ response files, request.glimpses response files = [] := by
        intro response files
        have hrequest := h.1
        cases request <;> first | rfl | exact hrequest.elim
      simp only [chronicle, hnone]
      exact ih _ (h.2 _) _
  | aside act next ih => exact h.1.elim

theorem inside_get (key : K) : (inside K V).Leaves () (.get key) := ⟨trivial, fun _ => rfl⟩

theorem inside_copy (segment : Nat) : (inside K V).Leaves () (.copy segment) :=
  ⟨trivial, fun _ => rfl⟩

theorem inside_remove (key : K) : (inside K V).Leaves () (.remove key) := ⟨trivial, fun _ => rfl⟩

theorem Memory.inside_snapshot (backend : Backend K V S) :
    (snapshot backend : Routine K V ω _).Returns (inside K V) () :=
  Routine.returns_snapshotFrom inside_copy _

theorem Memory.inside_size (backend : Backend K V S) :
    (size backend : Routine K V ω _).Returns (inside K V) () :=
  Routine.returns_size backend inside_copy fun _ => ⟨trivial, fun _ => rfl⟩

theorem Memory.inside_contains (backend : Backend K V S) (key : K) :
    (contains backend key : Routine K V ω _).Returns (inside K V) () :=
  Routine.returns_contains backend (fun _ => ⟨trivial, fun _ => rfl⟩) inside_get key

theorem Memory.inside_clear (backend : Backend K V S) :
    (clear backend : Routine K V ω _).Returns (inside K V) () :=
  Routine.returns_clear backend inside_copy (fun _ _ => ⟨trivial, fun _ => rfl⟩) inside_remove

namespace Likeness

-- The two stores have what it takes: policy and path are the same, the backends answer alike,
-- their copies are serialized to the same bytes, and telling the listeners ends alike.
structure Holds (store : Store K V S σ) (store' : Store K V S' σ')
    (likeness : Likeness store.setting store'.setting) : Prop where
  policy : store'.policy = store.policy
  path : store'.persistence.path = store.persistence.path
  get {map : S} {map' : S'} (key : K) : likeness.maps map map' →
    store.backend.get key map = store'.backend.get key map'
  insert {map : S} {map' : S'} (key : K) (value : V) : likeness.maps map map' →
    (store.backend.insert key value map).1 = (store'.backend.insert key value map').1 ∧
    likeness.maps (store.backend.insert key value map).2 (store'.backend.insert key value map').2
  remove {map : S} {map' : S'} (key : K) : likeness.maps map map' →
    (store.backend.remove key map).1 = (store'.backend.remove key map').1 ∧
    likeness.maps (store.backend.remove key map).2 (store'.backend.remove key map').2
  contains {map : S} {map' : S'} (key : K) : likeness.maps map map' →
    store.backend.contains key map = store'.backend.contains key map'
  size {map : S} {map' : S'} : likeness.maps map map' →
    store.backend.size map = store'.backend.size map'
  clear {map : S} {map' : S'} : likeness.maps map map' →
    likeness.maps (store.backend.clear map) (store'.backend.clear map')
  snapshot {map : S} {map' : S'} : likeness.maps map map' →
    likeness.lists (store.backend.snapshot map) (store'.backend.snapshot map')
  serialize {map : S} {map' : S'} : likeness.maps map map' →
    store.persistence.serializer.serialize (store.backend.snapshot map) =
      store'.persistence.serializer.serialize (store'.backend.snapshot map')
  tell (event : Event K V) : likeness.ActAlike Eq (store.tell event) (store'.tell event)

variable {store : Store K V S σ} {store' : Store K V S' σ'}
  {likeness : Likeness store.setting store'.setting} (holds : Holds store store' likeness)

theorem Worlds.setMap {world : World S σ} {world' : World S' σ'}
    (h : likeness.Worlds world world') {map : S} {map' : S'} (hmap : likeness.maps map map') :
    likeness.Worlds { world with map := map } { world' with map := map' } :=
  { h with map := hmap }

theorem alike_inside {answers : α → α' → Prop} {routine : Routine K V (World S σ) α}
    {routine' : Routine K V (World S' σ') α'} (h : routine.Returns (inside K V) ())
    (h' : routine'.Returns (inside K V) ())
    (hrun : ∀ world world', likeness.Worlds world world' →
      answers (routine.run (World.serve store.setting) world).1
        (routine'.run (World.serve store'.setting) world').1 ∧
      likeness.Worlds (routine.run (World.serve store.setting) world).2
        (routine'.run (World.serve store'.setting) world').2) :
    likeness.Alike answers routine routine' := by
  intro world world' hworlds
  obtain ⟨hanswers, hafter⟩ := hrun world world' hworlds
  refine ⟨hanswers, hafter, ?_⟩
  rw [Routine.chronicle_inside h, Routine.chronicle_inside h']

include holds

theorem act_askGet (key : K) :
    likeness.ActAlike Eq (Action.ask (.get key)) (Action.ask (.get key)) :=
  act_ofRoutine fun _ _ hworlds => ⟨holds.get key hworlds.map, hworlds, rfl⟩

theorem act_askInsert (key : K) (value : V) :
    likeness.ActAlike Eq (Action.ask (.insert key value)) (Action.ask (.insert key value)) := by
  refine act_ofRoutine fun _ _ hworlds => ?_
  obtain ⟨hprevious, hmap⟩ := holds.insert key value hworlds.map
  exact ⟨hprevious, hworlds.setMap hmap, rfl⟩

theorem act_askRemove (key : K) :
    likeness.ActAlike Eq (Action.ask (.remove key)) (Action.ask (.remove key)) := by
  refine act_ofRoutine fun _ _ hworlds => ?_
  obtain ⟨hremoved, hmap⟩ := holds.remove key hworlds.map
  exact ⟨hremoved, hworlds.setMap hmap, rfl⟩

theorem act_containsKey (key : K) :
    likeness.ActAlike Eq (store.containsKey key) (store'.containsKey key) := by
  refine act_ofRoutine (alike_inside (Memory.inside_contains _ _) (Memory.inside_contains _ _) ?_)
  intro world world' hworlds
  have hrun : (Memory.contains store.backend key).run (World.serve store.setting) world = _ :=
    Memory.run_contains store.setting world key
  have hrun' : (Memory.contains store'.backend key).run (World.serve store'.setting) world' = _ :=
    Memory.run_contains store'.setting world' key
  rw [hrun, hrun']
  exact ⟨holds.contains key hworlds.map, hworlds⟩

theorem act_length : likeness.ActAlike Eq store.length store'.length := by
  refine act_ofRoutine (alike_inside (Memory.inside_size _) (Memory.inside_size _) ?_)
  intro world world' hworlds
  have hrun : (Memory.size store.backend).run (World.serve store.setting) world = _ :=
    Memory.run_size store.setting world
  have hrun' : (Memory.size store'.backend).run (World.serve store'.setting) world' = _ :=
    Memory.run_size store'.setting world'
  rw [hrun, hrun']
  exact ⟨holds.size hworlds.map, hworlds⟩

theorem alike_clear :
    likeness.Alike Eq (Memory.clear store.backend) (Memory.clear store'.backend) := by
  refine alike_inside (Memory.inside_clear _) (Memory.inside_clear _) ?_
  intro world world' hworlds
  have hrun : (Memory.clear store.backend).run (World.serve store.setting) world = _ :=
    Memory.run_clear store.setting world
  have hrun' : (Memory.clear store'.backend).run (World.serve store'.setting) world' = _ :=
    Memory.run_clear store'.setting world'
  rw [hrun, hrun']
  exact ⟨rfl, hworlds.setMap (holds.clear hworlds.map)⟩

-- Copies that are alike, also once they are serialized.
theorem alike_snapshot :
    likeness.Alike
      (fun entries entries' => likeness.lists entries entries' ∧
        store.persistence.serializer.serialize entries =
          store'.persistence.serializer.serialize entries')
      (Memory.snapshot store.backend) (Memory.snapshot store'.backend) := by
  refine alike_inside (Memory.inside_snapshot _) (Memory.inside_snapshot _) ?_
  intro world world' hworlds
  rw [Memory.snapshot, Memory.run_snapshotFrom store.setting, Memory.snapshot,
    Memory.run_snapshotFrom store'.setting]
  exact ⟨⟨holds.snapshot hworlds.map, holds.serialize hworlds.map⟩, hworlds⟩

theorem act_saveFrom :
    likeness.ActAlike Eq (store.persistence.saveFrom store.backend)
      (store'.persistence.saveFrom store'.backend) := by
  refine act_exclusively (act_bind (act_ofRoutine (alike_snapshot holds)) ?_)
  rintro entries entries' ⟨hentries, hbytes⟩
  have hserialize : likeness.ActAlike Eq (Action.ask (.serialize entries))
      (Action.ask (.serialize entries')) := by
    refine act_ofRoutine fun world world' hworlds => ⟨?_, hworlds, rfl⟩
    have hmishap := hworlds.mishap
    change world.serialize store.setting entries = world'.serialize store'.setting entries'
    rw [World.serialize, World.serialize, hmishap]
    cases world.mishap with
    | encoding failure => rfl
    | _ => exact hbytes
  have hwrite : likeness.ActAlike Eq (store.persistence.write entries)
      (store'.persistence.write entries') := by
    refine act_bind hserialize ?_
    rintro encoded _ rfl
    refine act_bind (act_ofExcept encoded) ?_
    rintro bytes _ rfl
    rw [holds.path]
    exact act_replaceFile _ _
  refine act_bind hwrite fun _ _ _ => act_pure (likeness.lists_length hentries)

theorem act_report (failure : Failure) :
    likeness.ActAlike Eq (store.report failure) (store'.report failure) := by
  cases failure with
  | store error => exact act_bind (holds.tell (.flushError error)) fun _ _ _ => act_raise _
  | exception text => exact act_raise _
  | unknown => exact act_raise _

theorem act_flush : likeness.ActAlike Eq store.flush store'.flush := by
  have hsave : likeness.Alike Eq (store.persistence.saveFrom store.backend).run
      (store'.persistence.saveFrom store'.backend).run :=
    (act_saveFrom holds).mono fun outcome outcome' houtcomes => by
      cases houtcomes with
      | ok h => rw [h]
      | error failure => rfl
  refine act_bind (act_ofRoutine hsave) ?_
  rintro (failure | entries) _ rfl
  · exact act_report holds failure
  · exact holds.tell (.flush entries)

theorem act_settle : likeness.ActAlike Eq store.settle store'.settle := by
  unfold Store.settle
  rw [holds.policy]
  cases store.policy with
  | writeThrough => exact act_flush holds
  | background milliseconds => exact act_bind (act_outside trivial) fun _ _ _ => act_pure rfl
  | callerDriven => exact act_pure rfl

theorem act_put (key : K) (value : V) :
    likeness.ActAlike Eq (store.put key value) (store'.put key value) := by
  refine act_bind (act_askInsert holds key value) ?_
  rintro previous _ rfl
  exact act_bind (holds.tell _) fun _ _ _ => act_pure rfl

theorem act_putAll (entries : List (K × V)) :
    likeness.ActAlike Eq (store.putAll entries) (store'.putAll entries) := by
  induction entries with
  | nil => exact act_pure rfl
  | cons entry rest ih => exact act_bind (act_put holds entry.1 entry.2) fun _ _ _ => ih

theorem act_insert (key : K) (value : V) :
    likeness.ActAlike Eq (store.insert key value) (store'.insert key value) := by
  refine act_bind (act_put holds key value) ?_
  rintro previous _ rfl
  exact act_bind (act_settle holds) fun _ _ _ => act_pure rfl

theorem act_tellRemoval (key : K) (removed : Option V) :
    likeness.ActAlike Eq (store.tellRemoval key removed) (store'.tellRemoval key removed) := by
  cases removed with
  | none => exact act_pure rfl
  | some value => exact holds.tell (.remove key)

theorem act_remove (key : K) :
    likeness.ActAlike Eq (store.remove key) (store'.remove key) := by
  refine act_bind (act_askRemove holds key) ?_
  rintro removed _ rfl
  refine act_bind (act_tellRemoval holds key removed) fun _ _ _ => ?_
  exact act_bind (act_settle holds) fun _ _ _ => act_pure rfl

theorem act_clear : likeness.ActAlike Eq store.clear store'.clear := by
  refine act_bind (act_ofRoutine (alike_clear holds)) fun _ _ _ => ?_
  exact act_bind (holds.tell .clear) fun _ _ _ => act_settle holds

theorem act_extend (entries : List (K × V)) :
    likeness.ActAlike Eq (store.extend entries) (store'.extend entries) :=
  act_bind (act_putAll holds entries) fun _ _ _ => act_settle holds

-- What a callback makes of a value, and what it hands on beside it.
def Made (answers : ρ → ρ' → Prop) (made : V × ρ) (made' : V × ρ') : Prop :=
  made.1 = made'.1 ∧ answers made.2 made'.2

theorem act_update {answers : ρ → ρ' → Prop} (key : K)
    {mutate : V → Action K V (World S σ) (V × ρ)}
    {mutate' : V → Action K V (World S' σ') (V × ρ')}
    (hmutate : ∀ value, likeness.ActAlike (Made answers) (mutate value) (mutate' value)) :
    likeness.ActAlike (Option.Rel answers) (store.update key mutate)
      (store'.update key mutate') := by
  refine act_bind (act_askGet holds key) ?_
  rintro (_ | current) _ rfl
  · exact act_pure .none
  · refine act_bind (hmutate current) ?_
    rintro ⟨updated, answer⟩ ⟨_, answer'⟩ ⟨rfl, hanswers⟩
    refine act_bind (act_askInsert holds key updated) fun _ _ _ => ?_
    refine act_bind (holds.tell _) fun _ _ _ => ?_
    exact act_bind (act_settle holds) fun _ _ _ => act_pure (.some hanswers)

theorem act_getOrInsertWith {answers : ρ → ρ' → Prop} (key : K)
    {make : Action K V (World S σ) (V × ρ)} {make' : Action K V (World S' σ') (V × ρ')}
    (hmake : likeness.ActAlike (Made answers) make make') :
    likeness.ActAlike (Made (Option.Rel answers)) (store.getOrInsertWith key make)
      (store'.getOrInsertWith key make') := by
  refine act_bind (act_askGet holds key) ?_
  rintro (_ | existing) _ rfl
  · refine act_bind hmake ?_
    rintro ⟨value, answer⟩ ⟨_, answer'⟩ ⟨rfl, hanswers⟩
    refine act_bind (act_put holds key value) fun _ _ _ => ?_
    exact act_bind (act_settle holds) fun _ _ _ => act_pure ⟨rfl, .some hanswers⟩
  · exact act_pure ⟨rfl, .none⟩

theorem act_getOrInsert (key : K) (value : V) :
    likeness.ActAlike Eq (store.getOrInsert key value) (store'.getOrInsert key value) := by
  refine act_bind (act_askGet holds key) ?_
  rintro (_ | existing) _ rfl
  · refine act_bind (act_put holds key value) fun _ _ _ => ?_
    exact act_bind (act_settle holds) fun _ _ _ => act_pure rfl
  · exact act_pure rfl

end Likeness

-- What callbacks can reach beside a store and its listeners.
def World.outside (world : World S σ) : Surroundings Unit :=
  ⟨world.files, world.channel, world.mishaps, ()⟩

def World.beside (act : Surroundings Unit → β × Surroundings Unit) (world : World S σ) :
    β × World S σ :=
  let (answer, outside) := act world.outside
  (answer, { world with
    files := outside.files
    channel := outside.channel
    mishaps := outside.mishaps })

mutual

-- The same command, to be run in a world.
def Command.within (S σ : Type) : Command K V (Surroundings Unit) β → Command K V (World S σ) β
  | .get key => .get key
  | .containsKey key => .containsKey key
  | .length => .length
  | .isEmpty => .isEmpty
  | .entries => .entries
  | .keys => .keys
  | .values => .values
  | .insert key value => .insert key value
  | .remove key => .remove key
  | .clear => .clear
  | .extend list => .extend list
  | .update key inner edit => .update key (Command.allWithin S σ inner) edit
  | .getOrInsert key value => .getOrInsert key value
  | .getOrInsertWith key inner make => .getOrInsertWith key (Command.allWithin S σ inner) make
  | .flush => .flush
  | .aside act => .aside (World.beside act)

def Command.allWithin (S σ : Type) :
    List (Command K V (Surroundings Unit) β) → List (Command K V (World S σ) β)
  | [] => []
  | command :: rest => command.within S σ :: Command.allWithin S σ rest

end

mutual

-- Answers that differ at most in how the lists in them are alike.
inductive Answer.Alike (lists : ∀ {γ : Type}, List γ → List γ → Prop) :
    Answer K V β → Answer K V β → Prop where
  | nothing : Answer.Alike lists .nothing .nothing
  | found (value : Option V) : Answer.Alike lists (.found value) (.found value)
  | flag (holds : Bool) : Answer.Alike lists (.flag holds) (.flag holds)
  | count (n : Nat) : Answer.Alike lists (.count n) (.count n)
  | entries {entries entries' : List (K × V)} : lists entries entries' →
      Answer.Alike lists (.entries entries) (.entries entries')
  | keys {keys keys' : List K} : lists keys keys' → Answer.Alike lists (.keys keys) (.keys keys')
  | values {values values' : List V} : lists values values' →
      Answer.Alike lists (.values values) (.values values')
  | absent : Answer.Alike lists (.updated none) (.updated none)
  | updated {outcomes outcomes' : List (Outcome K V β)} :
      Outcome.AllAlike lists outcomes outcomes' →
      Answer.Alike lists (.updated (some outcomes)) (.updated (some outcomes'))
  | existing (value : V) : Answer.Alike lists (.obtained value none) (.obtained value none)
  | obtained {outcomes outcomes' : List (Outcome K V β)} (value : V) :
      Outcome.AllAlike lists outcomes outcomes' →
      Answer.Alike lists (.obtained value (some outcomes)) (.obtained value (some outcomes'))
  | beside (answer : β) : Answer.Alike lists (.beside answer) (.beside answer)

-- The same failures, and answers that are alike.
inductive Outcome.AllAlike (lists : ∀ {γ : Type}, List γ → List γ → Prop) :
    List (Outcome K V β) → List (Outcome K V β) → Prop where
  | nil : Outcome.AllAlike lists [] []
  | answer {answer answer' : Answer K V β} {rest rest' : List (Outcome K V β)} :
      Answer.Alike lists answer answer' → Outcome.AllAlike lists rest rest' →
      Outcome.AllAlike lists (.ok answer :: rest) (.ok answer' :: rest')
  | failure (failure : Failure) {rest rest' : List (Outcome K V β)} :
      Outcome.AllAlike lists rest rest' →
      Outcome.AllAlike lists (.error failure :: rest) (.error failure :: rest')

end

namespace Likeness

variable {store : Store K V S σ} {store' : Store K V S' σ'}
  {likeness : Likeness store.setting store'.setting}

theorem act_beside (act : Surroundings Unit → β × Surroundings Unit) :
    likeness.ActAlike Eq (Action.aside (World.beside act)) (Action.aside (World.beside act)) := by
  refine act_ofRoutine fun world world' hworlds => ?_
  have houtside : world'.outside = world.outside := by
    rw [World.outside, World.outside, hworlds.files, hworlds.channel, hworlds.mishaps]
  simp only [Routine.run, Routine.chronicle, World.beside, houtside]
  exact ⟨trivial, { hworlds with files := rfl, channel := rfl, mishaps := rfl }, trivial⟩

-- A callback runs commands of its own and then makes something of the value.
theorem act_callback {answers : ρ → ρ' → Prop} {inner : Routine K V (World S σ) ρ}
    {inner' : Routine K V (World S' σ') ρ'} (h : likeness.Alike answers inner inner')
    (made : Except Failure V) :
    likeness.ActAlike (Made answers)
      (do
        let outcomes ← Action.ofRoutine inner
        let value ← Action.ofExcept made
        pure (value, outcomes))
      (do
        let outcomes ← Action.ofRoutine inner'
        let value ← Action.ofExcept made
        pure (value, outcomes)) := by
  refine act_bind (act_ofRoutine h) fun outcomes outcomes' houtcomes => ?_
  refine act_bind (act_ofExcept made) ?_
  rintro value _ rfl
  exact act_pure ⟨rfl, houtcomes⟩

theorem act_entries (holds : Holds store store' likeness) :
    likeness.ActAlike likeness.lists store.entries store'.entries :=
  act_ofRoutine ((alike_snapshot holds).mono fun _ _ => And.left)

mutual

theorem act_perform (holds : Holds store store' likeness) :
    ∀ command : Command K V (Surroundings Unit) β,
    likeness.ActAlike (Answer.Alike likeness.lists) (store.perform (command.within S σ))
      (store'.perform (command.within S' σ'))
  | .get key => act_map (act_askGet holds key) fun value _ heq => heq ▸ .found value
  | .containsKey key => act_map (act_containsKey holds key) fun found _ heq => heq ▸ .flag found
  | .length => act_map (act_length holds) fun n _ heq => heq ▸ .count n
  | .isEmpty => by
      have hempty : likeness.ActAlike Eq store.isEmpty store'.isEmpty :=
        act_bind (act_length holds) fun n _ heq => heq ▸ act_pure rfl
      exact act_map hempty fun empty _ heq => heq ▸ .flag empty
  | .entries => act_map (act_entries holds) fun _ _ hlists => .entries hlists
  | .keys => by
      have hkeys : likeness.ActAlike likeness.lists store.keys store'.keys :=
        act_bind (act_entries holds) fun _ _ hlists => act_pure (likeness.lists_map _ hlists)
      exact act_map hkeys fun _ _ hlists => .keys hlists
  | .values => by
      have hvalues : likeness.ActAlike likeness.lists store.values store'.values :=
        act_bind (act_entries holds) fun _ _ hlists => act_pure (likeness.lists_map _ hlists)
      exact act_map hvalues fun _ _ hlists => .values hlists
  | .insert key value =>
      act_map (act_insert holds key value) fun previous _ heq => heq ▸ .found previous
  | .remove key => act_map (act_remove holds key) fun removed _ heq => heq ▸ .found removed
  | .clear => act_map (act_clear holds) fun _ _ _ => .nothing
  | .extend list => act_map (act_extend holds list) fun _ _ _ => .nothing
  | .update key inner edit => by
      have hinner := alike_performAll holds inner
      refine act_map (act_update holds key fun value => act_callback hinner (edit value)) ?_
      rintro _ _ (houtcomes | _)
      · exact .updated houtcomes
      · exact .absent
  | .getOrInsert key value =>
      act_map (act_getOrInsert holds key value) fun found _ heq => heq ▸ .found (some found)
  | .getOrInsertWith key inner make => by
      have hinner := alike_performAll holds inner
      refine act_map (act_getOrInsertWith holds key (act_callback hinner make)) ?_
      rintro ⟨value, called⟩ ⟨_, called'⟩ ⟨rfl, houtcomes | _⟩
      · exact .obtained value houtcomes
      · exact .existing value
  | .flush => act_map (act_flush holds) fun _ _ _ => .nothing
  | .aside act => act_map (act_beside act) fun answer _ heq => heq ▸ .beside answer

theorem alike_performAll (holds : Holds store store' likeness) :
    ∀ commands : List (Command K V (Surroundings Unit) β),
    likeness.Alike (Outcome.AllAlike likeness.lists)
      (store.performAll (Command.allWithin S σ commands))
      (store'.performAll (Command.allWithin S' σ' commands))
  | [] => by
      rw [Command.allWithin, Command.allWithin, Store.performAll_nil, Store.performAll_nil]
      exact alike_pure .nil
  | command :: rest => by
      rw [Command.allWithin, Command.allWithin, Store.performAll_cons, Store.performAll_cons]
      refine alike_bind (act_perform holds command) fun outcome outcome' houtcome => ?_
      refine alike_map (alike_performAll holds rest) fun outcomes outcomes' houtcomes => ?_
      cases houtcome with
      | ok hanswer => exact .answer hanswer houtcomes
      | error failure => exact .failure failure houtcomes

end

end Likeness

end SnapshotStore
