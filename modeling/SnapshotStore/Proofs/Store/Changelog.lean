import SnapshotStore.Proofs.Backend.Shards
import SnapshotStore.Proofs.Persistence.Load
import SnapshotStore.Proofs.Store.Tracking
import SnapshotStore.Store.Command

namespace SnapshotStore

variable {K V S σ α β γ : Type}

open SnapshotStore.Action

-- The callbacks of commands, when they are run on a world, leave a key that is being updated with
-- the value that it had, unless they fail; and what is done beside the store leaves the map alone.
mutual

def Command.Minds (store : Store K V S σ) : Command K V (World S σ) β → World S σ → Prop
  | .update key inner edit, world => ∀ current, store.backend.get key world.map = some current →
    Command.MindAll store inner world ∧ ∀ updated, edit current = .ok updated →
      store.backend.get key
        ((store.performAll inner).run (World.serve store.setting) world).2.map = some current
  | .getOrInsertWith key inner _, world => store.backend.get key world.map = none →
    Command.MindAll store inner world
  | .aside act, world => (act world).2.map = world.map
  | _, _ => True

def Command.MindAll (store : Store K V S σ) :
    List (Command K V (World S σ) β) → World S σ → Prop
  | [], _ => True
  | command :: rest, world => Command.Minds store command world ∧
    Command.MindAll store rest ((store.perform command).exec (World.serve store.setting) world).2

end

namespace Store

-- A run of some commands has come between two operations, be they the commands themselves or
-- those of a callback. What has been asked since the run began, and the world as it is.
inductive Reaches (store : Store K V S σ) :
    List (Command K V (World S σ) β) → World S σ → List (Exchange K V) → World S σ → Prop where
  | start (commands : List (Command K V (World S σ) β)) (world : World S σ) :
      Reaches store commands world [] world
  | next {command : Command K V (World S σ) β} {rest : List (Command K V (World S σ) β)}
      {world later : World S σ} {exchanges : List (Exchange K V)} :
      Reaches store rest ((store.perform command).exec (World.serve store.setting) world).2
        exchanges later →
      Reaches store (command :: rest) world
        ((store.perform command).run.exchanges (World.serve store.setting) world ++ exchanges) later
  | inUpdate {key : K} {inner rest : List (Command K V (World S σ) β)}
      {edit : V → Except Failure V} {current : V} {world later : World S σ}
      {exchanges : List (Exchange K V)} :
      store.backend.get key world.map = some current →
      Reaches store inner world exchanges later →
      Reaches store (.update key inner edit :: rest) world (⟨.get key, some current⟩ :: exchanges)
        later
  | inMake {key : K} {inner rest : List (Command K V (World S σ) β)} {make : Except Failure V}
      {world later : World S σ} {exchanges : List (Exchange K V)} :
      store.backend.get key world.map = none →
      Reaches store inner world exchanges later →
      Reaches store (.getOrInsertWith key inner make :: rest) world
        (⟨.get key, none⟩ :: exchanges) later

section

variable {store : Store K V S σ} {commands : List (Command K V (World S σ) β)}
  {world later : World S σ} {exchanges : List (Exchange K V)}

theorem performAll_exchanges_cons (command : Command K V (World S σ) β)
    (rest : List (Command K V (World S σ) β)) (world : World S σ) :
    (store.performAll (command :: rest)).exchanges (World.serve store.setting) world =
      (store.perform command).run.exchanges (World.serve store.setting) world ++
        (store.performAll rest).exchanges (World.serve store.setting)
          ((store.perform command).exec (World.serve store.setting) world).2 := by
  rw [performAll_cons, Routine.exchanges_bind, map_eq_pure_bind, Routine.exchanges_bind]
  exact congrArg (_ ++ ·) (List.append_nil _)

theorem performAll_run_cons (command : Command K V (World S σ) β)
    (rest : List (Command K V (World S σ) β)) (world : World S σ) :
    ((store.performAll (command :: rest)).run (World.serve store.setting) world) =
      (((store.perform command).exec (World.serve store.setting) world).1 ::
        ((store.performAll rest).run (World.serve store.setting)
          ((store.perform command).exec (World.serve store.setting) world).2).1,
        ((store.performAll rest).run (World.serve store.setting)
          ((store.perform command).exec (World.serve store.setting) world).2).2) := by
  rw [performAll_cons, Routine.run_bind, map_eq_pure_bind, Routine.run_bind]
  rfl

theorem performAll_of_ends {command : Command K V (World S σ) β} {own : List (Exchange K V)}
    {outcome : Outcome K V β} {middle : World S σ}
    (h : (store.perform command).Ends (World.serve store.setting) world own outcome middle)
    (rest : List (Command K V (World S σ) β)) :
    (store.performAll (command :: rest)).run (World.serve store.setting) world =
        (outcome :: ((store.performAll rest).run (World.serve store.setting) middle).1,
          ((store.performAll rest).run (World.serve store.setting) middle).2) ∧
      (store.performAll (command :: rest)).exchanges (World.serve store.setting) world =
        own ++ (store.performAll rest).exchanges (World.serve store.setting) middle := by
  rw [performAll_run_cons, performAll_exchanges_cons, h.exec, h.exchanges]
  exact ⟨rfl, rfl⟩

theorem reaches_end (commands : List (Command K V (World S σ) β)) (world : World S σ) :
    Reaches store commands world
      ((store.performAll commands).exchanges (World.serve store.setting) world)
      ((store.performAll commands).run (World.serve store.setting) world).2 := by
  induction commands generalizing world with
  | nil => exact .start [] world
  | cons command rest ih =>
      rw [performAll_exchanges_cons, performAll_run_cons]
      exact .next (ih _)

theorem begins_bind (action : Action K V (World S σ) α) (next : α → Action K V (World S σ) γ)
    (world : World S σ) : action.run.exchanges (World.serve store.setting) world <+:
      (action >>= next).run.exchanges (World.serve store.setting) world := by
  rw [ExceptT.run_bind, Routine.exchanges_bind]
  exact List.prefix_append _ _

theorem begins_map (f : α → γ) (action : Action K V (World S σ) α) (world : World S σ) :
    action.run.exchanges (World.serve store.setting) world <+:
      (f <$> action).run.exchanges (World.serve store.setting) world := by
  rw [map_eq_pure_bind]
  exact begins_bind action _ world

theorem begins_callback (inner : Routine K V (World S σ) α) (made : Except Failure V)
    (world : World S σ) : inner.exchanges (World.serve store.setting) world <+:
      (do
        let answer ← ofRoutine inner
        let value ← Action.ofExcept made
        pure (value, answer) : Action K V (World S σ) (V × α)).run.exchanges
          (World.serve store.setting) world := by
  have hinner := (ends_ofRoutine (World.serve store.setting) inner world).exchanges
  exact hinner ▸ begins_bind (ofRoutine inner) _ world

theorem exchanges_get_bind (key : K) (next : Option V → Action K V (World S σ) γ)
    (world : World S σ) :
    (ask (.get key) >>= next).run.exchanges (World.serve store.setting) world =
      ⟨.get key, store.backend.get key world.map⟩ ::
        (next (store.backend.get key world.map)).run.exchanges (World.serve store.setting) world :=
  rfl

theorem begins_update {key : K} {current : V}
    (hcurrent : store.backend.get key world.map = some current)
    (mutate : V → Action K V (World S σ) (V × α)) :
    ⟨.get key, some current⟩ ::
        (mutate current).run.exchanges (World.serve store.setting) world <+:
      (store.update key mutate).run.exchanges (World.serve store.setting) world := by
  rw [update, exchanges_get_bind, hcurrent]
  exact (List.prefix_cons_inj _).mpr (begins_bind (mutate current) _ world)

theorem begins_getOrInsertWith {key : K} (hnone : store.backend.get key world.map = none)
    (make : Action K V (World S σ) (V × α)) :
    ⟨.get key, none⟩ :: make.run.exchanges (World.serve store.setting) world <+:
      (store.getOrInsertWith key make).run.exchanges (World.serve store.setting) world := by
  rw [getOrInsertWith, exchanges_get_bind, hnone]
  exact (List.prefix_cons_inj _).mpr (begins_bind make _ world)

-- What has been asked at a moment is the beginning of what is asked in all.
theorem Reaches.begins (h : store.Reaches commands world exchanges later) :
    exchanges <+: (store.performAll commands).exchanges (World.serve store.setting) world := by
  induction h with
  | start => exact List.nil_prefix
  | next _ ih =>
      rw [performAll_exchanges_cons]
      exact (List.prefix_append_right_inj _).mpr ih
  | @inUpdate key inner rest edit current world later exchanges hcurrent _ ih =>
      rw [performAll_exchanges_cons, perform]
      apply List.IsPrefix.trans _ (List.prefix_append _ _)
      apply List.IsPrefix.trans _ (begins_map _ _ world)
      apply List.IsPrefix.trans _ (begins_update hcurrent _)
      exact (List.prefix_cons_inj _).mpr (ih.trans (begins_callback _ _ world))
  | @inMake key inner rest make world later exchanges hnone _ ih =>
      rw [performAll_exchanges_cons, perform]
      apply List.IsPrefix.trans _ (List.prefix_append _ _)
      apply List.IsPrefix.trans _ (begins_map _ _ world)
      apply List.IsPrefix.trans _ (begins_getOrInsertWith hnone _)
      exact (List.prefix_cons_inj _).mpr (ih.trans (begins_callback _ _ world))

theorem exec_callback {inner : Routine K V (World S σ) α} {made : Except Failure V}
    {value : V} {answer : α} (h : (do
      let answer ← ofRoutine inner
      let value ← Action.ofExcept made
      pure (value, answer) : Action K V (World S σ) (V × α)).exec
        (World.serve store.setting) world = (.ok (value, answer), later)) :
    made = .ok value ∧ later = (inner.run (World.serve store.setting) world).2 := by
  rw [exec_bind, exec_ofRoutine] at h
  cases made with
  | error failure => cases (Prod.mk.inj h).1
  | ok updated =>
      obtain ⟨hmade, hlater⟩ := Prod.mk.inj h
      exact ⟨congrArg (Except.map Prod.fst) hmade, hlater.symm⟩

end

section

variable [DecidableEq K] {store : Store K V S σ} {laws : store.backend.Laws}
  {world later : World S σ}

-- What a callback does is what its commands do, and it fails or not for a reason of its own.
theorem tracks_callback {inner : Routine K V (World S σ) α} (made : Except Failure V)
    (h : Logged laws inner world) :
    Tracks laws (do
      let answer ← ofRoutine inner
      let value ← Action.ofExcept made
      pure (value, answer)) world :=
  tracks_bind (tracks_ofRoutine h) fun _ after _ =>
    tracks_quiet (returns_bind (returns_ofExcept made) fun _ => returns_pure _) after

theorem tracks_aside {act : World S σ → β × World S σ} (hmap : (act world).2.map = world.map) :
    Tracks laws (aside act) world := by
  refine tracks_of_ends ⟨exec_aside _ act world, rfl⟩ fun hvalid => ?_
  rw [hmap]
  exact ⟨hvalid, .silent fun _ => rfl⟩

mutual

theorem tracks_perform (hlisteners : ∀ listener ∈ store.listeners, listener.NeverFails)
    (command : Command K V (World S σ) β) (world : World S σ)
    (hminds : command.Minds store world) : Tracks laws (store.perform command) world := by
  cases command with
  | insert key value =>
      rw [perform]
      exact tracks_map _ (tracks_insert hlisteners key value world)
  | remove key =>
      rw [perform]
      exact tracks_map _ (tracks_remove hlisteners key world)
  | clear =>
      rw [perform]
      exact tracks_map _ (tracks_clear hlisteners world)
  | extend entries =>
      rw [perform]
      exact tracks_map _ (tracks_extend hlisteners entries world)
  | update key inner edit =>
      rw [perform]
      rw [Command.Minds] at hminds
      refine tracks_map _ (tracks_update hlisteners ?_ ?_)
      · intro current hcurrent
        have hinner := (hminds current hcurrent).1
        exact tracks_callback _ (tracks_performFrom hlisteners inner [] world hinner)
      · rintro current ⟨updated, outcomes⟩ after hcurrent hexec
        obtain ⟨hedit, rfl⟩ := exec_callback hexec
        exact (hminds current hcurrent).2 updated hedit
  | getOrInsert key value =>
      rw [perform]
      exact tracks_map _ (tracks_getOrInsert hlisteners key value world)
  | getOrInsertWith key inner make =>
      rw [perform]
      rw [Command.Minds] at hminds
      refine tracks_map _ (tracks_getOrInsertWith hlisteners fun hnone => ?_)
      exact tracks_callback _ (tracks_performFrom hlisteners inner [] world (hminds hnone))
  | flush =>
      rw [perform]
      exact tracks_map _ (tracks_flush hlisteners world)
  | aside act =>
      rw [perform]
      rw [Command.Minds] at hminds
      exact tracks_map _ (tracks_aside hminds)
  | _ =>
      refine tracks_quiet (store.returns_perform_of_reads leftByLooks_quiet ?_) world
      exact trivial

theorem tracks_performFrom (hlisteners : ∀ listener ∈ store.listeners, listener.NeverFails)
    (commands : List (Command K V (World S σ) β)) (before : List (Outcome K V β))
    (world : World S σ) (hminds : Command.MindAll store commands world) :
    Logged laws (store.performFrom commands before) world := by
  cases commands with
  | nil =>
      rw [performFrom]
      exact logged_quiet (Routine.returns_pure _) world
  | cons command rest =>
      rw [performFrom]
      rw [Command.MindAll] at hminds
      exact logged_bind (tracks_perform hlisteners command world hminds.1)
        (tracks_performFrom hlisteners rest _ _ hminds.2)

end

theorem Reaches.logs {commands : List (Command K V (World S σ) β)}
    {exchanges : List (Exchange K V)} (h : store.Reaches commands world exchanges later)
    (hlisteners : ∀ listener ∈ store.listeners, listener.NeverFails)
    (hvalid : laws.Valid world.map) (hminds : Command.MindAll store commands world) :
    Logs store.listeners.length (store.backend.bindings world.map) exchanges
      (store.backend.bindings later.map) := by
  induction h with
  | start commands world => exact .silent fun _ => rfl
  | @next command rest world later exchanges _ ih =>
      rw [Command.MindAll] at hminds
      obtain ⟨hmiddle, hlogs⟩ := tracks_perform hlisteners command world hminds.1 hvalid
      exact hlogs.append (ih hmiddle hminds.2)
  | @inUpdate key inner rest edit current world later exchanges hcurrent _ ih =>
      rw [Command.MindAll, Command.Minds] at hminds
      have hread : Logs store.listeners.length (store.backend.bindings world.map)
          [⟨.get key, some current⟩] (store.backend.bindings world.map) := .silent fun _ => rfl
      exact hread.append (ih hvalid (hminds.1 current hcurrent).1)
  | @inMake key inner rest make world later exchanges hnone _ ih =>
      rw [Command.MindAll, Command.Minds] at hminds
      have hread : Logs store.listeners.length (store.backend.bindings world.map)
          [⟨.get key, none⟩] (store.backend.bindings world.map) := .silent fun _ => rfl
      exact hread.append (ih hvalid (hminds.1 hnone))

end

-- Any commands on a store that nobody else uses, with listeners that do not fail. Saves may fail
-- and callbacks too, and callbacks may use the store.
theorem events_are_a_changelog [DecidableEq K] {store : Store K V S σ}
    (laws : store.backend.Laws)
    (hlisteners : ∀ listener ∈ store.listeners, listener.NeverFails) {world : World S σ}
    (hvalid : laws.Valid world.map) (commands : List (Command K V (World S σ) β))
    (hminds : Command.MindAll store commands world) :
    -- at any moment between two operations, be it in a callback
    (∀ exchanges later, store.Reaches commands world exchanges later →
      exchanges <+: (store.performAll commands).exchanges (World.serve store.setting) world ∧
      ∃ events, (∀ position < store.listeners.length, told position exchanges = events) ∧
        Event.replayAll (store.backend.bindings world.map) events =
          store.backend.bindings later.map ∧
        ∀ before event after, events = before ++ event :: after →
          event.Fits (Event.replayAll (store.backend.bindings world.map) before)) ∧
    -- the last such moment
    store.Reaches commands world
      ((store.performAll commands).exchanges (World.serve store.setting) world)
      ((store.performAll commands).run (World.serve store.setting) world).2 := by
  refine ⟨fun exchanges later hreaches => ⟨hreaches.begins, ?_⟩, reaches_end commands world⟩
  obtain ⟨events, htold, hlog⟩ := hreaches.logs hlisteners hvalid hminds
  exact ⟨events, htold, hlog.replayAll_eq, fun before event after hevents => hlog.fits hevents⟩

-- Two listeners have a page each to write down what they are told.
abbrev Pages := List (Event UInt8 UInt8) × List (Event UInt8 UInt8)

def noted : Store UInt8 UInt8 (Shards UInt8 UInt8 4 4) Pages where
  backend := .sharded 4 4 UInt8.toNat
  persistence := ⟨⟨"db"⟩, .pairs⟩
  policy := .writeThrough
  pretty := false
  connected := false
  listeners :=
    [.recording fun event _ pages => (pages.1 ++ [event], pages.2),
      .recording fun event _ pages => (pages.1, pages.2 ++ [event])]

theorem neverFails_noted : ∀ listener ∈ noted.listeners, listener.NeverFails := by
  intro listener hlistener
  rcases List.mem_cons.mp hlistener with rfl | hlistener
  · exact fun _ _ _ => rfl
  · rw [List.mem_singleton.mp hlistener]
    exact fun _ _ _ => rfl

-- There is one entry, and the first save fails.
def blankPages : World (Shards UInt8 UInt8 4 4) Pages where
  files := ⟨.ofEntries [], [], []⟩
  channel := default
  mishaps save := if save = 0 then .opening .accessDenied else .none
  desk := ([], [])
  map := (noted.backend.insert 0 9 noted.backend.empty).2

def setTwice : Command UInt8 UInt8 (World (Shards UInt8 UInt8 4 4) Pages) Unit :=
  .extend [(1, 10), (1, 11)]

-- Callbacks set and remove other keys, one sets its own, and one fails. The last key is unbound.
def tangled : List (Command UInt8 UInt8 (World (Shards UInt8 UInt8 4 4) Pages) Unit) :=
  [setTwice, .update 1 [.insert 2 20] fun value => .ok (value + 1),
    .getOrInsertWith 3 [.insert 3 30] (.ok 31), .update 2 [.remove 3] fun _ => .error .unknown,
    .remove 9]

def tangledEvents : List (Event UInt8 UInt8) :=
  [.insert 1 10, .update 1 10 11, .flushError (.io (.openTemporary ⟨"db.json.tmp"⟩)),
    .insert 2 20, .flush 3, .update 1 11 12, .flush 3, .insert 3 30, .flush 4, .update 3 30 31,
    .flush 4, .remove 3, .flush 3, .flush 3]

theorem events_are_a_changelog_tangled :
    (∃ exchanges later, noted.Reaches tangled blankPages exchanges later ∧
      told 1 exchanges = tangledEvents.take 5 ∧
      Event.replayAll (noted.backend.bindings blankPages.map) (tangledEvents.take 5) =
        noted.backend.bindings later.map) ∧
    ((noted.performAll tangled).run (World.serve noted.setting) blankPages).2.desk =
      (tangledEvents, tangledEvents) ∧
    Event.replayAll (noted.backend.bindings blankPages.map) tangledEvents =
      noted.backend.bindings
        ((noted.performAll tangled).run (World.serve noted.setting) blankPages).2.map := by
  let laws := Backend.shardedLaws (K := UInt8) (V := UInt8) 4 4 UInt8.toNat
  have hbound : noted.backend.get 1 ((noted.perform setTwice).exec
      (World.serve noted.setting) blankPages).2.map = some 11 := rfl
  have hminds : Command.MindAll noted tangled blankPages := by
    refine ⟨trivial, ?_, fun _ => ⟨trivial, trivial⟩, ?_, trivial, trivial⟩
    · intro current hcurrent
      obtain rfl := Option.some.inj (hbound.symm.trans hcurrent)
      exact ⟨⟨trivial, trivial⟩, fun _ _ => rfl⟩
    · intro current _
      exact ⟨⟨trivial, trivial⟩, fun updated hfails => by cases hfails⟩
  have hmoment : noted.Reaches tangled blankPages _ _ :=
    .next (.inUpdate hbound (.next (.start _ _)))
  obtain ⟨hmoments, hlast⟩ := events_are_a_changelog laws neverFails_noted
    (laws.valid_insert 0 9 laws.valid_empty) tangled hminds
  obtain ⟨-, events, htold, hreplay, -⟩ := hmoments _ _ hmoment
  obtain ⟨-, all, htoldAll, hreplayAll, -⟩ := hmoments _ _ hlast
  refine ⟨⟨_, _, hmoment, rfl, ?_⟩, rfl, ?_⟩
  · rw [← hreplay, ← htold 1 (by decide)]
    rfl
  · rw [← hreplayAll, ← htoldAll 1 (by decide)]
    rfl

end Store

end SnapshotStore
