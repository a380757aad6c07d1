import SnapshotStore.Proofs.Store.Accounts
import SnapshotStore.Proofs.Store.Shown

namespace SnapshotStore.Store

open SnapshotStore.Action

variable {K V S σ ω β : Type} {store : Store K V S σ} {world : World S σ}

-- A batch is left with the entries up to the one that is being reported.
theorem insertAll_of_puts {backend : Backend K V S} {entries : List (K × V)} {map : S}
    {done later : List (Report K V S)} {report : Report K V S}
    (h : backend.puts entries map = done ++ report :: later) :
    report.map = backend.insertAll (entries.take (done.length + 1)) map := by
  have hreport := backend.getElem?_puts entries map done.length
  rw [h, List.getElem?_append_right (Nat.le_refl _), Nat.sub_self] at hreport
  obtain ⟨entry, -, hentry⟩ := Option.map_eq_some_iff.mp hreport.symm
  exact (congrArg Report.map hentry).symm

-- How an operation is left that is broken off when a change is reported.
structure LeftByChange (store : Store K V S σ) (command : Command K V (World S σ) β)
    (world : World S σ) (done : List (Report K V S)) (event : Event K V)
    (own : List (Exchange K V)) (after : World S σ) : Prop where
  isMutation : event.isMutation = true
  reports : ∃ later, command.reports store.backend world.map = done ++ ⟨event, after.map⟩ :: later
  -- the files are as before, and so is the channel
  stays : after = { world with map := after.map, desk := after.desk }
  attempts : own.countP Exchange.isAttempt = 0
  nudges : own.countP Exchange.isNudge = 0
  batch (entries : List (K × V)) : command = .extend entries →
    after.map = store.backend.insertAll (entries.take (done.length + 1)) world.map

-- How an operation is left that is broken off when the end of a save is reported.
structure LeftBySave (store : Store K V S σ) (command : Command K V (World S σ) β)
    (world : World S σ) (done : List (Report K V S)) (event : Event K V)
    (after : World S σ) : Prop where
  reports : done = command.reports store.backend world.map
  saved : ∃ middle saved written,
    (store.persistence.saveFrom store.backend).exec (World.serve store.setting) middle =
      (saved, written) ∧ Event.ofSave? saved = some event ∧
    middle = { world with map := middle.map, desk := middle.desk } ∧
    after = { written with desk := after.desk }
  shows (entries : Nat) : event = .flush entries → store.Writable world.files →
    store.ShowsMap after.files after.map

section

variable {command : Command K V (World S σ) β} {position : Nat} {failure : Failure}
  {event : Event K V} {own : List (Exchange K V)} {after : World S σ}

theorem Disrupted.raises {reports : List (Report K V S)}
    (h : store.Disrupted world position failure reports event own after) :
    ∃ before, own = before ++ [⟨.notify position event, .error failure⟩] ∧ Calm before := by
  cases h with
  | @change reports first changes middle _ map later desk hreported hmute =>
      refine ⟨first ++ (changes ++ noticesAt (List.range position) event), ?_, ?_⟩
      · simp [noticesUpTo]
      · have hchanges := calm_silent fun exchange hmem => (hmute exchange hmem).isSilent
        exact calm_append.mpr ⟨hreported.calm,
          calm_append.mpr ⟨hchanges, calm_noticesAt _ event⟩⟩
  | @save _ first save _ middle written saved desk hreported hsave hevent =>
      refine ⟨first ++ (save ++ noticesAt (List.range position) event), ?_, ?_⟩
      · simp [noticesUpTo]
      · exact calm_append.mpr ⟨hreported.calm,
          calm_append.mpr ⟨calm_saveFrom hsave.yields, calm_noticesAt _ event⟩⟩

theorem Disrupted.leaves [DecidableEq K] (laws : store.backend.Laws)
    (hvalid : laws.Valid world.map) (h : store.Disrupted world position failure
      (command.reports store.backend world.map) event own after) :
    ∃ done,
      (∀ listener < store.listeners.length, told listener own =
        done.map Report.event ++ if listener ≤ position then [event] else []) ∧
      store.backend.bindings after.map =
        Event.replayAll (store.backend.bindings world.map) (done.map Report.event ++ [event]) ∧
      (store.LeftByChange command world done event own after ∨
        store.LeftBySave command world done event after) := by
  have htell := tell_reports laws hvalid command
  generalize hreports : command.reports store.backend world.map = reports at h htell
  cases h with
  | @change done first changes middle _ map later desk hreported hmute =>
      have hchanges := Tally.mute store.listeners.length hmute
      refine ⟨done, fun listener hlt => ?_, ?_, .inl ?_⟩
      · rw [told_append, told_append, hreported.tally.told listener hlt,
          hchanges.told listener hlt, told_noticesUpTo]
        rfl
      · rw [List.append_cons] at htell
        have hlanding := htell.landing
        rw [Report.landing_append, List.map_append] at hlanding
        exact hlanding
      · refine ⟨htell.isMutation ⟨event, map⟩ (by simp), ⟨later, hreports⟩, ?_, ?_, ?_, ?_⟩
        · rw [hreported.stays]
        · rw [List.countP_append, List.countP_append, hreported.tally.attempts, hchanges.attempts]
          simp [noticesUpTo, noticesAt, List.countP_eq_zero, Exchange.isAttempt]
        · rw [List.countP_append, List.countP_append, hreported.tally.nudges, hchanges.nudges]
          simp [noticesUpTo, noticesAt, List.countP_eq_zero, Exchange.isNudge]
        · rintro entries rfl
          exact insertAll_of_puts hreports
  | @save _ first save _ middle written saved desk hreported hsave hevent =>
      have htally := tally_saveFrom store.listeners.length hsave.yields
      have hmap : written.map = middle.map := by
        have hquiet := Routine.run_quiet
          (Persistence.quiet_saveFrom store.persistence store.backend) store.setting middle
        have hrun : (store.persistence.saveFrom store.backend).run.run (World.serve store.setting)
          middle = (saved, written) := hsave.exec
        rwa [hrun] at hquiet
      refine ⟨reports, fun listener hlt => ?_, ?_, .inr ?_⟩
      · rw [told_append, told_append, hreported.tally.told listener hlt,
          htally.told listener hlt, told_noticesUpTo]
        rfl
      · rw [← List.append_nil reports] at htell
        have hlanding := htell.landing
        rw [← hreported.lands, ← hmap] at hlanding
        rw [Event.replayAll, List.foldl_append]
        exact hlanding.trans (Event.replay_of_ofSave? hevent _).symm
      · refine ⟨hreports.symm, ⟨middle, saved, written, hsave.exec, hevent, hreported.stays, rfl⟩,
          fun entries hflush hwritable => ?_⟩
        obtain rfl := Event.eq_ok_of_ofSave? (hevent.trans (congrArg some hflush))
        have hfiles : store.Writable middle.files := by
          rw [hreported.stays]
          exact hwritable
        have hshows := (shows_saved hfiles hsave.exec).2
        rwa [← hmap] at hshows

end

-- Any operation on any backend, with any failures of its save. Its callback, if it has one, asks
-- the store for nothing.
theorem listeners_break_off_operations [DecidableEq K] (laws : store.backend.Laws)
    (hvalid : laws.Valid world.map) (command : Command K V (World S σ) β)
    (hspared : store.KeepsToDesk (command.called store.backend world.map) world) :
    let own := (store.perform command).run.exchanges (World.serve store.setting) world
    let outcome := ((store.perform command).exec (World.serve store.setting) world).1
    let after := ((store.perform command).exec (World.serve store.setting) world).2
    -- no listener raises a failure
    (Calm own → ∃ saved : Option (Except Failure Nat), ∀ listener < store.listeners.length,
      told listener own = (command.reports store.backend world.map).map Report.event ++
        (saved.bind Event.ofSave?).toList) ∧
    -- a listener raises one
    ∀ position event failure, ⟨.notify position event, .error failure⟩ ∈ own →
      position < store.listeners.length ∧ outcome = .error failure ∧
      -- nothing is asked for after that
      (∃ before, own = before ++ [⟨.notify position event, .error failure⟩] ∧ Calm before) ∧
      ∃ done,
        (∀ listener < store.listeners.length, told listener own =
          done.map Report.event ++ if listener ≤ position then [event] else []) ∧
        store.backend.bindings after.map =
          Event.replayAll (store.backend.bindings world.map) (done.map Report.event ++ [event]) ∧
        (store.LeftByChange command world done event own after ∨
          store.LeftBySave command world done event after) := by
  intro own outcome after
  cases accounts_perform laws hvalid command hspared with
  | calm saved hends hcalm htold =>
      obtain ⟨rfl, -, -⟩ := hends.unique (Action.ends_exec _ _ _)
      refine ⟨fun _ => ⟨saved, htold⟩, fun position event failure hraised => ?_⟩
      cases hcalm _ hraised
  | @disrupted position failure event _ _ hlt hends hdisrupted =>
      obtain ⟨rfl, houtcome, rfl⟩ := hends.unique (Action.ends_exec _ _ _)
      obtain ⟨before, hown, hcalm⟩ := hdisrupted.raises
      refine ⟨fun hcalm => ?_, fun position' event' failure' hraised => ?_⟩
      · have hlast : ⟨.notify position event, .error failure⟩ ∈ own := by
          rw [show own = _ from hown]
          exact List.mem_append_right before (List.mem_singleton_self _)
        cases hcalm _ hlast
      · rw [show own = _ from hown] at hraised
        rcases List.mem_append.mp hraised with hbefore | hsame
        · cases hcalm _ hbefore
        · cases List.mem_singleton.mp hsame
          exact ⟨hlt, houtcome.symm, ⟨before, hown, hcalm⟩, hdisrupted.leaves laws hvalid⟩

-- Between the two that write down what they are told there is a listener that takes new keys only,
-- and no bad news.
def strict : Store UInt8 UInt8 (Shards UInt8 UInt8 4 4) Pages :=
  { noted with
    listeners :=
      [.recording fun event _ pages => (pages.1 ++ [event], pages.2),
        ⟨fun event _ pages =>
          match event with
          | .update _ _ _ => (.error .unknown, pages)
          | .flushError _ => (.error (.exception "no save"), pages)
          | _ => (.ok (), pages)⟩,
        .recording fun event _ pages => (pages.1, pages.2 ++ [event])] }

-- The second entry of the batch changes a key, and the first save fails.
def overwriting : Command UInt8 UInt8 (World (Shards UInt8 UInt8 4 4) Pages) Unit :=
  .extend [(1, 5), (0, 7), (2, 6)]

def unsaved : Command UInt8 UInt8 (World (Shards UInt8 UInt8 4 4) Pages) Unit :=
  .insert 1 5

theorem listeners_break_off_operations_strict :
    (let run := (strict.perform overwriting).exec (World.serve strict.setting) blankPages
    run.1 = .error .unknown ∧
    run.2.desk = ([.insert 1 5, .update 0 9 7], [.insert 1 5]) ∧
    run.2.files = blankPages.files ∧
    run.2.map = strict.backend.insertAll [(1, 5), (0, 7)] blankPages.map) ∧
    (let run := (strict.perform unsaved).exec (World.serve strict.setting) blankPages
    run.1 = .error (.exception "no save") ∧
    run.2.desk = ([.insert 1 5, .flushError (.io (.openTemporary ⟨"db.json.tmp"⟩))],
      [.insert 1 5]) ∧
    strict.backend.get 1 run.2.map = some 5) := by
  let laws := Backend.shardedLaws (K := UInt8) (V := UInt8) 4 4 UInt8.toNat
  have hvalid : laws.Valid blankPages.map := laws.valid_insert 0 9 laws.valid_empty
  have hspared : strict.KeepsToDesk ([] : List (Command UInt8 UInt8 _ Unit)) blankPages :=
    ⟨rfl, blankPages.desk, rfl⟩
  have hbatch := @listeners_break_off_operations _ _ _ _ _ strict blankPages _ laws hvalid
    overwriting hspared
  have hsingle := @listeners_break_off_operations _ _ _ _ _ strict blankPages _ laws hvalid
    unsaved hspared
  obtain ⟨-, hbatch⟩ := hbatch
  obtain ⟨-, hsingle⟩ := hsingle
  have hupdate : ((strict.perform overwriting).run.exchanges (World.serve strict.setting)
      blankPages)[6]? = some ⟨.notify 1 (.update 0 9 7), .error .unknown⟩ := rfl
  have hfailed : ((strict.perform unsaved).run.exchanges (World.serve strict.setting)
      blankPages)[13]? = some ⟨.notify 1 (.flushError (.io (.openTemporary ⟨"db.json.tmp"⟩))),
        .error (.exception "no save")⟩ := rfl
  obtain ⟨-, hunknown, -, done, htold, -, hleft⟩ := hbatch _ _ _ (List.mem_of_getElem? hupdate)
  obtain ⟨-, hnoSave, -, reported, htold', hbindings, -⟩ :=
    hsingle _ _ _ (List.mem_of_getElem? hfailed)
  have hdone : [.insert 1 5] = done.map Report.event ++ [] := htold 2 (by decide)
  have hreported : [.insert 1 5] = reported.map Report.event ++ [] := htold' 2 (by decide)
  rw [List.append_nil] at hdone hreported
  refine ⟨⟨hunknown, rfl, ?_, ?_⟩, hnoSave, rfl, ?_⟩
  · rcases hleft with hleft | hleft
    · exact congrArg (fun world => world.files) hleft.stays
    · obtain ⟨-, saved, -, -, hevent, -⟩ := hleft.saved
      rcases saved with (_ | _ | _) | _ <;> cases hevent
  · rcases hleft with hleft | hleft
    · have hlength := congrArg List.length hdone
      rw [List.length_map] at hlength
      have hmap := hleft.batch _ rfl
      rwa [← hlength] at hmap
    · obtain ⟨-, saved, -, -, hevent, -⟩ := hleft.saved
      rcases saved with (_ | _ | _) | _ <;> cases hevent
  · rw [← hreported] at hbindings
    exact congrFun hbindings 1

end SnapshotStore.Store
