import SnapshotStore.Proofs.Store.Accounts
import SnapshotStore.Proofs.Store.Opening
import SnapshotStore.Proofs.Store.Sightings

namespace SnapshotStore

variable {K V S σ ω α β : Type}

namespace Store

open SnapshotStore.Action

variable {store : Store K V S σ}

-- The map and the files are such that any operation can do its work.
structure Fit [DecidableEq K] (laws : store.backend.Laws) (world : World S σ) : Prop where
  valid : laws.Valid world.map
  writable : store.Writable world.files

theorem Fit.withDesk [DecidableEq K] {laws : store.backend.Laws} {world : World S σ}
    (h : Fit laws world) (desk : σ) : Fit laws { world with desk := desk } :=
  ⟨h.valid, h.writable⟩

-- What is seen while the end of a save is reported that was begun on these files with this map.
structure ShowsSave [DecidableEq K] (laws : store.backend.Laws) (before : FileTree) (map : S)
    (sighting : Sighting K V S) : Prop where
  valid : laws.Valid sighting.map
  bindings : store.backend.bindings sighting.map = store.backend.bindings map
  files : match sighting.event with
    | .flush entries => store.ShowsMap sighting.files sighting.map ∧
      entries = (store.backend.snapshot sighting.map).length
    | .flushError _ => Persistence.Retained before store.path sighting.files
    | _ => False

-- What a listener sees while some changes are reported to it one after the other, each when it has
-- just been made. What is seen of a save comes after all of them. It may break off at any time.
inductive Witnesses [DecidableEq K] (laws : store.backend.Laws) (files : FileTree) :
    S → List (Report K V S) → List (Sighting K V S) → Prop where
  | none (map : S) (reports : List (Report K V S)) : Witnesses laws files map reports []
  | change (map : S) {report : Report K V S} {later : List (Report K V S)}
      {seen : List (Sighting K V S)} : laws.Valid report.map →
      Witnesses laws files report.map later seen →
      Witnesses laws files map (report :: later) (⟨report.event, report.map, files⟩ :: seen)
  | save {map : S} {sighting : Sighting K V S} : ShowsSave laws files map sighting →
      Witnesses laws files map [] [sighting]

section

variable [DecidableEq K] {laws : store.backend.Laws} {files : FileTree} {map map' : S}
  {reports : List (Report K V S)} {seen : List (Sighting K V S)}

theorem Witnesses.congr (h : Witnesses laws files map reports seen)
    (hmap : store.backend.bindings map = store.backend.bindings map') :
    Witnesses laws files map' reports seen := by
  cases h with
  | none => exact .none map' reports
  | change _ hvalid hlater => exact .change map' hvalid hlater
  | save hsave => exact .save ⟨hsave.valid, hsave.bindings.trans hmap, hsave.files⟩

-- Each sighting is of the change that is reported then, or it is the last one and of a save.
theorem Witnesses.cases_getElem? (h : Witnesses laws files map reports seen) {i : Nat}
    {sighting : Sighting K V S} (hi : seen[i]? = some sighting) : laws.Valid sighting.map ∧
    ((∃ report, reports[i]? = some report ∧ sighting = ⟨report.event, report.map, files⟩) ∨
      i = reports.length ∧ ShowsSave laws files (Report.landing reports map) sighting) := by
  induction h generalizing i with
  | none => cases hi
  | @change map report later seen hvalid _ ih =>
      cases i with
      | zero =>
          obtain rfl := Option.some.inj hi
          exact ⟨hvalid, .inl ⟨report, rfl, rfl⟩⟩
      | succ i =>
          obtain ⟨hseen, hreport | ⟨rfl, hsave⟩⟩ := ih hi
          · exact ⟨hseen, .inl hreport⟩
          · exact ⟨hseen, .inr ⟨rfl, hsave⟩⟩
  | save hsave =>
      cases i with
      | zero =>
          obtain rfl := Option.some.inj hi
          exact ⟨hsave.valid, .inr ⟨rfl, hsave⟩⟩
      | succ i => cases hi

end

-- What the listener at a position sees of an action that makes some changes and reports them, and
-- that leaves the store ready for the next one.
structure Beholds [DecidableEq K] (laws : store.backend.Laws) (position : Nat)
    (action : Action K V (World S σ) α) (world : World S σ) (reports : List (Report K V S)) :
    Prop where
  sees : Witnesses laws world.files world.map reports
    (action.sightings store.setting position world)
  fit : Fit laws (action.exec (World.serve store.setting) world).2

-- An action does and shows the same as the rest of it on the world as it is by then.
structure Leads (setting : Setting K V S σ) (position : Nat) (action : Action K V (World S σ) α)
    (world : World S σ) (rest : Action K V (World S σ) β) (middle : World S σ) : Prop where
  sightings : action.sightings setting position world = rest.sightings setting position middle
  exec : (action.exec (World.serve setting) world).2 = (rest.exec (World.serve setting) middle).2

section

variable {setting : Setting K V S σ} {position : Nat} {world middle after : World S σ}

theorem leads_bind {action : Action K V (World S σ) α} {next : α → Action K V (World S σ) β}
    {exchanges : List (Exchange K V)} {answer : α}
    (h : action.Ends (World.serve setting) world exchanges (.ok answer) middle)
    (htold : told position exchanges = []) :
    Leads setting position (action >>= next) world (next answer) middle := by
  refine ⟨sightings_bind_of_told h.exec (by rw [h.exchanges, htold]), ?_⟩
  rw [exec_bind, h.exec]

theorem leads_map (f : α → β) (action : Action K V (World S σ) α) (world : World S σ) :
    Leads setting position (f <$> action) world action world := by
  refine ⟨sightings_map f action world, ?_⟩
  rw [map_eq_pure_bind, exec_bind]
  rcases action.exec (World.serve setting) world with ⟨failure | answer, middle⟩ <;> rfl

theorem Leads.trans {γ : Type} {action : Action K V (World S σ) α}
    {rest : Action K V (World S σ) β} {last : Action K V (World S σ) γ}
    (h : Leads setting position action world rest middle)
    (h' : Leads setting position rest middle last after) :
    Leads setting position action world last after :=
  ⟨h.sightings.trans h'.sightings, h.exec.trans h'.exec⟩

theorem leads_ask (request : Request K V) (hsilent : request.IsSilent)
    {next : request.Response → Action K V (World S σ) β} {response : request.Response}
    (h : world.serve setting request = (response, middle)) :
    Leads setting position (ask request >>= next) world (next response) middle := by
  have hask := ends_ask (World.serve setting) request world
  rw [h] at hask
  exact leads_bind hask (hsilent.told_cons response position [])

end

section

variable [DecidableEq K] {laws : store.backend.Laws} {position : Nat} {world middle : World S σ}
  {action : Action K V (World S σ) α} {reports : List (Report K V S)}

theorem Beholds.of_leads {rest : Action K V (World S σ) β}
    (hleads : Leads store.setting position action world rest middle)
    (hfiles : middle.files = world.files)
    (hmap : store.backend.bindings middle.map = store.backend.bindings world.map)
    (h : Beholds laws position rest middle reports) : Beholds laws position action world reports :=
  ⟨hleads.sightings ▸ hfiles ▸ h.sees.congr hmap, hleads.exec ▸ h.fit⟩

theorem Beholds.map (f : α → β) (h : Beholds laws position action world reports) :
    Beholds laws position (f <$> action) world reports :=
  .of_leads (leads_map f action world) rfl rfl h

-- Nothing is told, so that nothing is seen.
theorem Beholds.of_ends {exchanges : List (Exchange K V)} {outcome : Except Failure α}
    {after : World S σ} (reports : List (Report K V S))
    (h : action.Ends (World.serve store.setting) world exchanges outcome after)
    (htold : told position exchanges = []) (hfit : Fit laws after) :
    Beholds laws position action world reports := by
  rw [← h.exchanges] at htold
  refine ⟨?_, ?_⟩
  · rw [Action.sightings, Routine.sightings_eq_nil htold]
    exact .none _ _
  · rw [h.exec]
    exact hfit

-- A change is made and reported before something else is done.
theorem Beholds.of_change (hlt : position < store.listeners.length)
    {rest : Action K V (World S σ) β} {event : Event K V} {map : S}
    (hleads : Leads store.setting position action world (do store.tell event; rest)
      { world with map := map }) (hvalid : laws.Valid map) (hwritable : store.Writable world.files)
    (hrest : ∀ desk, Beholds laws position rest { world with map := map, desk := desk } reports) :
    Beholds laws position action world (⟨event, map⟩ :: reports) := by
  obtain ⟨outcome, desk, hexec, hseen⟩ :=
    sightings_tell hlt event { world with map := map }
  rcases outcome with failure | _
  · refine ⟨?_, ?_⟩
    · rw [hleads.sightings, sightings_bind_error hexec]
      rcases hseen with hone | ⟨-, hnone⟩
      · rw [hone]
        exact .change _ hvalid (.none _ _)
      · rw [hnone]
        exact .none _ _
    · rw [hleads.exec, exec_bind, hexec]
      exact ⟨hvalid, hwritable⟩
  · refine ⟨?_, ?_⟩
    · rw [hleads.sightings, sightings_bind hexec]
      rcases hseen with hone | ⟨⟨failure, hfails⟩, -⟩
      · rw [hone]
        exact .change _ hvalid (hrest desk).sees
      · cases hfails
    · rw [hleads.exec, exec_bind, hexec]
      exact (hrest desk).fit

theorem showsSave_of_ends {written : World S σ} {saved : Except Failure Nat} {event : Event K V}
    (hvalid : laws.Valid world.map) (hwritable : store.Writable world.files)
    (hmap : written.map = world.map)
    (hends : Persistence.SaveEnds world.files store.path (store.backend.snapshot world.map)
      (world.serialize store.setting (store.backend.snapshot world.map)) saved written.files)
    (hevent : Event.ofSave? saved = some event) :
    ShowsSave laws world.files world.map ⟨event, written.map, written.files⟩ := by
  refine ⟨hmap ▸ hvalid, congrArg store.backend.bindings hmap, ?_⟩
  rw [hmap]
  generalize written.files = files at hends
  cases hends with
  | written bytes _ hencoded hfits =>
      obtain rfl := Option.some.inj hevent
      have hlook := hfits.look_of_readable hwritable.clear hwritable.readable
      exact ⟨⟨bytes, World.serialize_eq_ok hencoded, hlook⟩, rfl⟩
  | unencoded failure _ =>
      cases failure with
      | store error =>
          obtain rfl := Option.some.inj hevent
          exact .refl world.files store.path
      | _ => cases hevent
  | unwritten bytes failure stage _ _ hstage hfits =>
      obtain ⟨cause, rfl⟩ := hstage.exists_cause
      obtain rfl := Option.some.inj hevent
      exact hfits.retained hwritable.clear hstage

omit [DecidableEq K] in
-- What follows a save shows the end of it, or nothing.
theorem sightings_conclude (hlt : position < store.listeners.length) (saved : Except Failure Nat)
    (world : World S σ) :
    (∃ desk, ((store.conclude saved).exec (World.serve store.setting) world).2 =
      { world with desk := desk }) ∧
    ((store.conclude saved).sightings store.setting position world = [] ∨
      ∃ event, Event.ofSave? saved = some event ∧
        (store.conclude saved).sightings store.setting position world =
          [⟨event, world.map, world.files⟩]) := by
  unfold conclude
  cases Event.ofSave? (K := K) (V := V) saved with
  | none => exact ⟨⟨world.desk, rfl⟩, .inl rfl⟩
  | some event =>
      obtain ⟨outcome, desk, hexec, hseen⟩ := sightings_tell hlt event world
      have hrest : (store.tell event >>= fun _ => Action.ofExcept (saved.map fun _ => ())).sightings
          store.setting position world =
            (store.tell event).sightings store.setting position world := by
        rcases outcome with failure | _
        · exact sightings_bind_error hexec
        · exact (sightings_bind hexec).trans (List.append_nil _)
      refine ⟨⟨desk, ?_⟩, ?_⟩
      · rw [show (some event).elim _ _ = store.tell event from rfl, exec_bind, hexec]
        rcases outcome with failure | _ <;> rfl
      · rw [show (some event).elim _ _ = store.tell event from rfl, hrest]
        exact hseen.symm.imp And.right fun hone => ⟨event, rfl, hone⟩

theorem beholds_flush (hlt : position < store.listeners.length) (hfit : Fit laws world) :
    Beholds laws position store.flush world [] := by
  rcases hexec : (store.persistence.saveFrom store.backend).exec (World.serve store.setting) world
    with ⟨saved, written⟩
  have hsaveEnds := @Persistence.SaveEnds.of_saveFrom _ _ _ _ store.setting
  obtain ⟨hends, hworld⟩ := hsaveEnds hfit.writable.clear hexec
  have hmap : written.map = world.map := by rw [hworld]
  have hleads : Leads store.setting position store.flush world (store.conclude saved) written := by
    have hroutine := ends_ofRoutine (World.serve store.setting)
      (store.persistence.saveFrom store.backend).run world
    have hrun : (store.persistence.saveFrom store.backend).run.run (World.serve store.setting)
      world = (saved, written) := hexec
    rw [hrun] at hroutine
    rw [flush_eq]
    refine leads_bind hroutine ?_
    exact Persistence.told_saveFrom store.setting store.persistence world position
  obtain ⟨⟨desk, hafter⟩, hseen⟩ := sightings_conclude hlt saved written
  refine ⟨?_, ?_⟩
  · rw [hleads.sightings]
    rcases hseen with hnone | ⟨event, hevent, hone⟩
    · rw [hnone]
      exact .none _ _
    · rw [hone]
      exact .save (showsSave_of_ends hfit.valid hfit.writable hmap hends hevent)
  · rw [hleads.exec, hafter]
    refine ⟨hmap ▸ hfit.valid, hends.clear hfit.writable.clear, ?_⟩
    exact hends.readable hfit.writable.clear hfit.writable.readable

end

end Store

end SnapshotStore
