import SnapshotStore.Proofs.Store.Batches

namespace SnapshotStore

variable {K V S σ ω α β γ : Type}

namespace Action

variable {serve : Server K V ω} {action : Action K V ω α} {whole after after' : ω}
  {exchanges exchanges' : List (Exchange K V)} {outcome outcome' : Except Failure α}

theorem Ends.unique (h : action.Ends serve whole exchanges outcome after)
    (h' : action.Ends serve whole exchanges' outcome' after') :
    exchanges = exchanges' ∧ outcome = outcome' ∧ after = after' :=
  ⟨h.exchanges.symm.trans h'.exchanges, Prod.mk.inj (h.exec.symm.trans h'.exec)⟩

end Action

theorem Event.replay_of_ofSave? [DecidableEq K] {saved : Except Failure Nat} {event : Event K V}
    (h : ofSave? saved = some event) (bindings : K → Option V) :
    event.replay bindings = bindings := by
  rcases saved with (_ | _ | _) | entries <;> cases h <;> rfl

theorem Event.eq_ok_of_ofSave? {saved : Except Failure Nat} {entries : Nat}
    (h : ofSave? saved = some (.flush entries : Event K V)) : saved = .ok entries := by
  rcases saved with (_ | _ | _) | written <;> cases h
  rfl

-- The map as it is after some changes.
def Report.landing (reports : List (Report K V S)) (map : S) : S :=
  reports.foldl (fun _ report => report.map) map

theorem Report.landing_append (reports later : List (Report K V S)) (map : S) :
    landing (reports ++ later) map = landing later (landing reports map) :=
  List.foldl_append

theorem Report.bindings_landing {backend : Backend K V S} {map map' : S}
    (h : backend.bindings map = backend.bindings map') (reports : List (Report K V S)) :
    backend.bindings (landing reports map) = backend.bindings (landing reports map') := by
  cases reports with
  | nil => exact h
  | cons report rest => rfl

-- Each report tells of a mutation, and it tells what that does to the bindings.
def Report.Tell [DecidableEq K] (backend : Backend K V S) : List (Report K V S) → S → Prop
  | [], _ => True
  | report :: rest, map => report.event.isMutation = true ∧
    backend.bindings report.map = report.event.replay (backend.bindings map) ∧
    Tell backend rest report.map

namespace Report.Tell

variable [DecidableEq K] {backend : Backend K V S} {reports later : List (Report K V S)} {map : S}

theorem isMutation (h : Tell backend reports map) :
    ∀ report ∈ reports, report.event.isMutation = true := by
  induction reports generalizing map with
  | nil => exact fun _ hmem => absurd hmem List.not_mem_nil
  | cons report rest ih => exact List.forall_mem_cons.mpr ⟨h.1, ih h.2.2⟩

-- The reports up to any one of them lead to the map as it is then.
theorem landing (h : Tell backend (reports ++ later) map) :
    backend.bindings (Report.landing reports map) =
      Event.replayAll (backend.bindings map) (reports.map Report.event) := by
  induction reports generalizing map with
  | nil => rfl
  | cons report rest ih =>
      obtain ⟨-, hreport, hrest⟩ := h
      refine (ih hrest).trans ?_
      rw [hreport]
      rfl

end Report.Tell

theorem Request.IsMute.isSilent {request : Request K V} (h : request.IsMute) :
    request.IsSilent := by
  cases request <;> first | exact trivial | exact h.elim

namespace Store

open SnapshotStore.Action

variable {store : Store K V S σ} {world middle after : World S σ}
  {reports later : List (Report K V S)} {exchanges own : List (Exchange K V)}

theorem calm_silent (h : ∀ exchange ∈ exchanges, exchange.request.IsSilent) :
    Calm exchanges := by
  rintro ⟨request, response⟩ hmem
  have hsilent := h _ hmem
  cases request <;> first | rfl | exact hsilent.elim

theorem calm_saveFrom {save : List (Exchange K V)} {saved : Except Failure Nat}
    (h : (store.persistence.saveFrom store.backend : Action K V ω Nat).Yields save saved) :
    Calm save := by
  have hquiet := Routine.Yields.forall_allowed h
    (Persistence.quiet_saveFrom store.persistence store.backend)
  exact calm_silent fun exchange hmem => (hquiet exchange hmem).isSilent

theorem calm_noticesAt (positions : List Nat) (event : Event K V) :
    Calm (noticesAt positions event) := by
  intro exchange hmem
  obtain ⟨position, -, rfl⟩ := List.mem_map.mp hmem
  rfl

-- A listener raises a failure when it is told, and the later ones are not told.
def noticesUpTo (position : Nat) (event : Event K V) (failure : Failure) :
    List (Exchange K V) :=
  noticesAt (List.range position) event ++ [⟨.notify position event, .error failure⟩]

theorem told_noticesUpTo (listener position : Nat) (event : Event K V) (failure : Failure) :
    told listener (noticesUpTo position event failure) =
      if listener ≤ position then [event] else [] := by
  rw [noticesUpTo, told_append, told_noticesAt_range]
  rcases Nat.lt_trichotomy listener position with hlt | rfl | hgt
  · simp [told, hlt, Nat.le_of_lt hlt, Nat.ne_of_gt hlt]
  · simp [told]
  · simp [told, Nat.not_lt_of_gt hgt, Nat.not_le_of_gt hgt, Nat.ne_of_lt hgt]

-- Changes have been made and reported to all listeners. Nothing but the map and what is on the
-- desk is different after that.
structure Reported (store : Store K V S σ) (world : World S σ) (reports : List (Report K V S))
    (exchanges : List (Exchange K V)) (after : World S σ) : Prop where
  stays : after = { world with map := after.map, desk := after.desk }
  lands : store.backend.bindings after.map =
    store.backend.bindings (Report.landing reports world.map)
  tally : Tally store.listeners.length exchanges 0 0 (reports.map Report.event)
  calm : Calm exchanges

namespace Reported

theorem mute (hstays : after = { world with map := after.map, desk := after.desk })
    (hlands : store.backend.bindings after.map = store.backend.bindings world.map)
    (hmute : ∀ exchange ∈ exchanges, exchange.request.IsMute) :
    store.Reported world [] exchanges after :=
  ⟨hstays, hlands, Tally.mute _ hmute,
    calm_silent fun exchange hmem => (hmute exchange hmem).isSilent⟩

theorem refl (world : World S σ) : store.Reported world [] [] world :=
  mute rfl rfl fun _ hmem => absurd hmem List.not_mem_nil

theorem change (hmute : ∀ exchange ∈ exchanges, exchange.request.IsMute) (event : Event K V)
    (world : World S σ) (map : S) (desk : σ) :
    store.Reported world [⟨event, map⟩] (exchanges ++ store.notices event)
      { world with map := map, desk := desk } := by
  refine ⟨rfl, rfl, (Tally.mute _ hmute).append (Tally.notices store event), ?_⟩
  exact calm_append.mpr ⟨calm_silent fun exchange hmem => (hmute exchange hmem).isSilent,
    calm_noticesAt _ event⟩

theorem append (h : store.Reported world reports exchanges middle)
    (h' : store.Reported middle later own after) :
    store.Reported world (reports ++ later) (exchanges ++ own) after := by
  refine ⟨?_, ?_, ?_, calm_append.mpr ⟨h.calm, h'.calm⟩⟩
  · rw [h'.stays, h.stays]
  · rw [h'.lands, Report.landing_append]
    exact Report.bindings_landing h.lands later
  · rw [List.map_append]
    exact h.tally.append h'.tally

end Reported

-- A listener raises a failure when it is told of an event. That is of one of some changes, which
-- has been made by then, or of a save that comes after all of them.
inductive Disrupted (store : Store K V S σ) (world : World S σ) (position : Nat)
    (failure : Failure) :
    List (Report K V S) → Event K V → List (Exchange K V) → World S σ → Prop where
  | change {reports : List (Report K V S)} {own changes : List (Exchange K V)}
      {middle : World S σ} (event : Event K V) (map : S) (later : List (Report K V S)) (desk : σ) :
      store.Reported world reports own middle →
      (∀ exchange ∈ changes, exchange.request.IsMute) →
      Disrupted store world position failure (reports ++ ⟨event, map⟩ :: later) event
        (own ++ (changes ++ noticesUpTo position event failure))
        { middle with map := map, desk := desk }
  | save {reports : List (Report K V S)} {own save : List (Exchange K V)} {event : Event K V}
      {middle written : World S σ} {saved : Except Failure Nat} (desk : σ) :
      store.Reported world reports own middle →
      (store.persistence.saveFrom store.backend).Ends (World.serve store.setting) middle save saved
        written → Event.ofSave? saved = some event →
      Disrupted store world position failure reports event
        (own ++ (save ++ noticesUpTo position event failure)) { written with desk := desk }

theorem Disrupted.of_reported {position : Nat} {failure : Failure} {event : Event K V}
    (h : store.Reported world reports exchanges middle)
    (h' : store.Disrupted middle position failure later event own after) :
    store.Disrupted world position failure (reports ++ later) event (exchanges ++ own) after := by
  cases h' with
  | change event map rest desk hreported hmute =>
      rw [← List.append_assoc, ← List.append_assoc]
      exact .change event map rest desk (h.append hreported) hmute
  | save desk hreported hsave hevent =>
      rw [← List.append_assoc]
      exact .save desk (h.append hreported) hsave hevent

-- An action makes some changes and reports them, whether it is saved then or not.
inductive Accounts (store : Store K V S σ) (action : Action K V (World S σ) α)
    (world : World S σ) (reports : List (Report K V S)) : Prop where
  | calm (saved : Option (Except Failure Nat)) {own : List (Exchange K V)}
      {outcome : Except Failure α} {after : World S σ} :
      action.Ends (World.serve store.setting) world own outcome after → Calm own →
      (∀ position < store.listeners.length, told position own =
        reports.map Report.event ++ (saved.bind Event.ofSave?).toList) →
      Accounts store action world reports
  | disrupted {position : Nat} {failure : Failure} {event : Event K V}
      {own : List (Exchange K V)} {after : World S σ} :
      position < store.listeners.length →
      action.Ends (World.serve store.setting) world own (.error failure) after →
      store.Disrupted world position failure reports event own after →
      Accounts store action world reports

namespace Accounts

variable {action rest : Action K V (World S σ) α}

theorem map (h : store.Accounts action world reports) (f : α → β) :
    store.Accounts (f <$> action) world reports := by
  cases h with
  | calm saved hends hcalm htold => exact .calm saved (hends.map f) hcalm htold
  | disrupted hlt hends hdisrupted => exact .disrupted hlt (hends.map f) hdisrupted

-- What is reported before something else is done.
theorem of_reported
    (haction : ∀ own outcome after, rest.Ends (World.serve store.setting) middle own outcome after →
      action.Ends (World.serve store.setting) world (exchanges ++ own) outcome after)
    (h : store.Reported world reports exchanges middle)
    (hrest : store.Accounts rest middle later) :
    store.Accounts action world (reports ++ later) := by
  cases hrest with
  | calm saved hends hcalm htold =>
      refine .calm saved (haction _ _ _ hends) (calm_append.mpr ⟨h.calm, hcalm⟩)
        fun position hlt => ?_
      rw [told_append, h.tally.told position hlt, htold position hlt, List.map_append,
        List.append_assoc]
  | disrupted hlt hends hdisrupted =>
      exact .disrupted hlt (haction _ _ _ hends) (.of_reported h hdisrupted)

-- A change is made and reported before something else is done.
theorem of_change {event : Event K V} {map : S}
    (haction : ∀ own outcome after,
      (do store.tell event; rest).Ends (World.serve store.setting) { world with map := map } own
        outcome after →
      action.Ends (World.serve store.setting) world (exchanges ++ own) outcome after)
    (hmute : ∀ exchange ∈ exchanges, exchange.request.IsMute)
    (hrest : ∀ desk, store.Accounts rest { world with map := map, desk := desk } later) :
    store.Accounts action world (⟨event, map⟩ :: later) := by
  rcases store.tell_cases event { world with map := map } with
    ⟨desk, htell⟩ | ⟨position, hlt, failure, desk, htell⟩
  · refine .of_reported (fun own outcome after hends => ?_)
      (.change hmute event world map desk) (hrest desk)
    rw [List.append_assoc]
    exact haction _ _ _ (htell.bind hends)
  · exact .disrupted hlt (haction _ _ _ htell.bind_error)
      (.change event map later desk (.refl world) hmute)

theorem of_mute {outcome : Except Failure α}
    (hends : action.Ends (World.serve store.setting) world exchanges outcome after)
    (hmute : ∀ exchange ∈ exchanges, exchange.request.IsMute) :
    store.Accounts action world [] :=
  .calm none hends (calm_silent fun exchange hmem => (hmute exchange hmem).isSilent)
    (Tally.mute _ hmute).told

end Accounts

-- What follows a save: the listeners are told, and the outcome of the save goes on to the caller.
def conclude (store : Store K V S σ) (saved : Except Failure Nat) : Action K V ω Unit := do
  (Event.ofSave? saved).elim (pure ()) store.tell
  Action.ofExcept (saved.map fun _ => ())

theorem flush_eq (store : Store K V S σ) : (store.flush : Action K V ω Unit) = (do
    let saved ← ofRoutine (store.persistence.saveFrom store.backend).run
    store.conclude saved) := by
  refine congrArg _ (funext fun saved => ?_)
  rcases saved with (error | text | _) | entries
  · rfl
  · rfl
  · rfl
  · exact (bind_pure (store.tell (.flush entries))).symm

theorem ends_flush {save : List (Exchange K V)} {saved : Except Failure Nat} {written : World S σ}
    {outcome : Except Failure Unit}
    (hsave : (store.persistence.saveFrom store.backend).Ends (World.serve store.setting) world save
      saved written)
    (hrest : (store.conclude saved).Ends (World.serve store.setting) written own outcome after) :
    store.flush.Ends (World.serve store.setting) world (save ++ own) outcome after := by
  have hrun : (store.persistence.saveFrom store.backend).run.run (World.serve store.setting)
    world = (saved, written) := hsave.exec
  have hroutine := ends_ofRoutine (World.serve store.setting)
    (store.persistence.saveFrom store.backend).run world
  rw [hsave.exchanges, hrun] at hroutine
  rw [flush_eq]
  exact hroutine.bind hrest

theorem conclude_cases (store : Store K V S σ) (saved : Except Failure Nat) (world : World S σ) :
    (∃ own outcome desk, (store.conclude saved).Ends (World.serve store.setting) world own outcome
      { world with desk := desk } ∧ Calm own ∧
      ∀ position < store.listeners.length, told position own = (Event.ofSave? saved).toList) ∨
    ∃ position < store.listeners.length, ∃ event failure desk,
      Event.ofSave? saved = some event ∧ (store.conclude saved).Ends (World.serve store.setting)
        world (noticesUpTo position event failure) (.error failure)
        { world with desk := desk } := by
  unfold conclude
  cases Event.ofSave? (K := K) (V := V) saved with
  | none => exact .inl ⟨[], _, world.desk, ⟨rfl, rfl⟩, calm_noticesAt [] .clear, fun _ _ => rfl⟩
  | some event =>
      rcases store.tell_cases event world with
        ⟨desk, htell⟩ | ⟨position, hlt, failure, desk, htell⟩
      · have hends : (store.tell event >>= fun _ => Action.ofExcept (saved.map fun _ => ())).Ends
            (World.serve store.setting) world (store.notices event ++ []) _ _ :=
          htell.bind ⟨rfl, rfl⟩
        rw [List.append_nil] at hends
        exact .inl ⟨_, _, desk, hends, calm_noticesAt _ event, fun _ hlt => told_notices hlt event⟩
      · exact .inr ⟨position, hlt, event, failure, desk, rfl, htell.bind_error⟩

theorem accounts_flush (world : World S σ) : store.Accounts store.flush world [] := by
  have hsave := (store.persistence.saveFrom store.backend).ends_exec (World.serve store.setting)
    world
  have hcalm := calm_saveFrom hsave.yields
  have htally := tally_saveFrom store.listeners.length hsave.yields
  generalize (Action.exec _ _ _).1 = saved at hsave
  generalize (Action.exec _ _ _).2 = written at hsave
  rcases store.conclude_cases saved written with
    ⟨own, outcome, desk, hrest, hown, htold⟩ | ⟨position, hlt, event, failure, desk, hevent, hrest⟩
  · refine .calm (some saved) (ends_flush hsave hrest) (calm_append.mpr ⟨hcalm, hown⟩)
      fun position hlt => ?_
    rw [told_append, htally.told position hlt, htold position hlt]
    rfl
  · exact .disrupted hlt (ends_flush hsave hrest) (.save desk (.refl world) hsave hevent)

theorem accounts_settle (world : World S σ) : store.Accounts store.settle world [] := by
  unfold settle
  cases store.policy with
  | writeThrough => exact accounts_flush world
  | background milliseconds =>
      have hcalm : Calm [(⟨.nudge, (world.serve store.setting .nudge).1⟩ : Exchange K V)] :=
        calm_silent (List.forall_mem_singleton.mpr trivial)
      exact .calm none (ends_ask_bind (ends_pure ())) hcalm fun _ _ => rfl
  | callerDriven => exact .of_mute (ends_pure ()) fun _ hmem => absurd hmem List.not_mem_nil

end Store

end SnapshotStore
