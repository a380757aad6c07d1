import SnapshotStore.Proofs.Store.Watching

namespace SnapshotStore

variable {K V S σ ω α β ρ : Type}

-- Something that happens beside the store and stays on the desk.
def Command.MindsDesk : Command K V (World S σ) β → Prop
  | .aside act => ∀ world, ∃ desk, (act world).2 = { world with desk := desk }
  | _ => False

-- Callbacks do not touch the store, and neither does what happens beside it.
def Command.Abstains : Command K V (World S σ) β → Prop
  | .update _ inner _ => ∀ command ∈ inner, command.MindsDesk
  | .getOrInsertWith _ inner _ => ∀ command ∈ inner, command.MindsDesk
  | .aside act => (Command.aside act : Command K V (World S σ) β).MindsDesk
  | _ => True

namespace Store

open SnapshotStore.Action

variable {store : Store K V S σ} {position : Nat} {world middle : World S σ}

section

variable {key : K} {value : V} {next : Option V → Action K V (World S σ) α}

theorem leads_insert {previous : Option V}
    (h : (store.backend.insert key value world.map).1 = previous) :
    Leads store.setting position (ask (.insert key value) >>= next) world (next previous)
      { world with map := (store.backend.insert key value world.map).2 } := by
  subst h
  exact leads_ask (.insert key value) trivial rfl

theorem leads_remove {removed : Option V}
    (h : (store.backend.remove key world.map).1 = removed) :
    Leads store.setting position (ask (.remove key) >>= next) world (next removed)
      { world with map := (store.backend.remove key world.map).2 } := by
  subst h
  exact leads_ask (.remove key) trivial rfl

theorem leads_get {found : Option V} (h : store.backend.get key world.map = found) :
    Leads store.setting position (ask (.get key) >>= next) world (next found) world := by
  subst h
  exact leads_ask (.get key) trivial rfl

end

section

variable [DecidableEq K] {laws : store.backend.Laws}
  (hlt : position < store.listeners.length) (hfit : Fit laws world)

include hlt hfit

theorem beholds_settle : Beholds laws position store.settle world [] := by
  unfold settle
  cases store.policy with
  | writeThrough => exact beholds_flush hlt hfit
  | background milliseconds =>
      have hnudge : (ask .nudge >>= fun _ => pure () : Action K V (World S σ) Unit).Ends
        (World.serve store.setting) world _ _ _ := (ends_ask _ .nudge world).bind (ends_pure ())
      exact .of_ends [] hnudge rfl ⟨hfit.valid, hfit.writable⟩
  | callerDriven => exact .of_ends [] (ends_pure ()) rfl hfit

omit hfit in
-- The policy is evaluated after the change is reported.
theorem Beholds.of_announce {action : Action K V (World S σ) α} {event : Event K V} {map : S}
    {answer : α} (hleads : Leads store.setting position action world
      ((fun _ => answer) <$> store.announce event) { world with map := map })
    (hvalid : laws.Valid map) (hwritable : store.Writable world.files) :
    Beholds laws position action world [⟨event, map⟩] :=
  .of_change hlt (hleads.trans (leads_map _ _ _)) hvalid hwritable
    fun _ => beholds_settle hlt ⟨hvalid, hwritable⟩

theorem beholds_set {key : K} {value : V} {next : Option V → Action K V (World S σ) α}
    {event : Event K V} {answer : α}
    (hnext : next (store.backend.insert key value world.map).1 =
      (fun _ => answer) <$> store.announce event) :
    Beholds laws position (ask (.insert key value) >>= next) world
      [⟨event, (store.backend.insert key value world.map).2⟩] := by
  have hinsert := @leads_insert _ _ _ _ _ store position world key value next _ rfl
  rw [hnext] at hinsert
  exact .of_announce hlt hinsert (laws.valid_insert key value hfit.valid) hfit.writable

theorem beholds_extend (entries : List (K × V)) :
    Beholds laws position (store.extend entries) world (store.backend.puts entries world.map) := by
  induction entries generalizing world with
  | nil => exact beholds_settle hlt hfit
  | cons entry rest ih =>
      have hvalid := laws.valid_insert entry.1 entry.2 hfit.valid
      rw [extend_cons]
      exact .of_change hlt (leads_insert rfl) hvalid hfit.writable
        fun _ => ih ⟨hvalid, hfit.writable⟩

theorem beholds_remove (key : K) : Beholds laws position (store.remove key) world
    ((Command.remove key : Command K V ω β).reports store.backend world.map) := by
  have hvalid := laws.valid_remove key hfit.valid
  rw [remove_eq]
  simp only [Command.reports]
  cases hremoved : (store.backend.remove key world.map).1 with
  | none =>
      exact .of_leads ((leads_remove hremoved).trans (leads_map _ _ _)) rfl
        (Backend.bindings_remove_unbound laws hfit.valid hremoved)
        (beholds_settle hlt ⟨hvalid, hfit.writable⟩)
  | some value => exact .of_announce hlt (leads_remove hremoved) hvalid hfit.writable

theorem beholds_clear : Beholds laws position store.clear world
    [⟨.clear, store.backend.clear world.map⟩] := by
  obtain ⟨exchanges, hmute, hclear⟩ := ends_wipes world
  have hvalid := laws.valid_clear hfit.valid
  exact .of_change hlt (leads_bind hclear ((Tally.mute _ hmute).told position hlt)) hvalid
    hfit.writable fun _ => beholds_settle hlt ⟨hvalid, hfit.writable⟩

theorem beholds_insert (key : K) (value : V) : Beholds laws position (store.insert key value) world
    (store.backend.puts [(key, value)] world.map) := by
  rw [insert_eq]
  exact beholds_set hlt hfit rfl

section

variable {key : K} {value : V} {answer : ρ} {desk : σ}

omit hlt hfit in
-- What is done after a callback.
theorem Beholds.of_callback {callback : Action K V (World S σ) (V × ρ)} {found : Option V}
    {next : Option V → Action K V (World S σ) α}
    {rest : V × ρ → Action K V (World S σ) α} {reports : List (Report K V S)}
    (hfound : store.backend.get key world.map = found) (hnext : next found = callback >>= rest)
    (hcallback : callback.Ends (World.serve store.setting) world [] (.ok (value, answer))
      { world with desk := desk })
    (hrest : Beholds laws position (rest (value, answer)) { world with desk := desk } reports) :
    Beholds laws position (ask (.get key) >>= next) world reports := by
  have hget := @leads_get _ _ _ _ _ store position world key next _ hfound
  rw [hnext] at hget
  exact .of_leads (hget.trans (leads_bind hcallback rfl)) rfl rfl hrest

theorem beholds_update {inner : List (Command K V (World S σ) β)}
    {edit : V → Except Failure V} (hspared : store.KeepsToDesk
      ((Command.update key inner edit).called store.backend world.map) world) :
    Beholds laws position (store.update key fun current => store.callback inner (edit current))
      world ((Command.update key inner edit).reports store.backend world.map) := by
  simp only [Command.called] at hspared
  simp only [Command.reports]
  cases hfound : store.backend.get key world.map with
  | none => exact .of_ends [] (ends_update_missing _ hfound) rfl hfit
  | some current =>
      rw [hfound, if_pos Option.isSome_some] at hspared
      obtain ⟨outcomes, desk, hcallback⟩ := hspared.ends_callback (edit current)
      dsimp only
      cases hedit : edit current with
      | error failure =>
          exact .of_ends [] (ends_update_raised
            (fun current => store.callback inner (edit current)) hfound (hcallback _ hedit)) rfl
            (hfit.withDesk desk)
      | ok value =>
          have hset : Beholds laws position (do
              let _ ← ask (.insert key value)
              (fun _ => some outcomes) <$> store.announce (.update key current value))
              { world with desk := desk } _ := beholds_set hlt (hfit.withDesk desk) rfl
          rw [← replace_eq] at hset
          exact .of_callback hfound rfl (hcallback _ hedit) hset

theorem beholds_fill {make : Action K V (World S σ) (V × ρ)}
    (hfound : store.backend.get key world.map = none)
    (hmake : make.Ends (World.serve store.setting) world [] (.ok (value, answer))
      { world with desk := desk }) :
    Beholds laws position (store.getOrInsertWith key make) world
      (store.backend.puts [(key, value)] world.map) := by
  have hset : Beholds laws position (do
      let previous ← ask (.insert key value)
      (fun _ => (value, some answer)) <$> store.announce (.ofPut key previous value))
      { world with desk := desk } _ := beholds_set hlt (hfit.withDesk desk) rfl
  rw [← fill_eq] at hset
  exact .of_callback hfound rfl hmake hset

theorem beholds_getOrInsertWith {inner : List (Command K V (World S σ) β)}
    {make : Except Failure V} (hspared : store.KeepsToDesk
      ((Command.getOrInsertWith key inner make).called store.backend world.map) world) :
    Beholds laws position (store.getOrInsertWith key (store.callback inner make)) world
      ((Command.getOrInsertWith key inner make).reports store.backend world.map) := by
  simp only [Command.called] at hspared
  simp only [Command.reports]
  cases hfound : store.backend.get key world.map with
  | some existing => exact .of_ends [] (ends_getOrInsertWith_found hfound _) rfl hfit
  | none =>
      rw [hfound, if_neg (by simp)] at hspared
      obtain ⟨outcomes, desk, hcallback⟩ := hspared.ends_callback make
      cases make with
      | error failure =>
          exact .of_ends [] (ends_getOrInsertWith_raised hfound (hcallback _ rfl)) rfl
            (hfit.withDesk desk)
      | ok value => exact beholds_fill hlt hfit hfound (hcallback _ rfl)

theorem beholds_getOrInsert (key : K) (value : V) :
    Beholds laws position (store.getOrInsert key value) world
      ((Command.getOrInsert key value : Command K V ω β).reports store.backend world.map) := by
  rw [store.getOrInsert_eq key value ()]
  simp only [Command.reports]
  cases hfound : store.backend.get key world.map with
  | some existing => exact .map _ (.of_ends [] (ends_getOrInsertWith_found hfound _) rfl hfit)
  | none => exact .map _ (beholds_fill hlt hfit hfound (ends_pure (value, ())))

end

end

theorem ends_perform_aside (act : World S σ → β × World S σ) (world : World S σ) :
    (store.perform (.aside act)).Ends (World.serve store.setting) world []
      (.ok (.beside (act world).1)) (act world).2 := by
  rw [perform]
  exact ⟨rfl, rfl⟩

theorem keepsToDesk_of_mindsDesk {inner : List (Command K V (World S σ) β)}
    (h : ∀ command ∈ inner, command.MindsDesk) (world : World S σ) :
    store.KeepsToDesk inner world := by
  induction inner generalizing world with
  | nil =>
      rw [KeepsToDesk, performAll_nil]
      exact ⟨rfl, world.desk, rfl⟩
  | cons command rest ih =>
      rw [List.forall_mem_cons] at h
      cases command with
      | aside act =>
          obtain ⟨desk, hact⟩ := h.1 world
          have hends := store.ends_perform_aside act world
          rw [hact] at hends
          obtain ⟨hrun, hexchanges⟩ := performAll_of_ends hends rest
          rw [KeepsToDesk, hrun, hexchanges]
          exact ih h.2 _
      | _ => exact h.1.elim

theorem keepsToDesk_called {command : Command K V (World S σ) β} (h : command.Abstains)
    (world : World S σ) :
    store.KeepsToDesk (command.called store.backend world.map) world := by
  have hnone : store.KeepsToDesk ([] : List (Command K V (World S σ) β)) world :=
    keepsToDesk_of_mindsDesk (fun _ hmem => absurd hmem List.not_mem_nil) world
  cases command with
  | update key inner edit =>
      rw [Command.called]
      split
      · exact keepsToDesk_of_mindsDesk h world
      · exact hnone
  | getOrInsertWith key inner make =>
      rw [Command.called]
      split
      · exact hnone
      · exact keepsToDesk_of_mindsDesk h world
  | _ => exact hnone

section

variable [DecidableEq K] {laws : store.backend.Laws}
  (hlt : position < store.listeners.length) (hfit : Fit laws world)

include hlt hfit

theorem beholds_of_reads {command : Command K V (World S σ) β} (h : command.Reads)
    (reports : List (Report K V S)) :
    Beholds laws position (store.perform command) world reports := by
  have hends := (store.perform command).ends_exec (World.serve store.setting) world
  have hmute := Routine.Yields.forall_allowed hends.yields
    (store.returns_perform_of_reads leftByLooks_mute h)
  have hsteady := store.returns_perform_of_reads leftByReads_steady.toLeftByLooks h
  obtain ⟨hmap, hfiles⟩ := Routine.run_steady hsteady store.setting world
  refine .of_ends reports hends ((Tally.mute _ hmute).told position hlt) ⟨?_, ?_⟩
  · exact hmap ▸ hfit.valid
  · exact hfiles ▸ hfit.writable

theorem beholds_perform {command : Command K V (World S σ) β} (habstains : command.Abstains) :
    Beholds laws position (store.perform command) world
      (command.reports store.backend world.map) := by
  cases command with
  | insert key value =>
      rw [perform]
      exact (beholds_insert hlt hfit key value).map _
  | remove key =>
      rw [perform]
      exact (beholds_remove hlt hfit key).map _
  | clear =>
      rw [perform]
      exact (beholds_clear hlt hfit).map _
  | extend entries =>
      rw [perform]
      exact (beholds_extend hlt hfit entries).map _
  | update key inner edit =>
      rw [perform_update]
      exact (beholds_update hlt hfit (keepsToDesk_called habstains world)).map _
  | getOrInsert key value =>
      rw [perform]
      exact (beholds_getOrInsert hlt hfit key value).map _
  | getOrInsertWith key inner make =>
      rw [perform_getOrInsertWith]
      exact (beholds_getOrInsertWith hlt hfit (keepsToDesk_called habstains world)).map _
  | flush =>
      rw [perform]
      exact (beholds_flush hlt hfit).map _
  | aside act =>
      obtain ⟨desk, hact⟩ := habstains world
      have hends := store.ends_perform_aside act world
      rw [hact] at hends
      exact .of_ends [] hends rfl (hfit.withDesk desk)
  | _ =>
      refine beholds_of_reads hlt hfit ?_ []
      exact trivial

theorem fit_performAll {commands : List (Command K V (World S σ) β)}
    (habstain : ∀ command ∈ commands, command.Abstains) :
    Fit laws ((store.performAll commands).run (World.serve store.setting) world).2 := by
  induction commands generalizing world with
  | nil =>
      rw [performAll_nil]
      exact hfit
  | cons command rest ih =>
      rw [List.forall_mem_cons] at habstain
      rw [performAll_run_cons]
      exact ih (beholds_perform hlt hfit habstain.1).fit habstain.2

end

end Store

end SnapshotStore
