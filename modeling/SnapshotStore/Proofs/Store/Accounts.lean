import SnapshotStore.Proofs.Store.Callbacks
import SnapshotStore.Proofs.Store.Reports

namespace SnapshotStore

variable {K V S σ ω α β : Type}

-- The changes that a command reports, one after the other, if its callback leaves the map alone.
def Command.reports (backend : Backend K V S) : Command K V ω β → S → List (Report K V S)
  | .insert key value, map => backend.puts [(key, value)] map
  | .remove key, map =>
    match (backend.remove key map).1 with
    | some _ => [⟨.remove key, (backend.remove key map).2⟩]
    | none => []
  | .clear, map => [⟨.clear, backend.clear map⟩]
  | .extend batch, map => backend.puts batch map
  | .update key _ edit, map =>
    match backend.get key map with
    | some current =>
      match edit current with
      | .ok value => [⟨.update key current value, (backend.insert key value map).2⟩]
      | .error _ => []
    | none => []
  | .getOrInsert key value, map =>
    match backend.get key map with
    | some _ => []
    | none => backend.puts [(key, value)] map
  | .getOrInsertWith key _ make, map =>
    match backend.get key map, make with
    | none, .ok value => backend.puts [(key, value)] map
    | _, _ => []
  | _, _ => []

-- To remove an unbound key is no change.
theorem Backend.bindings_remove_unbound [DecidableEq K] {backend : Backend K V S}
    (laws : backend.Laws) {map : S} (hvalid : laws.Valid map) {key : K}
    (hremoved : (backend.remove key map).1 = none) :
    backend.bindings (backend.remove key map).2 = backend.bindings map := by
  have hunbound : backend.bindings map key = none :=
    (laws.remove_fst key hvalid).symm.trans hremoved
  rw [Backend.bindings_remove laws hvalid, Function.update_eq_self_iff]
  exact hunbound.symm

namespace Store

open SnapshotStore.Action

variable {store : Store K V S σ} {world middle : World S σ} {key : K} {value : V}

theorem extend_cons (entry : K × V) (rest : List (K × V)) :
    (store.extend (entry :: rest) : Action K V ω Unit) = (do
      let previous ← ask (.insert entry.1 entry.2)
      store.tell (.ofPut entry.1 previous entry.2)
      store.extend rest) := by
  simp only [extend, putAll, put, bind_assoc, pure_bind]

theorem ends_wipes (world : World S σ) : ∃ exchanges,
    (∀ exchange ∈ exchanges, exchange.request.IsMute) ∧
    (ofRoutine (Memory.clear store.backend)).Ends (World.serve store.setting) world exchanges
      (.ok ()) { world with map := store.backend.clear world.map } := by
  have hclear := ends_ofRoutine (World.serve store.setting) (Memory.clear store.backend) world
  have hmute := Routine.Yields.forall_allowed hclear.yields
    (returns_ofRoutine (Memory.mute_clear store.backend))
  have hrun : (Memory.clear store.backend).run (World.serve store.setting) world = _ :=
    Memory.run_clear store.setting world
  rw [hrun] at hclear
  exact ⟨_, hmute, hclear⟩

theorem accounts_settle_pure (answer : α) (world : World S σ) :
    store.Accounts (do store.settle; pure answer) world [] := by
  have hsettle : store.Accounts ((fun _ => answer) <$> store.settle) world [] :=
    (accounts_settle world).map _
  rwa [map_eq_pure_bind] at hsettle

theorem Sets.accounts {action : Action K V (World S σ) α} {event : Event K V} {answer : α}
    (h : store.Sets action world key value event answer) :
    store.Accounts action world [⟨event, (store.backend.insert key value world.map).2⟩] := by
  refine .of_change (fun own outcome after hends => ?_)
    (Exchange.mute_insert key value (store.backend.insert key value world.map).1)
    (fun desk => accounts_settle_pure answer _)
  have hannounce := ((store.announce event).ends_exec (World.serve store.setting)
    { world with map := (store.backend.insert key value world.map).2 }).map fun _ => answer
  rw [announce, map_eq_pure_bind, bind_assoc] at hannounce
  obtain ⟨rfl, rfl, rfl⟩ := hends.unique hannounce
  exact h.ends

theorem accounts_extend (entries : List (K × V)) (world : World S σ) :
    store.Accounts (store.extend entries) world (store.backend.puts entries world.map) := by
  induction entries generalizing world with
  | nil => exact accounts_settle world
  | cons entry rest ih =>
      rw [extend_cons]
      exact .of_change (fun own outcome after hends => ends_ask_bind hends)
        (Exchange.mute_insert entry.1 entry.2 _) fun desk => ih _

theorem accounts_remove [DecidableEq K] (laws : store.backend.Laws)
    (hvalid : laws.Valid world.map) (key : K) :
    store.Accounts (store.remove key) world
      ((Command.remove key : Command K V ω β).reports store.backend world.map) := by
  simp only [Command.reports]
  cases hremoved : (store.backend.remove key world.map).1 with
  | none =>
      have hreported : store.Reported world [] _
          { world with map := (store.backend.remove key world.map).2 } :=
        .mute rfl (Backend.bindings_remove_unbound laws hvalid hremoved)
          (Exchange.mute_remove key none)
      refine .of_reported (fun own outcome after hends => ?_) hreported
        (accounts_settle_pure none _)
      exact ends_answered_bind hremoved hends
  | some value =>
      refine .of_change (fun own outcome after hends => ?_) (Exchange.mute_remove key (some value))
        fun desk => accounts_settle_pure (some value) _
      exact ends_answered_bind hremoved hends

theorem accounts_clear (world : World S σ) :
    store.Accounts store.clear world [⟨.clear, store.backend.clear world.map⟩] := by
  obtain ⟨exchanges, hmute, hclear⟩ := ends_wipes world
  exact .of_change (fun own outcome after hends => hclear.bind hends) hmute
    fun desk => accounts_settle _

-- Commands that ask the store for nothing, and if they change something, it is on the desk.
def KeepsToDesk (store : Store K V S σ) (commands : List (Command K V (World S σ) β))
    (world : World S σ) : Prop :=
  (store.performAll commands).exchanges (World.serve store.setting) world = [] ∧
  ∃ desk, ((store.performAll commands).run (World.serve store.setting) world).2 =
    { world with desk := desk }

section

variable {inner : List (Command K V (World S σ) β)}

theorem KeepsToDesk.ends_callback (h : store.KeepsToDesk inner world) (made : Except Failure V) :
    ∃ outcomes desk, ∀ result, made = result → (store.callback inner made).Ends
      (World.serve store.setting) world [] (result.map fun value => (value, outcomes))
      { world with desk := desk } := by
  obtain ⟨hnested, desk, hmiddle⟩ := h
  have hends := store.ends_callback inner made world
  rw [hnested, hmiddle] at hends
  refine ⟨((store.performAll inner).run (World.serve store.setting) world).1, desk, ?_⟩
  rintro result rfl
  exact hends

theorem reported_get (key : K) (found : Option V) (desk : σ) :
    store.Reported world [] [⟨.get key, found⟩] { world with desk := desk } :=
  .mute rfl rfl (Exchange.mute_get key found)

theorem accounts_update {edit : V → Except Failure V} (hspared : store.KeepsToDesk
      ((Command.update key inner edit).called store.backend world.map) world) :
    store.Accounts (store.update key fun current => store.callback inner (edit current)) world
      ((Command.update key inner edit).reports store.backend world.map) := by
  simp only [Command.called] at hspared
  simp only [Command.reports]
  cases hfound : store.backend.get key world.map with
  | none => exact .of_mute (ends_update_missing _ hfound) (Exchange.mute_get key none)
  | some current =>
      rw [hfound, if_pos Option.isSome_some] at hspared
      obtain ⟨outcomes, desk, hcallback⟩ := hspared.ends_callback (edit current)
      dsimp only
      cases hedit : edit current with
      | error failure =>
          exact .of_mute (ends_update_raised (fun current => store.callback inner (edit current))
            hfound (hcallback _ hedit)) (Exchange.mute_get key _)
      | ok value =>
          obtain ⟨rest, hsets, hupdate⟩ := exists_sets_update
            (fun current => store.callback inner (edit current)) hfound (hcallback _ hedit)
          exact .of_reported hupdate (reported_get key _ _) hsets.accounts

theorem accounts_getOrInsertWith {make : Except Failure V} (hspared : store.KeepsToDesk
      ((Command.getOrInsertWith key inner make).called store.backend world.map) world) :
    store.Accounts (store.getOrInsertWith key (store.callback inner make)) world
      ((Command.getOrInsertWith key inner make).reports store.backend world.map) := by
  simp only [Command.called] at hspared
  simp only [Command.reports]
  cases hfound : store.backend.get key world.map with
  | some existing => exact .of_mute (ends_getOrInsertWith_found hfound _) (Exchange.mute_get key _)
  | none =>
      rw [hfound, if_neg (by simp)] at hspared
      obtain ⟨outcomes, desk, hcallback⟩ := hspared.ends_callback make
      cases make with
      | error failure =>
          exact .of_mute (ends_getOrInsertWith_raised hfound (hcallback _ rfl))
            (Exchange.mute_get key _)
      | ok value =>
          obtain ⟨rest, hsets, hfill⟩ := exists_sets_getOrInsertWith hfound (hcallback _ rfl)
          exact .of_reported hfill (reported_get key _ _) hsets.accounts

end

theorem accounts_insert (key : K) (value : V) (world : World S σ) :
    store.Accounts (store.insert key value) world (store.backend.puts [(key, value)] world.map) :=
  (store.sets_insert key value world).accounts

theorem accounts_getOrInsert (key : K) (value : V) (world : World S σ) :
    store.Accounts (store.getOrInsert key value) world
      ((Command.getOrInsert key value : Command K V ω β).reports store.backend world.map) := by
  rw [store.getOrInsert_eq key value ()]
  have hmake : (pure (value, ()) : Action K V (World S σ) (V × Unit)).Ends
    (World.serve store.setting) world [] (.ok (value, ())) world := ends_pure _
  simp only [Command.reports]
  cases hfound : store.backend.get key world.map with
  | some existing =>
      exact (Accounts.of_mute (ends_getOrInsertWith_found hfound _)
        (Exchange.mute_get key _)).map Prod.fst
  | none =>
      obtain ⟨rest, hsets, hfill⟩ := exists_sets_getOrInsertWith hfound hmake
      exact (Accounts.of_reported hfill (reported_get key _ _) hsets.accounts).map Prod.fst

theorem accounts_of_returns {action : Action K V (World S σ) α}
    (h : action.Returns (mute K V) ()) (world : World S σ) : store.Accounts action world [] :=
  have hends := action.ends_exec (World.serve store.setting) world
  .of_mute hends (Routine.Yields.forall_allowed hends.yields h)

theorem accounts_perform [DecidableEq K] (laws : store.backend.Laws)
    (hvalid : laws.Valid world.map) (command : Command K V (World S σ) β)
    (hspared : store.KeepsToDesk (command.called store.backend world.map) world) :
    store.Accounts (store.perform command) world (command.reports store.backend world.map) := by
  cases command with
  | insert key value =>
      rw [perform]
      exact (accounts_insert key value world).map _
  | remove key =>
      rw [perform]
      exact (accounts_remove laws hvalid key).map _
  | clear =>
      rw [perform]
      exact (accounts_clear world).map _
  | extend entries =>
      rw [perform]
      exact (accounts_extend entries world).map _
  | update key inner edit =>
      rw [perform_update]
      exact (accounts_update hspared).map _
  | getOrInsert key value =>
      rw [perform]
      exact (accounts_getOrInsert key value world).map _
  | getOrInsertWith key inner make =>
      rw [perform_getOrInsertWith]
      exact (accounts_getOrInsertWith hspared).map _
  | flush =>
      rw [perform]
      exact (accounts_flush world).map _
  | aside act =>
      rw [perform]
      have haside : (Action.aside act : Action K V (World S σ) β).Returns (mute K V) () :=
        ⟨trivial, fun _ => rfl⟩
      exact (accounts_of_returns haside world).map _
  | _ =>
      refine accounts_of_returns (store.returns_perform_of_reads leftByLooks_mute ?_) world
      exact trivial

section

variable [DecidableEq K] {backend : Backend K V S} (laws : backend.Laws) {map : S}
  (hvalid : laws.Valid map)

include hvalid

theorem tell_puts (entries : List (K × V)) :
    Report.Tell backend (backend.puts entries map) map := by
  induction entries generalizing map with
  | nil => trivial
  | cons entry rest ih =>
      refine ⟨Event.isMutation_ofPut _ _ _, ?_, ih (laws.valid_insert entry.1 entry.2 hvalid)⟩
      rw [Event.replay_ofPut]
      exact Backend.bindings_insert laws hvalid entry.1 entry.2

theorem tell_reports (command : Command K V ω β) :
    Report.Tell backend (command.reports backend map) map := by
  have hremove (key : K) : Report.Tell backend
      [⟨.remove key, (backend.remove key map).2⟩] map :=
    ⟨rfl, Backend.bindings_remove laws hvalid key, trivial⟩
  have hupdate (key : K) (current value : V) : Report.Tell backend
      [⟨.update key current value, (backend.insert key value map).2⟩] map :=
    ⟨rfl, Backend.bindings_insert laws hvalid key value, trivial⟩
  have hclear : Report.Tell backend [⟨.clear, backend.clear map⟩] map :=
    ⟨rfl, Backend.bindings_clear laws hvalid, trivial⟩
  cases command with
  | insert key value => exact tell_puts laws hvalid _
  | extend entries => exact tell_puts laws hvalid entries
  | clear => exact hclear
  | remove key =>
      simp only [Command.reports]
      cases (backend.remove key map).1 with
      | none => trivial
      | some value => exact hremove key
  | update key inner edit =>
      simp only [Command.reports]
      cases backend.get key map with
      | none => trivial
      | some current =>
          dsimp only
          cases edit current with
          | error failure => trivial
          | ok value => exact hupdate key current value
  | getOrInsert key value =>
      simp only [Command.reports]
      cases backend.get key map with
      | none => exact tell_puts laws hvalid _
      | some existing => trivial
  | getOrInsertWith key inner make =>
      simp only [Command.reports]
      cases backend.get key map with
      | some existing => trivial
      | none =>
          cases make with
          | error failure => trivial
          | ok value => exact tell_puts laws hvalid _
  | _ => trivial

end

end Store

end SnapshotStore
