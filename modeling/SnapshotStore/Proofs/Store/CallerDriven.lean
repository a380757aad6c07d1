import SnapshotStore.Proofs.Routine.Files
import SnapshotStore.Proofs.Store.Parts
import SnapshotStore.Store.Command

namespace SnapshotStore

variable {K V S σ ω α β ρ : Type}

def Request.SparesFiles : Request K V → Prop
  | .create _ => False
  | .append _ _ => False
  | .rename _ _ => False
  | .discard _ => False
  | _ => True

-- The protocol of a single phase that allows no other requests.
def sparing (K V : Type) : Protocol K V Unit where
  Allows _ := Request.SparesFiles
  AllowsAside _ := False
  after _ _ _ := ()

theorem World.serve_files (setting : Setting K V S σ) {request : Request K V}
    (h : request.SparesFiles) (world : World S σ) :
    (world.serve setting request).2.files = world.files := by
  have hserves := World.serves setting request world
  cases request <;> first | exact h.elim | exact hserves

abbrev Action.SparesFiles (action : Action K V ω α) : Prop :=
  action.Returns (sparing K V) ()

theorem Routine.run_files {routine : Routine K V (World S σ) α}
    (h : routine.Returns (sparing K V) ()) (setting : Setting K V S σ) (world : World S σ) :
    (routine.run (World.serve setting) world).2.files = world.files := by
  induction routine generalizing world with
  | done answer => rfl
  | call request next ih =>
      rw [← World.serve_files setting h.1 world]
      exact ih _ (h.2 _) _
  | aside act next ih => exact h.1.elim

namespace Action

variable (setting : Setting K V S σ) (world : World S σ)

theorem SparesFiles.exec_files {action : Action K V (World S σ) α} (h : action.SparesFiles) :
    (action.exec (World.serve setting) world).2.files = world.files :=
  Routine.run_files h setting world

-- What follows changes no files, so they are as the first part leaves them.
theorem exec_bind_files (action : Action K V (World S σ) α) {next : α → Action K V (World S σ) β}
    (h : ∀ answer, (next answer).SparesFiles) :
    ((action >>= next).exec (World.serve setting) world).2.files =
      (action.exec (World.serve setting) world).2.files := by
  rw [exec_bind]
  generalize action.exec (World.serve setting) world = result
  obtain ⟨failure | answer, after⟩ := result
  · rfl
  · exact (h answer).exec_files setting after

theorem exec_map_files (f : α → β) (action : Action K V (World S σ) α) :
    ((f <$> action).exec (World.serve setting) world).2.files =
      (action.exec (World.serve setting) world).2.files := by
  rw [map_eq_pure_bind]
  exact exec_bind_files setting world action fun _ => returns_pure _

-- A callback does to the files what the commands do that it runs.
theorem exec_callback_files (inner : Routine K V (World S σ) α) (made : Except Failure β) :
    ((do
      let answer ← ofRoutine inner
      let value ← ofExcept made
      pure (value, answer)).exec (World.serve setting) world).2.files =
      (inner.run (World.serve setting) world).2.files := by
  rw [exec_bind_files, exec_ofRoutine]
  exact fun _ => returns_bind (returns_ofExcept _) fun _ => returns_pure _

end Action

-- The commands that come to be run by a command's callback, on a map.
def Command.called (backend : Backend K V S) (map : S) : Command K V ω β → List (Command K V ω β)
  | .update key inner _ => if (backend.get key map).isSome then inner else []
  | .getOrInsertWith key inner _ => if (backend.get key map).isSome then [] else inner
  | _ => []

def Command.Changes : Command K V ω β → Prop
  | .insert _ _ => True
  | .remove _ => True
  | .clear => True
  | .extend _ => True
  | .update _ _ _ => True
  | .getOrInsert _ _ => True
  | .getOrInsertWith _ _ _ => True
  | _ => False

namespace Store

open SnapshotStore.Action

theorem leftByWrites_sparing (segments : Nat) : LeftByWrites segments (sparing K V) () where
  get _ := ⟨trivial, fun _ => rfl⟩
  contains _ := ⟨trivial, fun _ => rfl⟩
  count _ := ⟨trivial, fun _ => rfl⟩
  copy _ := ⟨trivial, fun _ => rfl⟩
  notify _ _ := ⟨trivial, fun _ => rfl⟩
  insert _ _ := ⟨trivial, fun _ => rfl⟩
  remove _ := ⟨trivial, fun _ => rfl⟩
  wipe _ _ := ⟨trivial, fun _ => rfl⟩

variable {store : Store K V S σ}

theorem sparesFiles_settle (hpolicy : store.policy = .callerDriven) :
    (store.settle : Action K V ω Unit).SparesFiles := by
  unfold settle
  rw [hpolicy]
  exact returns_pure _

theorem exec_get_bind (key : K) (next : Option V → Action K V (World S σ) α) (world : World S σ) :
    (ask (.get key) >>= next).exec (World.serve store.setting) world =
      (next (store.backend.get key world.map)).exec (World.serve store.setting) world := by
  rw [exec_bind, exec_ask]
  rfl

variable (hsettle : (store.settle : Action K V (World S σ) Unit).SparesFiles) (world : World S σ)

include hsettle

theorem exec_update_files (key : K) (mutate : V → Action K V (World S σ) (V × ρ)) :
    ((store.update key mutate).exec (World.serve store.setting) world).2.files =
      match store.backend.get key world.map with
      | none => world.files
      | some current => ((mutate current).exec (World.serve store.setting) world).2.files := by
  have hwrites := leftByWrites_sparing (K := K) (V := V) store.backend.segments
  rw [update, exec_get_bind]
  cases store.backend.get key world.map with
  | none => rfl
  | some current =>
      exact exec_bind_files _ _ _ fun made =>
        returns_replace hwrites hsettle key current made.1 made.2

theorem exec_getOrInsertWith_files (key : K) (make : Action K V (World S σ) (V × ρ)) :
    ((store.getOrInsertWith key make).exec (World.serve store.setting) world).2.files =
      match store.backend.get key world.map with
      | none => (make.exec (World.serve store.setting) world).2.files
      | some _ => world.files := by
  have hwrites := leftByWrites_sparing (K := K) (V := V) store.backend.segments
  rw [getOrInsertWith, exec_get_bind]
  cases store.backend.get key world.map with
  | none => exact exec_bind_files _ _ _ fun made => returns_fill hwrites hsettle key made.1 _
  | some existing => rfl

omit hsettle

theorem exec_files_of_callerDriven (hpolicy : store.policy = .callerDriven)
    {command : Command K V (World S σ) β} (hchanges : command.Changes) (world : World S σ) :
    ((store.perform command).exec (World.serve store.setting) world).2.files =
      ((store.performAll (command.called store.backend world.map)).run
        (World.serve store.setting) world).2.files := by
  have hwrites := leftByWrites_sparing (K := K) (V := V) store.backend.segments
  have hsettle : (store.settle : Action K V (World S σ) Unit).SparesFiles :=
    sparesFiles_settle hpolicy
  cases command with
  | insert key value =>
      rw [perform, exec_map_files]
      exact SparesFiles.exec_files _ _ (returns_insert hwrites hsettle key value)
  | remove key =>
      rw [perform, exec_map_files]
      exact SparesFiles.exec_files _ _ (returns_remove hwrites hsettle key)
  | clear =>
      rw [perform, exec_map_files]
      exact SparesFiles.exec_files _ _ (returns_clear hwrites hsettle)
  | extend entries =>
      rw [perform, exec_map_files]
      exact SparesFiles.exec_files _ _ (returns_extend hwrites hsettle entries)
  | update key inner edit =>
      rw [perform, exec_map_files, exec_update_files hsettle, Command.called]
      cases store.backend.get key world.map with
      | none => rfl
      | some current => exact exec_callback_files _ _ _ (edit current)
  | getOrInsert key value =>
      rw [perform, exec_map_files]
      exact SparesFiles.exec_files _ _ (returns_getOrInsert hwrites hsettle key value)
  | getOrInsertWith key inner make =>
      rw [perform, exec_map_files, exec_getOrInsertWith_files hsettle, Command.called]
      cases store.backend.get key world.map with
      | none => exact exec_callback_files _ _ _ make
      | some existing => rfl
  | _ => exact hchanges.elim

end Store

end SnapshotStore
