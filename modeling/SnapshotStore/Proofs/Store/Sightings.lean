import SnapshotStore.Proofs.Store.Reports
import SnapshotStore.Proofs.Store.SaveEnds

namespace SnapshotStore

variable {K V S σ ω α β : Type} {setting : Setting K V S σ} {position : Nat}

-- An event with the map and the files at the moment when a listener is told of it.
structure Sighting (K V S : Type) where
  event : Event K V
  map : S
  files : FileTree

-- What a request shows to the listener at a position.
def Request.sightings (position : Nat) (request : Request K V) (world : World S σ) :
    List (Sighting K V S) :=
  match request with
  | .notify place event => if place = position then [⟨event, world.map, world.files⟩] else []
  | _ => []

-- What the listener at a position sees in the course of a routine that nobody else disturbs.
def Routine.sightings (setting : Setting K V S σ) (position : Nat) :
    Routine K V (World S σ) α → World S σ → List (Sighting K V S)
  | .done _, _ => []
  | .call request next, world => request.sightings position world ++
      (next (world.serve setting request).1).sightings setting position
        (world.serve setting request).2
  | .aside act next, world => (next (act world).1).sightings setting position (act world).2

namespace Routine

theorem sightings_bind (routine : Routine K V (World S σ) α)
    (next : α → Routine K V (World S σ) β) (world : World S σ) :
    (routine >>= next).sightings setting position world =
      routine.sightings setting position world ++
        (next (routine.run (World.serve setting) world).1).sightings setting position
          (routine.run (World.serve setting) world).2 := by
  change (routine.bind next).sightings setting position world = _
  induction routine generalizing world with
  | done answer => rfl
  | call request rest ih =>
      simp only [bind, sightings, run, List.append_assoc]
      exact congrArg _ (ih _ _)
  | aside act rest ih => exact ih _ _

-- There is one sighting for each event that the listener is told of.
theorem map_event_sightings (routine : Routine K V (World S σ) α) (world : World S σ) :
    (routine.sightings setting position world).map Sighting.event =
      told position (routine.exchanges (World.serve setting) world) := by
  induction routine generalizing world with
  | done answer => rfl
  | call request next ih =>
      rw [sightings, List.map_append, ih]
      cases request with
      | notify place event =>
          by_cases hplace : place = position
          · simp [Request.sightings, exchanges, told, hplace]
          · simp [Request.sightings, exchanges, told, hplace]
      | _ => rfl
  | aside act next ih => exact ih _ _

theorem sightings_eq_nil {routine : Routine K V (World S σ) α} {world : World S σ}
    (h : told position (routine.exchanges (World.serve setting) world) = []) :
    routine.sightings setting position world = [] := by
  rw [← map_event_sightings, List.map_eq_nil_iff] at h
  exact h

end Routine

-- The protocol of a single phase in which neither the map nor the files are changed.
def steady (K V : Type) : Protocol K V Unit where
  Allows _ request := request.SparesFiles ∧ ∀ response, Exchange.writes ⟨request, response⟩ = false
  AllowsAside _ := False
  after _ _ _ := ()

theorem Routine.run_steady {routine : Routine K V (World S σ) α}
    (h : routine.Returns (steady K V) ()) (setting : Setting K V S σ) (world : World S σ) :
    (routine.run (World.serve setting) world).2.map = world.map ∧
    (routine.run (World.serve setting) world).2.files = world.files := by
  induction routine generalizing world with
  | done answer => exact ⟨rfl, rfl⟩
  | call request next ih =>
      obtain ⟨hmap, hfiles⟩ := ih _ (h.2 _) (world.serve setting request).2
      exact ⟨hmap.trans (World.serve_map setting request world (h.1.2 _)),
        hfiles.trans (World.serve_files setting h.1.1 world)⟩
  | aside act next ih => exact h.1.elim

-- As long as nothing is changed, every sighting is of the same map and files.
theorem Routine.sightings_of_steady {routine : Routine K V (World S σ) α}
    (h : routine.Returns (steady K V) ()) (world : World S σ) :
    routine.sightings setting position world =
      (told position (routine.exchanges (World.serve setting) world)).map
        fun event => ⟨event, world.map, world.files⟩ := by
  induction routine generalizing world with
  | done answer => rfl
  | call request next ih =>
      have hmap := World.serve_map setting request world (h.1.2 _)
      have hfiles := World.serve_files setting h.1.1 world
      rw [sightings, ih _ (h.2 _), hmap, hfiles]
      cases request with
      | notify place event =>
          by_cases hplace : place = position
          · simp [Request.sightings, exchanges, told, hplace]
          · simp [Request.sightings, exchanges, told, hplace]
      | _ => rfl
  | aside act next ih => exact h.1.elim

namespace Action

-- What the listener at a position sees in the course of an action.
def sightings (setting : Setting K V S σ) (position : Nat) (action : Action K V (World S σ) α)
    (world : World S σ) : List (Sighting K V S) :=
  action.run.sightings setting position world

variable {action : Action K V (World S σ) α} {next : α → Action K V (World S σ) β}
  {world middle : World S σ}

theorem sightings_bind {answer : α}
    (h : action.exec (World.serve setting) world = (.ok answer, middle)) :
    (action >>= next).sightings setting position world =
      action.sightings setting position world ++
        (next answer).sightings setting position middle := by
  have hrun : action.run.run (World.serve setting) world = (.ok answer, middle) := h
  unfold sightings
  rw [ExceptT.run_bind, Routine.sightings_bind, hrun]

theorem sightings_bind_error {failure : Failure}
    (h : action.exec (World.serve setting) world = (.error failure, middle)) :
    (action >>= next).sightings setting position world =
      action.sightings setting position world := by
  have hrun : action.run.run (World.serve setting) world = (.error failure, middle) := h
  unfold sightings
  rw [ExceptT.run_bind, Routine.sightings_bind, hrun]
  exact List.append_nil _

theorem sightings_map (f : α → β) (action : Action K V (World S σ) α) (world : World S σ) :
    (f <$> action).sightings setting position world = action.sightings setting position world := by
  rw [map_eq_pure_bind]
  rcases hexec : action.exec (World.serve setting) world with ⟨failure | answer, middle⟩
  · exact sightings_bind_error hexec
  · exact (sightings_bind hexec).trans (List.append_nil _)

-- What comes before the first event shows nothing.
theorem sightings_bind_of_told {answer : α}
    (h : action.exec (World.serve setting) world = (.ok answer, middle))
    (htold : told position (action.run.exchanges (World.serve setting) world) = []) :
    (action >>= next).sightings setting position world =
      (next answer).sightings setting position middle := by
  rw [sightings_bind h, sightings, Routine.sightings_eq_nil htold, List.nil_append]

end Action

namespace Store

open SnapshotStore.Action

variable {store : Store K V S σ} {world : World S σ}

theorem leftByReads_steady : LeftByReads (steady K V) () where
  get _ := ⟨⟨trivial, fun _ => rfl⟩, fun _ => rfl⟩
  contains _ := ⟨⟨trivial, fun _ => rfl⟩, fun _ => rfl⟩
  count _ := ⟨⟨trivial, fun _ => rfl⟩, fun _ => rfl⟩
  copy _ := ⟨⟨trivial, fun _ => rfl⟩, fun _ => rfl⟩
  notify _ _ := ⟨⟨trivial, fun _ => rfl⟩, fun _ => rfl⟩

-- A listener that is told of an event sees the store as it is when all of them are told of it.
theorem sightings_tell (hlt : position < store.listeners.length) (event : Event K V)
    (world : World S σ) : ∃ outcome desk,
      (store.tell event).exec (World.serve store.setting) world =
        (outcome, { world with desk := desk }) ∧
      ((store.tell event).sightings store.setting position world =
          [⟨event, world.map, world.files⟩] ∨
        (∃ failure, outcome = .error failure) ∧
          (store.tell event).sightings store.setting position world = []) := by
  have hseen := @Routine.sightings_of_steady _ _ _ _ _ store.setting position _
    (store.returns_tell leftByReads_steady event) world
  rcases store.tell_cases event world with
    ⟨desk, hends⟩ | ⟨last, hlast, failure, desk, hends⟩
  · refine ⟨.ok (), desk, hends.exec, .inl ?_⟩
    rw [hends.exchanges, told_notices hlt] at hseen
    exact hseen
  · refine ⟨.error failure, desk, hends.exec, ?_⟩
    have htold := told_noticesUpTo position last event failure
    rw [hends.exchanges, show noticesAt _ event ++ _ = noticesUpTo last event failure from rfl,
      htold] at hseen
    by_cases hle : position ≤ last
    · rw [if_pos hle] at hseen
      exact .inl hseen
    · rw [if_neg hle] at hseen
      exact .inr ⟨⟨failure, rfl⟩, hseen⟩

section

variable {β : Type}

theorem performAll_sightings_cons (command : Command K V (World S σ) β)
    (rest : List (Command K V (World S σ) β)) (world : World S σ) :
    (store.performAll (command :: rest)).sightings store.setting position world =
      (store.perform command).sightings store.setting position world ++
        (store.performAll rest).sightings store.setting position
          ((store.perform command).exec (World.serve store.setting) world).2 := by
  rw [performAll_cons, Routine.sightings_bind, map_eq_pure_bind, Routine.sightings_bind]
  exact congrArg (_ ++ ·) (List.append_nil _)

theorem performAll_sightings_append (earlier later : List (Command K V (World S σ) β))
    (world : World S σ) :
    (store.performAll (earlier ++ later)).sightings store.setting position world =
      (store.performAll earlier).sightings store.setting position world ++
        (store.performAll later).sightings store.setting position
          ((store.performAll earlier).run (World.serve store.setting) world).2 := by
  induction earlier generalizing world with
  | nil =>
      rw [performAll_nil]
      rfl
  | cons command rest ih =>
      rw [List.cons_append, performAll_sightings_cons, performAll_sightings_cons, ih,
        performAll_run_cons, List.append_assoc]

end

end Store

end SnapshotStore
