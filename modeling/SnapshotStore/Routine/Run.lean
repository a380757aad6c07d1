import SnapshotStore.Backend.Basic
import SnapshotStore.FileTree.Operations
import SnapshotStore.Listener.Basic
import SnapshotStore.Routine.Basic
import SnapshotStore.Routine.Surroundings
import SnapshotStore.Serializer.Basic

namespace SnapshotStore

abbrev Server (K V ω : Type) := (request : Request K V) → ω → request.Response × ω

-- What serves the requests of one store.
structure Setting (K V S σ : Type) where
  backend : Backend K V S
  serializer : Serializer K V
  listeners : List (Listener K V σ)

structure World (S σ : Type) extends Surroundings σ where
  map : S
  -- whether a save holds the lock
  saving : Bool := false
  -- the saves that have ended
  saves : Nat := 0

namespace World

variable {K V S σ : Type}

def mishap (world : World S σ) : Mishap :=
  world.mishaps world.saves

-- A change of the files that may be refused.
def change (world : World S σ) (outcome : Except Errno FileTree) : Except Errno Unit × World S σ :=
  match outcome with
  | .ok files => (.ok (), { world with files := files })
  | .error reason => (.error reason, world)

def serialize (setting : Setting K V S σ) (entries : List (K × V)) (world : World S σ) :
    Except Failure Bytes :=
  match world.mishap with
  | .encoding failure => .error failure
  | _ => setting.serializer.serialize entries

def create (path : Path) (world : World S σ) : Except Errno Location × World S σ :=
  match world.mishap with
  | .opening reason => (.error reason, world)
  | _ =>
    match world.files.create path with
    | .ok (location, files) => (.ok location, { world with files := files })
    | .error reason => (.error reason, world)

def append (location : Location) (bytes : Bytes) (world : World S σ) :
    Except Errno Unit × World S σ :=
  match world.mishap with
  | .writing written reason =>
    (.error reason, (world.change (world.files.append location (bytes.take written))).2)
  | _ => world.change (world.files.append location bytes)

def sync (world : World S σ) : Except Errno Unit :=
  match world.mishap with
  | .syncing reason => .error reason
  | _ => .ok ()

def rename (source target : Path) (world : World S σ) : Except Errno Unit × World S σ :=
  match world.mishap with
  | .renaming reason => (.error reason, world)
  | _ => world.change (world.files.rename source target)

def notify (setting : Setting K V S σ) (position : Nat) (event : Event K V) (world : World S σ) :
    Except Failure Unit × World S σ :=
  match setting.listeners[position]? with
  | some listener =>
    let sight := ⟨.mk fun _ => setting.backend.snapshot world.map, world.files⟩
    let (outcome, desk) := listener.notify event sight world.desk
    (outcome, { world with desk := desk })
  | none => (.ok (), world)

def contains (setting : Setting K V S σ) (key : K) (world : World S σ) : Bool :=
  setting.backend.contains key world.map

def count (setting : Setting K V S σ) (segment : Nat) (world : World S σ) : Nat :=
  match setting.backend.bulk with
  | some bulk => bulk.count segment world.map
  | none => (setting.backend.copy segment world.map).length

def wipe (setting : Setting K V S σ) (segment : Nat) (world : World S σ) : World S σ :=
  match setting.backend.bulk with
  | some bulk => { world with map := bulk.wipe segment world.map }
  | none => world

def serve (setting : Setting K V S σ) (request : Request K V) (world : World S σ) :
    request.Response × World S σ :=
  match request with
  | .insert key value =>
    let (previous, map) := setting.backend.insert key value world.map
    (previous, { world with map := map })
  | .get key => (setting.backend.get key world.map, world)
  | .remove key =>
    let (removed, map) := setting.backend.remove key world.map
    (removed, { world with map := map })
  | .contains key => (world.contains setting key, world)
  | .copy segment => (setting.backend.copy segment world.map, world)
  | .count segment => (world.count setting segment, world)
  | .wipe segment => ((), world.wipe setting segment)
  | .acquire => ((), { world with saving := true })
  | .release => ((), { world with saving := false, saves := world.saves + 1 })
  | .serialize entries => (world.serialize setting entries, world)
  | .create path => world.create path
  | .append location bytes => world.append location bytes
  | .sync _ => (world.sync, world)
  | .rename source target => world.rename source target
  | .discard path => ((), { world with files := world.files.discard path })
  | .notify position event => world.notify setting position event
  | .nudge =>
    let (accepted, channel) := world.channel.trySend
    (accepted, { world with channel := channel })

end World

namespace Routine

variable {K V ω α β : Type}

def run (serve : Server K V ω) (routine : Routine K V ω α) (whole : ω) : α × ω :=
  match routine with
  | .done answer => (answer, whole)
  | .call request next =>
    let (response, whole) := serve request whole
    (next response).run serve whole
  | .aside act next =>
    let (answer, whole) := act whole
    (next answer).run serve whole

theorem run_pure (serve : Server K V ω) (answer : α) (whole : ω) :
    (pure answer : Routine K V ω α).run serve whole = (answer, whole) := rfl

theorem run_bind (serve : Server K V ω) (routine : Routine K V ω α) (next : α → Routine K V ω β)
    (whole : ω) :
    (routine >>= next).run serve whole =
      (next (routine.run serve whole).1).run serve (routine.run serve whole).2 := by
  change (routine.bind next).run serve whole = _
  induction routine generalizing whole with
  | done answer => rfl
  | call request rest ih =>
    simp only [bind, run]
    exact ih _ _
  | aside act rest ih =>
    simp only [bind, run]
    exact ih _ _

theorem run_ask (serve : Server K V ω) (request : Request K V) (whole : ω) :
    (Routine.ask request).run serve whole = serve request whole := rfl

end Routine

namespace Action

variable {K V S σ ω α β : Type}

-- What an action does when nobody else is there, and how it ends.
def exec (serve : Server K V ω) (action : Action K V ω α) (whole : ω) : Except Failure α × ω :=
  action.run.run serve whole

theorem exec_ofExcept (serve : Server K V ω) (outcome : Except Failure α) (whole : ω) :
    (ofExcept outcome).exec serve whole = (outcome, whole) := rfl

theorem exec_ofRoutine (serve : Server K V ω) (routine : Routine K V ω α) (whole : ω) :
    (ofRoutine routine).exec serve whole =
      (.ok (routine.run serve whole).1, (routine.run serve whole).2) :=
  Routine.run_bind serve routine _ whole

theorem exec_ask (serve : Server K V ω) (request : Request K V) (whole : ω) :
    (ask request).exec serve whole =
      (.ok (serve request whole).1, (serve request whole).2) := rfl

theorem exec_aside (serve : Server K V ω) (act : ω → α × ω) (whole : ω) :
    (aside act : Action K V ω α).exec serve whole = (.ok (act whole).1, (act whole).2) := rfl

-- A failure keeps the rest from being run.
theorem exec_bind (serve : Server K V ω) (action : Action K V ω α) (next : α → Action K V ω β)
    (whole : ω) :
    (action >>= next).exec serve whole =
      match action.exec serve whole with
      | (.ok answer, whole) => (next answer).exec serve whole
      | (.error failure, whole) => (.error failure, whole) := by
  unfold exec
  rw [ExceptT.run_bind, Routine.run_bind]
  generalize action.run.run serve whole = result
  obtain ⟨outcome, whole⟩ := result
  cases outcome <;> rfl

theorem exec_exclusively (setting : Setting K V S σ) (action : Action K V (World S σ) α)
    (world : World S σ) :
    (exclusively action).exec (World.serve setting) world =
      (let (outcome, world) := action.exec (World.serve setting) { world with saving := true }
      (outcome, { world with saving := false, saves := world.saves + 1 })) := by
  unfold exec exclusively
  simp only [ExceptT.run_mk, Routine.run_bind, Routine.run_pure]
  rfl

end Action

end SnapshotStore
