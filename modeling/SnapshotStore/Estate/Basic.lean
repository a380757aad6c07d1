import SnapshotStore.Builder
import SnapshotStore.Store.Flush

namespace SnapshotStore

open Nudge (Channel)

-- A handle that has been moved from has neither a store nor a worker.
structure Handle where
  store : Option Nat
  worker : Option Nat
  deriving DecidableEq

def Handle.create (store worker : Option Nat) : Except StoreError Handle :=
  match store with
  | some _ => .ok ⟨store, worker⟩
  | none => .error (.config .noStore)

-- An open store with its map, its channel and the lock of its saves.
structure Cell (K V S σ : Type) where
  store : Store K V S σ
  map : S
  channel : Channel := {}
  saving : Bool := false
  saves : Nat := 0

-- A worker and the store that it saves.
structure Post where
  worker : Worker
  store : Nat

-- All that has been opened, by positions that never change. A store outlives its handle, since
-- others may share it.
structure Estate (K V S σ : Type) where
  files : FileTree
  mishaps : Nat → Mishap
  desk : σ
  cells : List (Cell K V S σ) := []
  posts : List Post := []
  -- none for a handle that has been destroyed
  handles : List (Option Handle) := []

namespace Estate

variable {K V S σ α : Type}

def world (estate : Estate K V S σ) (cell : Cell K V S σ) : World S σ where
  files := estate.files
  channel := cell.channel
  mishaps := estate.mishaps
  desk := estate.desk
  map := cell.map
  saving := cell.saving
  saves := cell.saves

def absorb (estate : Estate K V S σ) (position : Nat) (cell : Cell K V S σ) (world : World S σ) :
    Estate K V S σ :=
  { estate with
    files := world.files
    mishaps := world.mishaps
    desk := world.desk
    cells := estate.cells.set position
      { cell with
        map := world.map
        channel := world.channel
        saving := world.saving
        saves := world.saves } }

-- Runs a routine on the store at a position.
def perform (estate : Estate K V S σ) (position : Nat) (routine : Routine K V (World S σ) α) :
    Option (α × Estate K V S σ) :=
  match estate.cells[position]? with
  | some cell =>
    let (answer, world) := routine.run (World.serve cell.store.setting) (estate.world cell)
    some (answer, estate.absorb position cell world)
  | none => none

-- Serves one request to the store at a position. No cell is ever taken away, so `cell`, the store
-- as it was at some time before, is never needed for one that is missing.
def serve (position : Nat) (cell : Cell K V S σ) (request : Request K V)
    (estate : Estate K V S σ) : request.Response × Estate K V S σ :=
  let current := estate.cells[position]?.getD cell
  let (response, world) := (estate.world current).serve current.store.setting request
  (response, estate.absorb position current world)

def setChannel (estate : Estate K V S σ) (position : Nat) (channel : Channel) : Estate K V S σ :=
  { estate with cells := estate.cells.modify position fun cell => { cell with channel := channel } }

def setWorker (estate : Estate K V S σ) (position : Nat) (worker : Worker) : Estate K V S σ :=
  { estate with posts := estate.posts.modify position fun post => { post with worker := worker } }

def channelOf (estate : Estate K V S σ) (position : Nat) : Channel :=
  match estate.cells[position]? with
  | some cell => cell.channel
  | none => {}

end Estate

end SnapshotStore
