import SnapshotStore.Estate.Turn

namespace SnapshotStore.Estate

variable {K V S σ : Type}

def setHandle (estate : Estate K V S σ) (position : Nat) (handle : Option Handle) :
    Estate K V S σ :=
  { estate with handles := estate.handles.set position handle }

def handle? (estate : Estate K V S σ) (position : Nat) : Option Handle :=
  (estate.handles[position]?).join

-- Adds what has been opened together with its handle.
def adopt (estate : Estate K V S σ) (opened : Opened K V S σ) (handle : Handle) :
    Estate K V S σ :=
  let store := estate.cells.length
  { estate with
    cells := estate.cells ++ [{ store := opened.store, map := opened.map }]
    posts := estate.posts ++ (opened.worker.map fun worker => ⟨worker, store⟩).toList
    handles := estate.handles ++ [some handle] }

-- Gives the position of the new handle.
def openStore (estate : Estate K V S σ) (builder : Builder K V σ) (backend : Backend K V S)
    (serializer : Bool → Serializer K V) : Except Failure (Nat × Estate K V S σ) := do
  let opened ← builder.build backend serializer estate.files
  let worker := opened.worker.map fun _ => estate.posts.length
  let handle ← (Handle.create (some estate.cells.length) worker).mapError .store
  .ok (estate.handles.length, estate.adopt opened handle)

-- Stops the worker of a handle. Closing twice is the same as closing once.
def close (estate : Estate K V S σ) (position : Nat) : Estate K V S σ :=
  match estate.handle? position with
  | some ⟨store, some worker⟩ => (estate.stopWorker worker).setHandle position (some ⟨store, none⟩)
  | _ => estate

def destroy (estate : Estate K V S σ) (position : Nat) : Estate K V S σ :=
  (estate.close position).setHandle position none

-- A new handle takes over everything that an old one has.
def move (estate : Estate K V S σ) (source : Nat) : Nat × Estate K V S σ :=
  let handle := (estate.handle? source).getD ⟨none, none⟩
  let emptied := estate.setHandle source (some ⟨none, none⟩)
  (emptied.handles.length, { emptied with handles := emptied.handles ++ [some handle] })

-- Assigning a handle to itself changes nothing.
def assign (estate : Estate K V S σ) (target source : Nat) : Estate K V S σ :=
  if target = source then estate
  else
    let closed := estate.close target
    let handle := (closed.handle? source).getD ⟨none, none⟩
    (closed.setHandle target (some handle)).setHandle source (some ⟨none, none⟩)

def worker? (estate : Estate K V S σ) (position : Nat) : Option Worker := do
  let handle ← estate.handle? position
  let post ← estate.posts[← handle.worker]?
  some post.worker

def storeOf? (estate : Estate K V S σ) (position : Nat) : Option Nat := do
  let handle ← estate.handle? position
  handle.store

def store? (estate : Estate K V S σ) (position : Nat) : Option (Store K V S σ) := do
  let cell ← estate.cells[← estate.storeOf? position]?
  some cell.store

def hasWorker (estate : Estate K V S σ) (position : Nat) : Bool :=
  match estate.worker? position with
  | some worker => worker.isRunning
  | none => false

def lastFlushFailed (estate : Estate K V S σ) (position : Nat) : Bool :=
  match estate.worker? position with
  | some worker => worker.lastFailed
  | none => false

def backgroundFlushes (estate : Estate K V S σ) (position : Nat) : UInt64 :=
  match estate.worker? position with
  | some worker => worker.flushes
  | none => 0

def backgroundFailures (estate : Estate K V S σ) (position : Nat) : UInt64 :=
  match estate.worker? position with
  | some worker => worker.failures
  | none => 0

def describe (estate : Estate K V S σ) (position : Nat) (store : Store K V S σ) : String :=
  "JsonStoreHandle \x7b " ++ store.describe ++ ", worker: " ++
    (if estate.hasWorker position then "running" else "none") ++ " \x7d"

end SnapshotStore.Estate
