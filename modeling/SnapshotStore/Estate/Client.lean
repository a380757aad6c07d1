import SnapshotStore.Estate.Await
import SnapshotStore.Store.Command

namespace SnapshotStore

-- Holds one handle and shares the store behind it, so that it can give up the handle and keep the
-- store.
structure Client (K V S σ : Type) where
  estate : Estate K V S σ
  handle : Option Nat := none
  store : Option Nat := none

namespace Client

variable {K V S σ : Type}

def cell? (client : Client K V S σ) : Option (Cell K V S σ) := do
  client.estate.cells[← client.store]?

-- Destroys the handle. The store stays.
def detach (client : Client K V S σ) : Client K V S σ :=
  match client.handle with
  | some handle => { client with estate := client.estate.destroy handle, handle := none }
  | none => client

def leave (client : Client K V S σ) : Client K V S σ :=
  { client.detach with store := none }

def enter (client : Client K V S σ) (builder : Builder K V σ) (backend : Backend K V S)
    (serializer : Bool → Serializer K V) : Except Failure (Client K V S σ) := do
  let (handle, estate) ← client.estate.openStore builder backend serializer
  .ok { estate := estate.settle, handle := some handle, store := estate.storeOf? handle }

-- Opens another store and assigns its handle over the one that is held.
def exchange (client : Client K V S σ) (handle : Nat) (builder : Builder K V σ)
    (backend : Backend K V S) (serializer : Bool → Serializer K V) :
    Except Failure (Client K V S σ) := do
  let (fresh, opened) ← client.estate.openStore builder backend serializer
  let estate := (opened.settle.assign handle fresh).destroy fresh
  .ok { client with estate := estate, store := estate.storeOf? handle }

-- Moves the handle into a new one.
def moveHandle (client : Client K V S σ) (handle : Nat) : Client K V S σ :=
  let (moved, estate) := client.estate.move handle
  { client with estate := estate.destroy handle, handle := some moved }

def selfAssign (client : Client K V S σ) (handle : Nat) : Client K V S σ :=
  { client with estate := client.estate.assign handle handle }

def close (client : Client K V S σ) (handle : Nat) : Client K V S σ :=
  { client with estate := client.estate.close handle }

-- Serves one request to the store at a position. A nudge wakes the worker at once.
def serve (position : Nat) (cell : Cell K V S σ) (request : Request K V)
    (client : Client K V S σ) : request.Response × Client K V S σ :=
  let (response, estate) := client.estate.serve position cell request
  match request with
  | .nudge => (response, { client with estate := estate.settle })
  | _ => (response, { client with estate := estate })

-- What a command does to the store that the client shares now. Its callbacks may do anything that
-- the client can do, and the command goes on with the same store after that.
def perform {β : Type} (client : Client K V S σ) (command : Command K V (Client K V S σ) β) :
    Option (Outcome K V β × Client K V S σ) := do
  let position ← client.store
  let cell ← client.estate.cells[position]?
  some ((cell.store.perform command).exec (serve position cell) client)

-- Lets the worker's timer run out again and again until the condition holds.
def await (client : Client K V S σ) (holds : Estate K V S σ → Except Failure Bool) (ticks : Nat) :
    Except Failure Bool × Client K V S σ :=
  let (answer, estate) := Estate.await holds ticks client.estate
  (answer, { client with estate := estate })

def ticksWithin (client : Client K V S σ) (milliseconds : Int64) : Nat :=
  match client.handle with
  | some handle => client.estate.ticksWithin handle milliseconds
  | none => 0

-- Whether one who opens the file at a path afresh finds exactly what is in memory.
def isPersisted [BEq V] (client : Client K V S σ) (path : Path) (serializer : Serializer K V) :
    Except Failure Bool :=
  match client.cell? with
  | some cell => do
    let builder : Builder K V σ := { path := path }
    let backend := cell.store.backend
    let opened ← builder.build backend (fun _ => serializer) client.estate.files
    let entries := backend.snapshot opened.map
    .ok (entries.length == backend.size cell.map &&
      entries.all fun (key, value) => backend.get key cell.map == some value)
  | none => .ok false

-- Puts back what has become of the store's world, and lets the workers take their turns.
def absorb (client : Client K V S σ) (world : World S σ) : Client K V S σ :=
  match client.store, client.cell? with
  | some position, some cell =>
    { client with estate := (client.estate.absorb position cell world).settle }
  | _, _ => client

end Client

end SnapshotStore
