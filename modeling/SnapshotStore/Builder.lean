import SnapshotStore.Store.Basic
import SnapshotStore.Worker.Basic

namespace SnapshotStore

structure Builder (K V σ : Type) where
  path : Path
  policy : FlushPolicy := default
  pretty : Bool := false
  listeners : List (Listener K V σ) := []

-- A store that has just been opened, with its map and its worker.
structure Opened (K V S σ : Type) where
  store : Store K V S σ
  map : S
  worker : Option Worker

namespace Builder

variable {K V S σ : Type}

def withListener (builder : Builder K V σ) (listener : Option (Listener K V σ)) :
    Except StoreError (Builder K V σ) :=
  match listener with
  | some listener => .ok { builder with listeners := builder.listeners ++ [listener] }
  | none => .error (.config .noListener)

def check (builder : Builder K V σ) (files : FileTree) : Except StoreError Unit :=
  if builder.path.text.isEmpty then .error (.config .emptyPath)
  else if files.isDirectory builder.path then .error (.config (.directoryPath builder.path))
  else builder.policy.validate

def worker? (builder : Builder K V σ) : Except StoreError (Option Worker) :=
  if builder.policy.isBackground then do
    let worker ← Worker.create builder.policy.interval true .shared
    .ok (some worker)
  else .ok none

-- The serializer may depend on the layout that is asked for.
def build (builder : Builder K V σ) (backend : Backend K V S) (serializer : Bool → Serializer K V)
    (files : FileTree) : Except Failure (Opened K V S σ) := do
  (builder.check files).mapError .store
  let persistence ←
    (Persistence.create builder.path (some (serializer builder.pretty))).mapError .store
  let entries ← persistence.load files
  let worker ← builder.worker?.mapError .store
  let store ← (Store.create (some backend) (some persistence) builder.policy builder.pretty
    worker.isSome builder.listeners).mapError .store
  .ok ⟨store, backend.load entries, worker⟩

def describe (builder : Builder K V σ) : String :=
  "JsonStoreBuilder \x7b path: " ++ builder.path.quoted ++ ", policy: " ++
    builder.policy.describe ++ ", pretty: " ++ (if builder.pretty then "true" else "false") ++
    " \x7d"

end Builder

end SnapshotStore
