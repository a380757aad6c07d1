import SnapshotStore.FileTree.Operations
import SnapshotStore.Routine.Memory
import SnapshotStore.Serializer.Basic

namespace SnapshotStore

structure Persistence (K V : Type) where
  path : Path
  serializer : Serializer K V

namespace Persistence

open SnapshotStore.Action (ask)

variable {K V S ω : Type}

def create (path : Path) (serializer : Option (Serializer K V)) :
    Except StoreError (Persistence K V) :=
  match serializer with
  | some serializer => .ok ⟨path, serializer⟩
  | none => .error (.config .noSerializer)

def readNode (path : Path) (node : Node) : Except Failure Bytes :=
  match FileTree.contents node with
  | .ok bytes => .ok bytes
  | .error .open => .error (.store (.io (.openForReading path)))
  | .error .size => .error (.store (.io (.size path)))
  | .error .read => .error (.store (.io (.read path)))

-- A file that is missing or empty stands for no entries, whatever the serializer.
def load (persistence : Persistence K V) (tree : FileTree) : Except Failure (List (K × V)) :=
  match tree.stat persistence.path with
  | .ok .directory => .error (.store (.io (.directory persistence.path)))
  | .ok node => do
    let bytes ← readNode persistence.path node
    if bytes.isEmpty then .ok [] else persistence.serializer.deserialize bytes
  | .error reason =>
    if reason.isAbsence then .ok []
    else .error (.store (.io (.stat persistence.path reason)))

def exists? (persistence : Persistence K V) (tree : FileTree) : Bool :=
  tree.exists? persistence.path

def appendAll (location : Location) : List Bytes → Routine K V ω (Except Errno Unit)
  | [] => Routine.ask (.sync location)
  | chunk :: rest => do
    match ← Routine.ask (.append location chunk) with
    | .ok _ => appendAll location rest
    | .error reason => pure (.error reason)

-- Removes the temporary file and raises the error.
def abandon {α : Type} (temporary : Path) (cause : IoCause) : Action K V ω α := do
  ask (.discard temporary)
  Action.raise (.store (.io cause))

-- A reader finds the old content or the new one and never a part.
def replaceFile (path : Path) (chunks : List Bytes) : Action K V ω Unit := do
  let temporary := path.temporary
  match ← ask (.create temporary) with
  | .error _ => Action.raise (.store (.io (.openTemporary temporary)))
  | .ok location =>
    match ← Action.ofRoutine (appendAll location chunks) with
    | .error _ => abandon temporary (.writeTemporary temporary)
    | .ok _ =>
      match ← ask (.rename temporary path) with
      | .error reason => abandon temporary (.rename temporary path reason)
      | .ok _ => pure ()

-- Content goes to the file in one piece, and empty content in none.
def chunksOf (bytes : Bytes) : List Bytes :=
  if bytes.isEmpty then [] else [bytes]

def write (persistence : Persistence K V) (entries : List (K × V)) : Action K V ω Unit := do
  let bytes ← Action.ofExcept (← ask (.serialize entries))
  replaceFile persistence.path (chunksOf bytes)

def save (persistence : Persistence K V) (entries : List (K × V)) : Action K V ω Unit :=
  Action.exclusively (persistence.write entries)

-- Saves the map itself. The copy is taken while the lock is held, so that copies reach the file
-- in the order in which they are taken.
def saveFrom (persistence : Persistence K V) (backend : Backend K V S) : Action K V ω Nat :=
  Action.exclusively do
    let entries ← Action.ofRoutine (Memory.snapshot backend)
    persistence.write entries
    pure entries.length

end Persistence

end SnapshotStore
