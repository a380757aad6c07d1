import SnapshotStore.Failure
import SnapshotStore.FileTree.Basic
import SnapshotStore.Nudge.Channel

namespace SnapshotStore

-- Something that goes wrong during one save, although nothing in the files would cause it.
inductive Mishap where
  | none
  | encoding (failure : Failure)
  | opening (reason : Errno)
  -- only so many bytes are written
  | writing (written : Nat) (reason : Errno)
  | syncing (reason : Errno)
  | renaming (reason : Errno)
  deriving DecidableEq

instance : Inhabited Mishap := ⟨.none⟩

structure Surroundings (σ : Type) where
  files : FileTree
  channel : Nudge.Channel
  -- by the number of the save
  mishaps : Nat → Mishap
  desk : σ

end SnapshotStore
