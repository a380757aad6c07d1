import SnapshotStore.Bytes
import SnapshotStore.Failure

namespace SnapshotStore

structure Serializer (K V : Type) where
  serialize : List (K × V) → Except Failure Bytes
  deserialize : Bytes → Except Failure (List (K × V))

end SnapshotStore
