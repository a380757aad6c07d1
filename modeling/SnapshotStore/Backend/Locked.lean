import SnapshotStore.Backend.Basic
import SnapshotStore.Backend.Buckets

namespace SnapshotStore.Backend

variable {K V : Type} [DecidableEq K]

def locked (m : Nat) [Nonzero m] (hash : K → Nat) : Backend K V (Buckets K V m) where
  empty := .empty
  insert := Buckets.insert hash
  get := Buckets.get hash
  remove := Buckets.remove hash
  segments := 1
  copy _ := Buckets.entries (List.range m)
  bulk := some
    { contains := fun key buckets => (buckets.get hash key).isSome
      count := fun _ => Buckets.count (List.range m)
      wipe := fun _ _ => .empty }

end SnapshotStore.Backend
