import SnapshotStore.Backend.Basic
import SnapshotStore.Backend.Buckets

namespace SnapshotStore

-- The map of `n` shards with `r` buckets each.
abbrev Shards (K V : Type) (n r : Nat) := Buckets K V (n * r)

inductive ShardError where
  | outOfRange
  deriving DecidableEq

def ShardError.message : ShardError → String
  | .outOfRange => "Shard index out of range"

namespace Shards

variable {K V : Type} {n r : Nat}

-- Where the buckets of a shard stand, in one row in which the shards take turns.
def positions (n r shard : Nat) : List Nat :=
  if shard < n then (List.range r).map fun k => k * n + shard else []

-- The number of keys in one shard.
def size (shard : Nat) (shards : Shards K V n r) : Except ShardError Nat :=
  if shard < n then .ok (Buckets.count (positions n r shard) shards) else .error .outOfRange

end Shards

instance Shards.nonzero {n r : Nat} [hn : Nonzero n] [hr : Nonzero r] : Nonzero (n * r) :=
  ⟨Nat.mul_ne_zero hn.out hr.out⟩

def Backend.sharded {K V : Type} [DecidableEq K] (n r : Nat) [Nonzero n] [Nonzero r]
    (hash : K → Nat) : Backend K V (Shards K V n r) where
  empty := .empty
  insert := Buckets.insert hash
  get := Buckets.get hash
  remove := Buckets.remove hash
  segments := n
  copy shard := Buckets.entries (Shards.positions n r shard)
  bulk := some
    { contains := fun key shards => (Buckets.get hash key shards).isSome
      count := fun shard => Buckets.count (Shards.positions n r shard)
      wipe := fun shard => Buckets.wipe (Shards.positions n r shard) }

end SnapshotStore
