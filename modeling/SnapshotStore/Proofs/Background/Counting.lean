import SnapshotStore.Proofs.Background.Tallies

namespace SnapshotStore

variable {K V S σ β : Type}

-- The serializer raises no failure.
def Exchange.encodes : Exchange K V → Bool
  | ⟨.serialize _, .error _⟩ => false
  | _ => true

-- Two shards that are written through and have listeners for the parts of their counters.
def counted : Store UInt8 UInt8 (Shards UInt8 UInt8 2 1) Stats :=
  ⟨Store.twoShards.backend, ⟨⟨"db"⟩, .pairs⟩, .writeThrough, false, false, Stats.listeners id⟩

end SnapshotStore
