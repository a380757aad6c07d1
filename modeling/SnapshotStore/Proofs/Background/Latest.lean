import SnapshotStore.Proofs.Background.Counters

namespace SnapshotStore

variable {K V S σ β : Type}

namespace Staffed

variable {deeds : List (Deed K V S)} {position : Nat} {kind : Except Failure Nat → Bool}
  {saved : Except Failure Nat}

end Staffed

end SnapshotStore
