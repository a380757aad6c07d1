namespace SnapshotStore

structure Bulk (K S : Type) where
  contains : K → S → Bool
  count : Nat → S → Nat
  wipe : Nat → S → S

-- One key is set, read and removed in one step. The whole map is copied segment by segment, and
-- other threads may write between two of them. A backend may have quick ways to test a key, to
-- count and to wipe.
structure Backend (K V S : Type) where
  empty : S
  -- gives back the value that is replaced
  insert : K → V → S → Option V × S
  get : K → S → Option V
  -- gives back the value that was bound
  remove : K → S → Option V × S
  segments : Nat
  copy : Nat → S → List (K × V)
  bulk : Option (Bulk K S)

namespace Backend

variable {K V S : Type}

-- The same map with nothing but the basic operations.
def withoutBulk (backend : Backend K V S) : Backend K V S :=
  { backend with bulk := none }

def snapshot (backend : Backend K V S) (map : S) : List (K × V) :=
  (List.range backend.segments).flatMap fun segment => backend.copy segment map

def contains (backend : Backend K V S) (key : K) (map : S) : Bool :=
  match backend.bulk with
  | some bulk => bulk.contains key map
  | none => (backend.get key map).isSome

def size (backend : Backend K V S) (map : S) : Nat :=
  match backend.bulk with
  | some bulk =>
    (List.range backend.segments).foldl (fun n segment => n + bulk.count segment map) 0
  | none => (backend.snapshot map).length

def clear (backend : Backend K V S) (map : S) : S :=
  match backend.bulk with
  | some bulk => (List.range backend.segments).foldl (fun map segment => bulk.wipe segment map) map
  | none => (backend.snapshot map).foldl (fun map entry => (backend.remove entry.1 map).2) map

-- Sets the entries one after the other, so that the last one wins if a key is repeated.
def load (backend : Backend K V S) (entries : List (K × V)) : S :=
  entries.foldl (fun map entry => (backend.insert entry.1 entry.2 map).2) backend.empty

end Backend

end SnapshotStore
