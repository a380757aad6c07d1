import SnapshotStore.Table

namespace SnapshotStore

-- Said of the literal zero, whatever else counts as zero.
abbrev Nonzero (n : Nat) : Prop := @NeZero Nat ⟨0⟩ n

abbrev Buckets (K V : Type) (m : Nat) := Vector (Table K V) m

namespace Buckets

variable {K V : Type} {m : Nat}

def empty : Buckets K V m :=
  Vector.replicate m .empty

-- The bucket that a key belongs to.
def index [Nonzero m] (hash : K → Nat) (key : K) : Fin m :=
  ⟨hash key % m, Nat.mod_lt _ (Nat.pos_of_neZero m)⟩

variable [DecidableEq K] [Nonzero m]

def insert (hash : K → Nat) (key : K) (value : V) (buckets : Buckets K V m) :
    Option V × Buckets K V m :=
  let i : Fin m := index hash key
  let (previous, table) := buckets[i].insert key value
  (previous, buckets.set i table)

def get (hash : K → Nat) (key : K) (buckets : Buckets K V m) : Option V :=
  let i : Fin m := index hash key
  buckets[i].get key

def remove (hash : K → Nat) (key : K) (buckets : Buckets K V m) : Option V × Buckets K V m :=
  let i : Fin m := index hash key
  let (removed, table) := buckets[i].remove key
  (removed, buckets.set i table)

omit [DecidableEq K] [Nonzero m]

def table (buckets : Buckets K V m) (i : Nat) : Table K V :=
  (buckets[i]?).getD .empty

def entries (positions : List Nat) (buckets : Buckets K V m) : List (K × V) :=
  positions.flatMap fun i => (buckets.table i).entries

def count (positions : List Nat) (buckets : Buckets K V m) : Nat :=
  positions.foldl (fun n i => n + (buckets.table i).size) 0

def wipe (positions : List Nat) (buckets : Buckets K V m) : Buckets K V m :=
  positions.foldl (fun buckets i => buckets.setIfInBounds i .empty) buckets

end Buckets

end SnapshotStore
