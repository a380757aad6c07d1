import SnapshotStore.Failure

namespace SnapshotStore

inductive Event (K V : Type) where
  | insert (key : K) (value : V)
  | update (key : K) (old new : V)
  | remove (key : K)
  | clear
  | flush (entries : Nat)
  | flushError (error : StoreError)
  deriving DecidableEq

-- A value set under a key counts as an insert only if the key was unbound.
def Event.ofPut {K V : Type} (key : K) (previous : Option V) (value : V) : Event K V :=
  match previous with
  | some old => .update key old value
  | none => .insert key value

-- What kind of event it is, in one word.
def Event.name {K V : Type} : Event K V → String
  | .insert _ _ => "insert"
  | .update _ _ _ => "update"
  | .remove _ => "remove"
  | .clear => "clear"
  | .flush _ => "flush"
  | .flushError _ => "flushError"

end SnapshotStore
