import SnapshotStore.Store.Basic

namespace SnapshotStore.Store

variable {K V S σ ω : Type}

def get (_ : Store K V S σ) (key : K) : Action K V ω (Option V) :=
  Action.ask (.get key)

def containsKey (store : Store K V S σ) (key : K) : Action K V ω Bool :=
  Action.ofRoutine (Memory.contains store.backend key)

def length (store : Store K V S σ) : Action K V ω Nat :=
  Action.ofRoutine (Memory.size store.backend)

def isEmpty (store : Store K V S σ) : Action K V ω Bool := do
  let n ← store.length
  pure (n == 0)

def entries (store : Store K V S σ) : Action K V ω (List (K × V)) :=
  Action.ofRoutine (Memory.snapshot store.backend)

def keys (store : Store K V S σ) : Action K V ω (List K) := do
  let entries ← store.entries
  pure (entries.map Prod.fst)

def values (store : Store K V S σ) : Action K V ω (List V) := do
  let entries ← store.entries
  pure (entries.map Prod.snd)

end SnapshotStore.Store
