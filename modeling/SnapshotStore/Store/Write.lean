import SnapshotStore.Store.Flush

namespace SnapshotStore.Store

variable {K V S σ ω ρ : Type}

-- Sets one binding and tells the listeners, without consulting the policy.
def put (store : Store K V S σ) (key : K) (value : V) : Action K V ω (Option V) := do
  let previous ← Action.ask (.insert key value)
  store.tell (.ofPut key previous value)
  pure previous

-- Every operation changes the map first, tells the listeners next and consults the policy last.
def insert (store : Store K V S σ) (key : K) (value : V) : Action K V ω (Option V) := do
  let previous ← store.put key value
  store.settle
  pure previous

-- There is nothing to tell if the key was unbound.
def tellRemoval (store : Store K V S σ) (key : K) (removed : Option V) : Action K V ω Unit :=
  match removed with
  | some _ => store.tell (.remove key)
  | none => pure ()

-- The policy is consulted also if the key was unbound.
def remove (store : Store K V S σ) (key : K) : Action K V ω (Option V) := do
  let removed ← Action.ask (.remove key)
  store.tellRemoval key removed
  store.settle
  pure removed

def clear (store : Store K V S σ) : Action K V ω Unit := do
  Action.ofRoutine (Memory.clear store.backend)
  store.tell .clear
  store.settle

def putAll (store : Store K V S σ) : List (K × V) → Action K V ω Unit
  | [] => pure ()
  | entry :: rest => do
    let _ ← store.put entry.1 entry.2
    store.putAll rest

def extend (store : Store K V S σ) (entries : List (K × V)) : Action K V ω Unit := do
  store.putAll entries
  store.settle

-- The callback gets the value as it was at the call, and what it makes of it is set whatever has
-- happened to the key meanwhile. The callback's own answer is handed on, and there is none if
-- the key is unbound.
def update (store : Store K V S σ) (key : K) (mutate : V → Action K V ω (V × ρ)) :
    Action K V ω (Option ρ) := do
  match ← Action.ask (.get key) with
  | none => pure none
  | some current =>
    let (updated, answer) ← mutate current
    let _ ← Action.ask (.insert key updated)
    store.tell (.update key current updated)
    store.settle
    pure (some answer)

-- Gives the callback's answer together with the value if the callback was run.
def getOrInsertWith (store : Store K V S σ) (key : K) (make : Action K V ω (V × ρ)) :
    Action K V ω (V × Option ρ) := do
  match ← Action.ask (.get key) with
  | some existing => pure (existing, none)
  | none =>
    let (value, answer) ← make
    let _ ← store.put key value
    store.settle
    pure (value, some answer)

def getOrInsert (store : Store K V S σ) (key : K) (value : V) : Action K V ω V := do
  match ← Action.ask (.get key) with
  | some existing => pure existing
  | none =>
    let _ ← store.put key value
    store.settle
    pure value

end SnapshotStore.Store
