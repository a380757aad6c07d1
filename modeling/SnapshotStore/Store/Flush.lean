import SnapshotStore.Store.Basic

namespace SnapshotStore.Store

variable {K V S σ ω : Type}

def tellFrom (event : Event K V) : List Nat → Action K V ω Unit
  | [] => pure ()
  | position :: rest => do
    let outcome ← Action.ask (.notify position event)
    Action.ofExcept outcome
    tellFrom event rest

def tell (store : Store K V S σ) (event : Event K V) : Action K V ω Unit :=
  tellFrom event (List.range store.listeners.length)

-- Only the errors of the store itself are reported to the listeners. Either way the failure goes
-- on to the caller, unless a listener raises one of its own.
def report (store : Store K V S σ) (failure : Failure) : Action K V ω Unit := do
  match failure with
  | .store error => store.tell (.flushError error)
  | _ => pure ()
  Action.raise failure

def flush (store : Store K V S σ) : Action K V ω Unit := do
  let outcome ← Action.ofRoutine (store.persistence.saveFrom store.backend).run
  match outcome with
  | .ok entries => store.tell (.flush entries)
  | .error failure => store.report failure

-- What the policy asks for after a mutation. A nudge that is refused is lost: the worker is busy
-- and sees the change at its next turn, or it has stopped.
def settle (store : Store K V S σ) : Action K V ω Unit :=
  match store.policy with
  | .writeThrough => store.flush
  | .background _ => do
    let _ ← Action.ask .nudge
    pure ()
  | .callerDriven => pure ()

end SnapshotStore.Store
