import SnapshotStore.Event
import SnapshotStore.FileTree.Basic

namespace SnapshotStore

inductive Request (K V : Type) where
  -- the map
  | insert (key : K) (value : V)
  | get (key : K)
  | remove (key : K)
  | contains (key : K)
  | copy (segment : Nat)
  | count (segment : Nat)
  | wipe (segment : Nat)
  -- the lock that only one save holds at a time
  | acquire
  | release
  -- the file
  | serialize (entries : List (K × V))
  | create (path : Path)
  | append (location : Location) (bytes : Bytes)
  | sync (location : Location)
  | rename (source target : Path)
  | discard (path : Path)
  -- the listener at a position
  | notify (position : Nat) (event : Event K V)
  | nudge

namespace Request

variable {K V : Type}

-- What kind of answer a request gets.
abbrev Response : Request K V → Type
  | insert _ _ => Option V
  | get _ => Option V
  | remove _ => Option V
  | contains _ => Bool
  | copy _ => List (K × V)
  | count _ => Nat
  | wipe _ => Unit
  | acquire => Unit
  | release => Unit
  | serialize _ => Except Failure Bytes
  | create _ => Except Errno Location
  | append _ _ => Except Errno Unit
  | sync _ => Except Errno Unit
  | rename _ _ => Except Errno Unit
  | discard _ => Unit
  | notify _ _ => Except Failure Unit
  | nudge => Bool

end Request

-- Requests that may depend on the answers to those before them. Each is served in one step, and
-- other threads may come in between two of them. What a callback does beside the store reaches the
-- whole in which the routine runs.
inductive Routine (K V ω α : Type) : Type 1 where
  | done (answer : α)
  | call (request : Request K V) (next : request.Response → Routine K V ω α)
  -- something that a callback does beside the store
  | aside {β : Type} (act : ω → β × ω) (next : β → Routine K V ω α)

namespace Routine

variable {K V ω α β γ : Type}

def bind (routine : Routine K V ω α) (next : α → Routine K V ω β) : Routine K V ω β :=
  match routine with
  | .done answer => next answer
  | .call request rest => .call request fun response => (rest response).bind next
  | .aside act rest => .aside act fun answer => (rest answer).bind next

instance : Monad (Routine K V ω) where
  pure := .done
  bind := bind

theorem bind_done (routine : Routine K V ω α) : routine.bind .done = routine := by
  induction routine with
  | done answer => rfl
  | call request rest ih => exact congrArg (Routine.call request) (funext ih)
  | aside act rest ih => exact congrArg (Routine.aside act) (funext ih)

theorem bind_assoc (routine : Routine K V ω α) (f : α → Routine K V ω β)
    (g : β → Routine K V ω γ) :
    (routine.bind f).bind g = routine.bind fun answer => (f answer).bind g := by
  induction routine with
  | done answer => rfl
  | call request rest ih => exact congrArg (Routine.call request) (funext ih)
  | aside act rest ih => exact congrArg (Routine.aside act) (funext ih)

instance : LawfulMonad (Routine K V ω) :=
  LawfulMonad.mk' (Routine K V ω) (fun routine => bind_done routine) (fun _ _ => rfl) bind_assoc

end Routine

def Routine.ask {K V ω : Type} (request : Request K V) : Routine K V ω request.Response :=
  .call request .done

abbrev Action (K V ω : Type) := ExceptT Failure (Routine K V ω)

namespace Action

variable {K V ω α : Type}

-- A routine that raises nothing.
def ofRoutine (routine : Routine K V ω α) : Action K V ω α :=
  ExceptT.mk do
    let answer ← routine
    pure (.ok answer)

def ask (request : Request K V) : Action K V ω request.Response :=
  ofRoutine (Routine.ask request)

def aside (act : ω → α × ω) : Action K V ω α :=
  ofRoutine (.aside act .done)

def raise (failure : Failure) : Action K V ω α :=
  throw failure

-- Goes on with the answer or raises the failure.
def ofExcept (outcome : Except Failure α) : Action K V ω α :=
  ExceptT.mk (pure outcome)

-- Holds the lock of the saves meanwhile, and gives it back also on a failure.
def exclusively (action : Action K V ω α) : Action K V ω α :=
  ExceptT.mk do
    let _ ← Routine.ask .acquire
    let outcome ← action.run
    let _ ← Routine.ask .release
    pure outcome

end Action

end SnapshotStore
