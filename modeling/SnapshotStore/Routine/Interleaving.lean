import SnapshotStore.Routine.Run

namespace SnapshotStore

-- A step is a request of one thread or one thing that it does beside the store. Whoever asks for
-- the lock of the saves while another thread holds it cannot take one.
structure Threads (K V S σ α : Type) where
  routines : List (Routine K V (World S σ) α)
  world : World S σ

-- Whether a request has to wait.
def Request.isBlocked {K V S σ : Type} (request : Request K V) (world : World S σ) : Bool :=
  match request with
  | .acquire => world.saving
  | _ => false

namespace Threads

variable {K V S σ α : Type}

-- One step of the thread at a position. There is none for a thread that is done or has to wait.
def step? (setting : Setting K V S σ) (position : Nat) (threads : Threads K V S σ α) :
    Option (Threads K V S σ α) :=
  match threads.routines[position]? with
  | some (.call request next) =>
    if request.isBlocked threads.world then none
    else
      let (response, world) := threads.world.serve setting request
      some ⟨threads.routines.set position (next response), world⟩
  | some (.aside act next) =>
    let (answer, world) := act threads.world
    some ⟨threads.routines.set position (next answer), world⟩
  | _ => none

def answers? (threads : Threads K V S σ α) : Option (List α) :=
  threads.routines.mapM fun
    | .done answer => some answer
    | .call _ _ => none
    | .aside _ _ => none

-- One step of each thread that can take one.
def round (setting : Setting K V S σ) (threads : Threads K V S σ α) : Threads K V S σ α :=
  (List.range threads.routines.length).foldl
    (fun threads position => (threads.step? setting position).getD threads) threads

end Threads

end SnapshotStore
