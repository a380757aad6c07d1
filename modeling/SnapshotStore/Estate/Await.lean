import SnapshotStore.Estate.Handles

namespace SnapshotStore.Estate

variable {K V S σ : Type}

-- Lets every timer run out, at most so many times, until the condition holds. A failure to find
-- out ends the waiting.
def await (holds : Estate K V S σ → Except Failure Bool) :
    Nat → Estate K V S σ → Except Failure Bool × Estate K V S σ
  | 0, estate => (holds estate, estate)
  | ticks + 1, estate =>
    match holds estate with
    | .ok false => await holds ticks estate.tickAll
    | outcome => (outcome, estate)

-- How often the timer of a handle's worker runs out within a period.
def ticksWithin (estate : Estate K V S σ) (position : Nat) (milliseconds : Int64) : Nat :=
  match estate.worker? position with
  | some worker => (milliseconds / worker.interval).toNatClampNeg
  | none => 0

end SnapshotStore.Estate
