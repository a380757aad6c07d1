import SnapshotStore.Store.Read
import SnapshotStore.Store.Write

namespace SnapshotStore

-- A callback is given by the commands that it runs first, on the same store, and by what it makes
-- of the value. A failure of one of these commands is noted among the answers.
inductive Command (K V ω β : Type) where
  | get (key : K)
  | containsKey (key : K)
  | length
  | isEmpty
  | entries
  | keys
  | values
  | insert (key : K) (value : V)
  | remove (key : K)
  | clear
  | extend (entries : List (K × V))
  | update (key : K) (inner : List (Command K V ω β)) (edit : V → Except Failure V)
  | getOrInsert (key : K) (value : V)
  | getOrInsertWith (key : K) (inner : List (Command K V ω β)) (make : Except Failure V)
  | flush
  -- not an operation on the store, but something that happens beside it
  | aside (act : ω → β × ω)
  deriving Inhabited

inductive Answer (K V β : Type) where
  | nothing
  | found (value : Option V)
  | flag (holds : Bool)
  | count (n : Nat)
  | entries (entries : List (K × V))
  | keys (keys : List K)
  | values (values : List V)
  -- what the callback's inner commands answered, if it was called
  | updated (called : Option (List (Except Failure (Answer K V β))))
  | obtained (value : V) (called : Option (List (Except Failure (Answer K V β))))
  | beside (answer : β)

abbrev Outcome (K V β : Type) := Except Failure (Answer K V β)

namespace Store

variable {K V S σ ω β : Type}

mutual

def perform (store : Store K V S σ) : Command K V ω β → Action K V ω (Answer K V β)
  | .get key => .found <$> store.get key
  | .containsKey key => .flag <$> store.containsKey key
  | .length => .count <$> store.length
  | .isEmpty => .flag <$> store.isEmpty
  | .entries => .entries <$> store.entries
  | .keys => .keys <$> store.keys
  | .values => .values <$> store.values
  | .insert key value => .found <$> store.insert key value
  | .remove key => .found <$> store.remove key
  | .clear => (fun _ => .nothing) <$> store.clear
  | .extend entries => (fun _ => .nothing) <$> store.extend entries
  | .update key inner edit =>
    .updated <$> store.update key fun value => do
      let outcomes ← Action.ofRoutine (store.performFrom inner [])
      let updated ← Action.ofExcept (edit value)
      pure (updated, outcomes)
  | .getOrInsert key value => (fun value => .found (some value)) <$> store.getOrInsert key value
  | .getOrInsertWith key inner make =>
    (fun (value, called) => .obtained value called) <$> store.getOrInsertWith key do
      let outcomes ← Action.ofRoutine (store.performFrom inner [])
      let value ← Action.ofExcept make
      pure (value, outcomes)
  | .flush => (fun _ => .nothing) <$> store.flush
  | .aside act => .beside <$> Action.aside act

-- Goes on with the rest of some commands. The outcomes of those before are given latest first.
def performFrom (store : Store K V S σ) :
    List (Command K V ω β) → List (Outcome K V β) → Routine K V ω (List (Outcome K V β))
  | [], before => pure before.reverse
  | command :: rest, before => do
    let outcome ← (store.perform command).run
    store.performFrom rest (outcome :: before)

end

-- Every command is run, also after one that fails.
def performAll (store : Store K V S σ) (commands : List (Command K V ω β)) :
    Routine K V ω (List (Outcome K V β)) :=
  store.performFrom commands []

theorem performFrom_eq (store : Store K V S σ) (commands : List (Command K V ω β))
    (before : List (Outcome K V β)) :
    store.performFrom commands before =
      (before.reverse ++ ·) <$> store.performAll commands := by
  induction commands generalizing before with
  | nil => simp [performAll, performFrom]
  | cons command rest ih =>
    simp only [performAll, performFrom, map_bind]
    congr 1
    funext outcome
    rw [ih (outcome :: before), ih [outcome]]
    simp

theorem performAll_nil (store : Store K V S σ) :
    store.performAll ([] : List (Command K V ω β)) = pure [] := by
  simp [performAll, performFrom]

theorem performAll_cons (store : Store K V S σ) (command : Command K V ω β)
    (rest : List (Command K V ω β)) :
    store.performAll (command :: rest) =
      (store.perform command).run >>= fun outcome => (outcome :: ·) <$> store.performAll rest := by
  simp only [performAll, performFrom]
  congr 1
  funext outcome
  rw [performFrom_eq]
  rfl

end Store

end SnapshotStore
