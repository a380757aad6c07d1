import SnapshotStore.FlushPolicy
import SnapshotStore.Listener.Basic
import SnapshotStore.Persistence
import SnapshotStore.Routine.Run

namespace SnapshotStore

structure Store (K V S σ : Type) where
  backend : Backend K V S
  persistence : Persistence K V
  policy : FlushPolicy
  -- whether saved files are laid out for human readers
  pretty : Bool
  -- whether the store has a channel for nudges
  connected : Bool
  listeners : List (Listener K V σ)

namespace Store

variable {K V S σ : Type}

def checkChannel (policy : FlushPolicy) (connected : Bool) : Except StoreError Unit :=
  if policy.isBackground && !connected then .error (.config .channelRequired) else .ok ()

def create (backend : Option (Backend K V S)) (persistence : Option (Persistence K V))
    (policy : FlushPolicy) (pretty connected : Bool) (listeners : List (Listener K V σ)) :
    Except StoreError (Store K V S σ) :=
  match backend, persistence with
  | none, _ => .error (.config .noBackend)
  | some _, none => .error (.config .noPersistence)
  | some backend, some persistence => do
    policy.validate
    checkChannel policy connected
    .ok ⟨backend, persistence, policy, pretty, connected, listeners⟩

def setting (store : Store K V S σ) : Setting K V S σ :=
  ⟨store.backend, store.persistence.serializer, store.listeners⟩

def path (store : Store K V S σ) : Path :=
  store.persistence.path

def describe (store : Store K V S σ) : String :=
  "JsonStore \x7b path: " ++ store.path.quoted ++ ", policy: " ++ store.policy.describe ++
    ", pretty: " ++ (if store.pretty then "true" else "false") ++ " \x7d"

end Store

end SnapshotStore
