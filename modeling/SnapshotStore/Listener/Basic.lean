import SnapshotStore.Event
import SnapshotStore.FileTree.Basic

namespace SnapshotStore

-- What a listener can look at: the map's current bindings, which are not copied before it looks,
-- and the files.
structure Sight (K V : Type) where
  entries : Thunk (List (K × V))
  files : FileTree

-- May look at the store and at the files while it is told of an event, and writes on the desk.
structure Listener (K V σ : Type) where
  notify : Event K V → Sight K V → σ → Except Failure Unit × σ

namespace Listener

variable {K V σ : Type}

-- Writes on its desk and never fails.
def recording (note : Event K V → Sight K V → σ → σ) : Listener K V σ :=
  ⟨fun event sight desk => (.ok (), note event sight desk)⟩

def silent : Listener K V σ :=
  recording fun _ _ desk => desk

end Listener

end SnapshotStore
