import SnapshotStore.Listener.Basic
import SnapshotStore.Text.Printed

namespace SnapshotStore.Logging

open Text

def defaultLabel : String := "Store"

variable {K V σ : Type} [Printed K] [Printed V]

def words : Event K V → String
  | .insert key value => "INSERT: " ++ printed key ++ " = " ++ printed value
  | .update key old new =>
    "UPDATE: " ++ printed key ++ " (" ++ printed old ++ " -> " ++ printed new ++ ")"
  | .remove key => "REMOVE: " ++ printed key
  | .clear => "CLEAR"
  | .flush entries => "FLUSH: " ++ printed entries ++ " entries"
  | .flushError error => "FLUSH FAILED: " ++ error.what

def line (label : String) (event : Event K V) : String :=
  "[" ++ label ++ "] " ++ words event ++ "\n"

-- Hands each line to `write`.
def listener (label : String) (write : String → σ → σ) : Listener K V σ :=
  .recording fun event _ desk => write (line label event) desk

end SnapshotStore.Logging
