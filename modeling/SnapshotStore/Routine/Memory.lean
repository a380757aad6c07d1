import SnapshotStore.Backend.Basic
import SnapshotStore.Routine.Basic

namespace SnapshotStore.Memory

open Routine (ask)

variable {K V S ω : Type}

def snapshotFrom : List Nat → Routine K V ω (List (K × V))
  | [] => pure []
  | segment :: rest => do
    let entries ← ask (.copy segment)
    let others ← snapshotFrom rest
    pure (entries ++ others)

def snapshot (backend : Backend K V S) : Routine K V ω (List (K × V)) :=
  snapshotFrom (List.range backend.segments)

def countFrom : List Nat → Routine K V ω Nat
  | [] => pure 0
  | segment :: rest => do
    let n ← ask (.count segment)
    let others ← countFrom rest
    pure (n + others)

def size (backend : Backend K V S) : Routine K V ω Nat :=
  match backend.bulk with
  | some _ => countFrom (List.range backend.segments)
  | none => do
    let entries ← snapshot backend
    pure entries.length

def contains (backend : Backend K V S) (key : K) : Routine K V ω Bool :=
  match backend.bulk with
  | some _ => ask (.contains key)
  | none => do
    let value ← ask (.get key)
    pure value.isSome

def wipeFrom : List Nat → Routine K V ω Unit
  | [] => pure ()
  | segment :: rest => do
    ask (.wipe segment)
    wipeFrom rest

def removeAll : List (K × V) → Routine K V ω Unit
  | [] => pure ()
  | entry :: rest => do
    let _ ← ask (.remove entry.1)
    removeAll rest

def clear (backend : Backend K V S) : Routine K V ω Unit :=
  match backend.bulk with
  | some _ => wipeFrom (List.range backend.segments)
  | none => do
    let entries ← snapshot backend
    removeAll entries

end SnapshotStore.Memory
