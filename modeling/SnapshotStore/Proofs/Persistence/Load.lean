import SnapshotStore.Persistence
import SnapshotStore.Proofs.FileTree.Plain

namespace SnapshotStore

variable {K V : Type}

-- Reading back what was written gives the same entries in some order, and only no entries at all
-- may be written as no bytes.
structure Serializer.RoundTrips (serializer : Serializer K V) : Prop where
  read : ∀ entries bytes, (entries.map Prod.fst).Nodup → serializer.serialize entries = .ok bytes →
    ∃ found, serializer.deserialize bytes = .ok found ∧ found.Perm entries
  empty : ∀ entries, (entries.map Prod.fst).Nodup → serializer.serialize entries = .ok [] →
    entries = []

-- Bytes bound to bytes, written one after the other.
def Serializer.pairs : Serializer UInt8 UInt8 where
  serialize entries := .ok (entries.flatMap fun entry => [entry.1, entry.2])
  deserialize := read
where
  read : Bytes → Except Failure (List (UInt8 × UInt8))
    | key :: value :: rest => do
      let entries ← read rest
      .ok ((key, value) :: entries)
    | [] => .ok []
    | [_] => .error (.exception "a key without a value")

theorem Serializer.pairs_read (entries : List (UInt8 × UInt8)) :
    pairs.read (entries.flatMap fun entry => [entry.1, entry.2]) = .ok entries := by
  induction entries with
  | nil => rfl
  | cons entry rest ih =>
      rw [List.flatMap_cons, List.cons_append, List.cons_append, List.nil_append, pairs.read, ih]
      rfl

theorem Serializer.roundTrips_pairs : pairs.RoundTrips := by
  constructor
  · rintro entries bytes - hbytes
    obtain rfl := Except.ok.inj hbytes
    exact ⟨entries, pairs_read entries, .refl _⟩
  · rintro entries - hbytes
    cases entries with
    | nil => rfl
    | cons entry rest => cases Except.ok.inj hbytes

-- Something is found at a path that is no directory, or nothing.
def FileTree.Readable (tree : FileTree) (path : Path) : Prop :=
  ∃ found, tree.look path = .ok found ∧ found ≠ some .directory

namespace Persistence

variable {persistence : Persistence K V} {tree : FileTree}

theorem stat_of_look {path : Path} {node : Node} (h : tree.look path = .ok (some node)) :
    tree.stat path = .ok node := by
  unfold FileTree.look at h
  cases hstat : tree.stat path with
  | ok found =>
      rw [hstat] at h
      rw [Option.some.inj (Except.ok.inj h)]
  | error reason =>
      simp only [hstat] at h
      split at h <;> cases h

theorem readable_of_load {entries : List (K × V)} (h : persistence.load tree = .ok entries) :
    tree.Readable persistence.path := by
  unfold FileTree.Readable FileTree.look
  unfold load at h
  cases hstat : tree.stat persistence.path with
  | ok node =>
      refine ⟨some node, rfl, ?_⟩
      rintro hdirectory
      rw [hstat, Option.some.inj hdirectory] at h
      cases h
  | error reason =>
      simp only [hstat] at h
      by_cases habsence : reason.isAbsence = true
      · exact ⟨none, if_pos habsence, by simp⟩
      · rw [if_neg habsence] at h
        cases h

theorem isDirectory_of_load {entries : List (K × V)} (h : persistence.load tree = .ok entries) :
    tree.isDirectory persistence.path = false := by
  unfold FileTree.isDirectory
  unfold load at h
  cases hstat : tree.stat persistence.path with
  | error reason => rfl
  | ok node =>
      cases node with
      | directory =>
          rw [hstat] at h
          cases h
      | _ => rfl

theorem load_of_file {bytes : Bytes}
    (h : tree.look persistence.path = .ok (some (.file bytes))) :
    persistence.load tree =
      if bytes.isEmpty then .ok [] else persistence.serializer.deserialize bytes := by
  rw [load, stat_of_look h]
  rfl

-- A file that holds the bytes of some entries is loaded as these entries.
theorem load_serialized {entries : List (K × V)} {bytes : Bytes}
    (hserializer : persistence.serializer.RoundTrips) (hnodup : (entries.map Prod.fst).Nodup)
    (hbytes : persistence.serializer.serialize entries = .ok bytes)
    (h : tree.look persistence.path = .ok (some (.file bytes))) :
    ∃ found, persistence.load tree = .ok found ∧ found.Perm entries := by
  rw [load_of_file h]
  cases bytes with
  | nil =>
      obtain rfl := hserializer.empty entries hnodup hbytes
      exact ⟨[], rfl, .refl _⟩
  | cons byte rest => exact hserializer.read entries _ hnodup hbytes

end Persistence

end SnapshotStore
