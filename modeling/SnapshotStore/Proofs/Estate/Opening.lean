import Mathlib.Data.Finset.Card
import Mathlib.Data.List.Induction
import SnapshotStore.Estate.Handles
import SnapshotStore.Proofs.Backend.Shards
import SnapshotStore.Proofs.FileTree.Leads
import SnapshotStore.Proofs.Store.Opening
import SnapshotStore.Proofs.Store.Tracking
import SnapshotStore.Store.Read

namespace SnapshotStore

variable {K V S σ : Type}

namespace Backend.Laws

variable [DecidableEq K] {backend : Backend K V S} (laws : backend.Laws)

include laws

theorem get_load_find (entries : List (K × V)) (key : K) :
    backend.get key (backend.load entries) =
      (entries.reverse.find? (·.1 = key)).map Prod.snd := by
  induction entries using List.reverseRecOn with
  | nil => exact laws.get_empty key
  | append_singleton entries entry ih =>
      have hload : backend.load (entries ++ [entry]) =
          (backend.insert entry.1 entry.2 (backend.load entries)).2 := by
        simp [load]
      rw [hload, laws.get_insert entry.1 entry.2 key (laws.valid_load entries), ih,
        List.reverse_append, List.reverse_singleton, List.singleton_append, List.find?_cons]
      by_cases hkey : entry.1 = key <;> simp [hkey]

end Backend.Laws

namespace Store

variable (store : Store K V S σ) (world : World S σ)

theorem exec_length : store.length.exec (World.serve store.setting) world =
    (.ok (store.backend.size world.map), world) := by
  have hrun : (Memory.size store.backend).run (World.serve store.setting) world =
      (store.backend.size world.map, world) := Memory.run_size store.setting world
  rw [length, Action.exec_ofRoutine, hrun]

end Store

def ReadFault.cause (path : Path) : ReadFault → IoCause
  | .open => .openForReading path
  | .size => .size path
  | .read => .read path

namespace Persistence

variable {path : Path} {serializer : Serializer K V} {tree : FileTree}

-- The entries that an opened file gives, of which only the content of a file that is not empty is
-- decoded.
def decode (persistence : Persistence K V) :
    Except ReadFault Bytes → Except Failure (List (K × V))
  | .ok [] => .ok []
  | .ok bytes => persistence.serializer.deserialize bytes
  | .error fault => .error (.store (.io (fault.cause persistence.path)))

-- A file is opened before its size is looked at.
example : decode ⟨path, serializer⟩ (FileTree.contents (.device (.sealed []))) =
    .error (.store (.io (.openForReading path))) := rfl

end Persistence

namespace Builder

variable {builder : Builder K V σ} {serializer : Serializer K V} {files : FileTree}
  {result : Except Failure (List (K × V))}

-- Neither the path nor the policy keeps the builder from looking into the file.
structure Accepts (builder : Builder K V σ) (files : FileTree) : Prop where
  named : builder.path.text ≠ ""
  plain : ¬files.Shows builder.path (some .directory)
  timed : ∀ milliseconds, builder.policy = .background milliseconds → 0 < milliseconds

-- The ways in which opening ends, in the order in which they are checked.
inductive Ends (builder : Builder K V σ) (serializer : Serializer K V) (files : FileTree) :
    Except Failure (List (K × V)) → Prop where
  | unnamed : builder.path.text = "" →
      Ends builder serializer files (.error (.store (.config .emptyPath)))
  | directory : builder.path.text ≠ "" → files.Shows builder.path (some .directory) →
      Ends builder serializer files (.error (.store (.config (.directoryPath builder.path))))
  | untimed {milliseconds : Int64} : builder.path.text ≠ "" →
      ¬files.Shows builder.path (some .directory) →
      builder.policy = .background milliseconds → milliseconds ≤ 0 →
      Ends builder serializer files (.error (.store (.config (.policyInterval milliseconds))))
  | nothing : builder.Accepts files → files.Shows builder.path none →
      Ends builder serializer files (.ok [])
  | empty {node : Node} : builder.Accepts files → files.Shows builder.path (some node) →
      FileTree.contents node = .ok [] → Ends builder serializer files (.ok [])
  | unresolved {reason : Errno} : builder.Accepts files →
      (∀ found, ¬files.Shows builder.path found) → files.stat builder.path = .error reason →
      Ends builder serializer files (.error (.store (.io (.stat builder.path reason))))
  | unreadable {node : Node} {fault : ReadFault} : builder.Accepts files →
      files.Shows builder.path (some node) → FileTree.contents node = .error fault →
      Ends builder serializer files (.error (.store (.io (fault.cause builder.path))))
  | decoded {node : Node} {bytes : Bytes} : builder.Accepts files →
      files.Shows builder.path (some node) → FileTree.contents node = .ok bytes → bytes ≠ [] →
      Ends builder serializer files (serializer.deserialize bytes)

-- Checks, then loads.
def entries? (builder : Builder K V σ) (serializer : Serializer K V) (files : FileTree) :
    Except Failure (List (K × V)) := do
  (builder.check files).mapError .store
  Persistence.load ⟨builder.path, serializer⟩ files

theorem isDirectory_iff {path : Path} :
    files.isDirectory path = true ↔ files.Shows path (some .directory) := by
  rw [← FileTree.look_eq_ok_iff, FileTree.look, FileTree.isDirectory]
  rcases files.stat path with reason | node
  · by_cases habsence : reason.isAbsence = true <;> simp [habsence]
  · cases node <;> simp

theorem accepts_iff : builder.Accepts files ↔ builder.check files = .ok () := by
  rw [check_eq_ok_iff]
  constructor
  · rintro ⟨hnamed, hplain, htimed⟩
    refine ⟨by simpa using hnamed, Bool.eq_false_iff.mpr (mt isDirectory_iff.mp hplain), ?_⟩
    unfold FlushPolicy.validate
    cases hpolicy : builder.policy with
    | background milliseconds =>
        have hlt := htimed milliseconds hpolicy
        simp [Int64.not_le, hlt]
    | writeThrough => rfl
    | callerDriven => rfl
  · rintro ⟨hnamed, hplain, hvalid⟩
    refine ⟨by simpa using hnamed, mt isDirectory_iff.mpr (Bool.eq_false_iff.mp hplain), ?_⟩
    intro milliseconds hpolicy
    by_contra hle
    simp [hpolicy, FlushPolicy.validate, Int64.not_lt.mp hle] at hvalid

-- Two links that lead to each other.
example : ({ path := ⟨"a"⟩ } : Builder UInt8 UInt8 Unit).entries? Serializer.pairs
    ⟨.ofEntries [(["a"], .link ⟨"b"⟩), (["b"], .link ⟨"a"⟩)], [], []⟩ =
    .error (.store (.io (.stat ⟨"a"⟩ .tooManyLinks))) := rfl

def freshWorker (builder : Builder K V σ) : Option Worker :=
  if builder.policy.isBackground then
    some { interval := builder.policy.interval, ownsChannel := false }
  else none

theorem isSome_freshWorker : builder.freshWorker.isSome = builder.policy.isBackground := by
  unfold freshWorker
  cases builder.policy.isBackground <;> rfl

def freshStore (builder : Builder K V σ) (backend : Backend K V S) (serializer : Serializer K V) :
    Store K V S σ where
  backend := backend
  persistence := ⟨builder.path, serializer⟩
  policy := builder.policy
  pretty := builder.pretty
  connected := builder.policy.isBackground
  listeners := builder.listeners

-- The worker is asked for an interval that the policy has been checked for.
theorem worker_of_accepts (h : builder.Accepts files) :
    builder.worker? = .ok builder.freshWorker := by
  unfold worker? freshWorker
  cases hpolicy : builder.policy with
  | background milliseconds =>
      have hlt := Int64.not_le.mpr (h.timed milliseconds hpolicy)
      simp [FlushPolicy.isBackground, FlushPolicy.kind, FlushPolicy.interval, Worker.create, hlt,
        bind, Except.bind]
  | writeThrough => rfl
  | callerDriven => rfl

-- A store whose policy is background is given the channel that this policy needs.
theorem create_of_accepts (h : builder.Accepts files) (backend : Backend K V S)
    (serializer : Serializer K V) :
    Store.create (some backend) (some ⟨builder.path, serializer⟩) builder.policy builder.pretty
      builder.freshWorker.isSome builder.listeners =
        .ok (builder.freshStore backend serializer) := by
  have hvalid := (check_eq_ok_iff.mp (accepts_iff.mp h)).2.2
  have hchannel : Store.checkChannel builder.policy builder.policy.isBackground = .ok () := by
    unfold Store.checkChannel
    cases builder.policy.isBackground <;> rfl
  rw [isSome_freshWorker, Store.create, hvalid]
  simp only [hchannel, bind, Except.bind]
  rfl

theorem fill_of_accepts (h : builder.Accepts files) (backend : Backend K V S)
    (serializer : Bool → Serializer K V) (entries : List (K × V)) :
    builder.fill backend serializer entries =
      .ok ⟨builder.freshStore backend (serializer builder.pretty), backend.load entries,
        builder.freshWorker⟩ := by
  rw [fill, worker_of_accepts h]
  simp only [Except.mapError, bind, Except.bind, create_of_accepts h]

theorem build_eq_entries (builder : Builder K V σ) (backend : Backend K V S)
    (serializer : Bool → Serializer K V) (files : FileTree) :
    builder.build backend serializer files = (do
      let entries ← builder.entries? (serializer builder.pretty) files
      builder.fill backend serializer entries) := by
  rw [build_eq, entries?]
  cases builder.check files <;> rfl

theorem accepts_of_entries {entries : List (K × V)}
    (h : builder.entries? serializer files = .ok entries) : builder.Accepts files := by
  rw [accepts_iff]
  cases hcheck : builder.check files with
  | ok _ => rfl
  | error error =>
      rw [entries?, hcheck] at h
      cases h

end Builder

namespace Estate

variable (estate : Estate K V S σ) (builder : Builder K V σ) (backend : Backend K V S)
  (serializer : Bool → Serializer K V)

-- A fresh store whose map has been loaded, with the worker and the handle that it comes with.
def opened (entries : List (K × V)) : Estate K V S σ :=
  estate.adopt
    ⟨builder.freshStore backend (serializer builder.pretty), backend.load entries,
      builder.freshWorker⟩
    ⟨some estate.cells.length, builder.freshWorker.map fun _ => estate.posts.length⟩

theorem openStore_eq : estate.openStore builder backend serializer =
    (builder.entries? (serializer builder.pretty) estate.files).map fun entries =>
      (estate.handles.length, estate.opened builder backend serializer entries) := by
  rw [openStore, builder.build_eq_entries]
  cases hentries : builder.entries? (serializer builder.pretty) estate.files with
  | error failure => rfl
  | ok entries =>
      have hfill := Builder.fill_of_accepts (Builder.accepts_of_entries hentries) backend
        serializer entries
      simp only [bind, Except.bind, hfill]
      rfl

end Estate

end SnapshotStore
