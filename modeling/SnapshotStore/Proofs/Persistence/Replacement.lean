import SnapshotStore.Proofs.FileTree.Cover
import SnapshotStore.Proofs.Persistence.Stages
import SnapshotStore.Proofs.Routine.Files

namespace SnapshotStore

namespace FileTree

-- The temporary file belongs to its path alone: nothing but a plain file was ever put under its
-- name, and the path itself does not lead there.
structure Clear (tree : FileTree) (path : Path) : Prop where
  plain (entry : Location) : tree.entryOf path.temporary = .ok entry → tree.IsPlain entry
  apart (entry : Location) (landing : Landing) : tree.entryOf path.temporary = .ok entry →
    tree.resolve true path = .ok landing → landing.location ≠ entry

variable {before after : FileTree} {path : Path} {location : Location}

theorem clear_of_resolve (location : Location) (landing : Landing)
    (hentry : before.entryOf path.temporary = .ok location) (hplain : before.IsPlain location)
    (hresolve : before.resolve true path = .ok landing) (hne : landing.location ≠ location) :
    before.Clear path := by
  constructor
  · intro entry h
    exact Except.ok.inj (hentry.symm.trans h) ▸ hplain
  · intro entry landing' h hlanding
    obtain rfl := Except.ok.inj (hentry.symm.trans h)
    obtain rfl := Except.ok.inj (hresolve.symm.trans hlanding)
    exact hne

theorem Clear.of_sameBut (h : before.Clear path)
    (hentry : before.entryOf path.temporary = .ok location)
    (hsame : SameBut location before after) : after.Clear path := by
  have hafter := entryOf_of_sameBut hsame hentry
  constructor
  · intro entry h'
    obtain rfl := Except.ok.inj (h'.symm.trans hafter)
    exact hsame.plain_after
  · intro entry landing h' hlanding
    obtain rfl := Except.ok.inj (h'.symm.trans hafter)
    exact apart_of_sameBut hsame (fun landing => h.apart entry landing hentry) landing hlanding

-- The path's own entry is not the temporary file.
theorem Clear.entry_ne (h : before.Clear path)
    (hentry : before.entryOf path.temporary = .ok location) {parent : Location} {name : String}
    (hparent : before.parentOf path = .ok (parent, .ordinary name false))
    (hsize : name.utf8ByteSize ≤ Path.nameLimit) : location ≠ name :: parent := by
  rintro rfl
  obtain ⟨-, -, -, hdot, hdots, -⟩ := parentOf_ordinary before hparent
  obtain ⟨left, -, hresolve⟩ := resolve_of_parentOf hparent true
  rcases (h.plain _ hentry).cases with hnone | ⟨content, hfile⟩
  · rw [follow_single_missing left hdot hdots hsize hnone] at hresolve
    exact h.apart _ _ hentry hresolve rfl
  · rw [follow_single_file left hdot hdots hsize hfile] at hresolve
    exact h.apart _ _ hentry hresolve rfl

end FileTree

namespace Persistence

open FileTree

-- The temporary file was opened at a location, and nothing else has changed since.
structure Holds (before : FileTree) (path : Path) (location : Location) (tree : FileTree) :
    Prop where
  entry : before.entryOf path.temporary = .ok location
  writable : before.isClosed location.tail = false
  same : SameBut location before tree

-- The path's own entry was free for a plain file.
structure Takes (before : FileTree) (path : Path) (parent : Location) (name : String) : Prop where
  parentOf : before.parentOf path = .ok (parent, .ordinary name false)
  size : name.utf8ByteSize ≤ Path.nameLimit
  directory : before.node? (name :: parent) ≠ some .directory

def Fits (before : FileTree) (path : Path) (content : Bytes) : Stage → FileTree → Prop
  | .unopened, tree => tree = before
  | .opened location written, tree =>
    Holds before path location tree ∧ tree.node? location = some (.file written)
  | .synced location, tree =>
    Holds before path location tree ∧ tree.node? location = some (.file content)
  | .spoiled location, tree =>
    Holds before path location tree ∧ ∃ written, tree.node? location = some (.file written)
  | .refused, tree => tree = before
  | .dropped, tree =>
    ∃ location, Holds before path location tree ∧ tree.node? location = none
  | .replaced, tree => ∃ location parent name middle, Holds before path location middle ∧
    middle.node? location = none ∧ Takes before path parent name ∧
    tree = middle.set (name :: parent) (.file content)

variable {before tree after : FileTree} {path : Path} {location : Location}

theorem Holds.set (h : Holds before path location tree) (content : Bytes) :
    Holds before path location (tree.set location (.file content)) ∧
      (tree.set location (.file content)).node? location = some (.file content) :=
  ⟨⟨h.entry, h.writable, h.same.trans (sameBut_set h.same.plain_after content)⟩,
    node?_set_self h.same.plain_after.ne_nil _⟩

theorem Holds.erase (h : Holds before path location tree) :
    Holds before path location (tree.erase location) ∧
      (tree.erase location).node? location = none :=
  ⟨⟨h.entry, h.writable, h.same.trans (sameBut_erase h.same.plain_after)⟩,
    node?_erase_self h.same.plain_after.ne_nil⟩

theorem Holds.discard (h : Holds before path location tree) {written : Bytes}
    (hnode : tree.node? location = some (.file written)) :
    Holds before path location (tree.discard path.temporary) ∧
      (tree.discard path.temporary).node? location = none := by
  have hclosed : tree.isClosed location.tail = false := by
    rw [isClosed, h.same.closed]
    exact h.writable
  rw [discard_file (entryOf_of_sameBut h.same h.entry) hnode hclosed]
  exact h.erase

theorem Holds.rename (h : Holds before path location tree) {content : Bytes}
    (hnode : tree.node? location = some (.file content))
    (hrename : tree.rename path.temporary path = .ok after) (hclear : before.Clear path) :
    ∃ parent name, Takes before path parent name ∧
      after = (tree.erase location).set (name :: parent) (.file content) := by
  obtain ⟨source, parent, name, node, hsource, hmoved, hparent, hsize, hdirectory, rfl⟩ :=
    rename_eq_ok hrename
  obtain rfl := Except.ok.inj (hsource.symm.trans (entryOf_of_sameBut h.same h.entry))
  obtain rfl := Option.some.inj (hmoved.symm.trans hnode)
  have hbefore := parentOf_of_sameBut h.same.symm hparent
  have hne := hclear.entry_ne h.entry hbefore hsize
  refine ⟨parent, name, ⟨hbefore, hsize, ?_⟩, rfl⟩
  rw [← h.same.node _ (Ne.symm hne)]
  exact hdirectory

-- A step leads to files that fit the next stage.
theorem Fits.step {K V : Type} {content : Bytes} {stage next : Stage} {exchange : Exchange K V}
    (hfits : Fits before path content stage tree) (hclear : before.Clear path)
    (hturn : Turn path content stage exchange next)
    (hserves : tree.Serves exchange.request exchange.response after) :
    Fits before path content next after := by
  cases hturn with
  | opens location =>
      obtain rfl : tree = before := hfits
      obtain ⟨hentry, rfl, hwritable⟩ := create_eq_ok (fun entry => hclear.plain entry) hserves
      exact Holds.set ⟨hentry, hwritable, .refl (hclear.plain _ hentry)⟩ []
  | refuses reason =>
      obtain rfl : tree = before := hfits
      exact hserves
  | appends location written bytes =>
      obtain ⟨hholds, hnode⟩ := hfits
      obtain rfl := Except.ok.inj ((append_to_file hnode bytes).symm.trans hserves)
      exact hholds.set _
  | appendFails location written bytes reason =>
      obtain ⟨hholds, hnode⟩ := hfits
      rcases hserves with rfl | ⟨count, happend⟩
      · exact ⟨hholds, _, hnode⟩
      · obtain rfl := Except.ok.inj ((append_to_file hnode _).symm.trans happend)
        exact ⟨(hholds.set _).1, _, (hholds.set _).2⟩
  | syncs location =>
      obtain rfl : after = tree := hserves
      exact hfits
  | syncFails location reason =>
      obtain rfl : after = tree := hserves
      exact ⟨hfits.1, _, hfits.2⟩
  | renames location =>
      obtain ⟨hholds, hnode⟩ := hfits
      obtain ⟨parent, name, htakes, rfl⟩ := hholds.rename hnode hserves hclear
      exact ⟨location, parent, name, _, hholds.erase.1, hholds.erase.2, htakes, rfl⟩
  | renameFails location reason =>
      obtain rfl : after = tree := hserves
      exact ⟨hfits.1, _, hfits.2⟩
  | discards location =>
      obtain ⟨hholds, written, hnode⟩ := hfits
      have hafter : after = tree.discard path.temporary := hserves
      rw [hafter]
      exact ⟨location, hholds.discard hnode⟩

end Persistence

end SnapshotStore
