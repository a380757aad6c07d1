import SnapshotStore.Proofs.Persistence.Load
import SnapshotStore.Proofs.Persistence.Replacement

namespace SnapshotStore

namespace FileTree

-- The way to the path's directory leads over the path's own entry, which then is a link.
def LeadsOverItself (tree : FileTree) (path : Path) : Prop :=
  ∃ entry, tree.entryOf path = .ok entry ∧ (tree.erase entry).parentOf path ≠ tree.parentOf path

end FileTree

namespace Persistence

open FileTree

variable {K V ω : Type} {before tree after : FileTree} {path : Path} {content : Bytes}
  {stage : Stage}

theorem Fits.run {exchanges : List (Exchange K V)} (hfits : Fits before path content stage tree)
    (hclear : before.Clear path) (hadmits : (replacement K V path content).Admits stage exchanges)
    (hserves : tree.ServesAll exchanges after) :
    Fits before path content ((replacement K V path content).along stage exchanges) after := by
  induction exchanges generalizing stage tree with
  | nil =>
      obtain rfl : after = tree := hserves
      exact hfits
  | cons exchange rest ih =>
      obtain ⟨middle, hmiddle, hrest⟩ := hserves
      exact ih (hfits.step hclear (hadmits.1.turn exchange.response) hmiddle) hadmits.2 hrest

theorem Fits.holds (hfits : Fits before path content stage tree) (hstage : stage ≠ .replaced) :
    tree = before ∨ ∃ location, Holds before path location tree := by
  cases stage with
  | unopened => exact .inl hfits
  | refused => exact .inl hfits
  | opened location written => exact .inr ⟨location, hfits.1⟩
  | synced location => exact .inr ⟨location, hfits.1⟩
  | spoiled location => exact .inr ⟨location, hfits.1⟩
  | dropped =>
      obtain ⟨location, hholds, -⟩ := hfits
      exact .inr ⟨location, hholds⟩
  | replaced => exact absurd rfl hstage

theorem Holds.clear {location : Location} (h : Holds before path location tree)
    (hclear : before.Clear path) : tree.Clear path :=
  hclear.of_sameBut h.entry h.same

theorem Fits.look_eq (hfits : Fits before path content stage tree) (hclear : before.Clear path)
    (hstage : stage ≠ .replaced) : tree.look path = before.look path := by
  rcases hfits.holds hstage with rfl | ⟨location, hholds⟩
  · rfl
  · exact FileTree.look_eq hholds.same fun landing => hclear.apart location landing hholds.entry

theorem Holds.look_temporary {location : Location} (h : Holds before path location tree)
    (hnode : tree.node? location = none) : tree.look path.temporary = .ok none :=
  look_of_missing (entryOf_of_sameBut h.same h.entry) hnode

-- What the new content takes the place of in the files without the temporary file.
theorem Holds.takes {location parent : Location} {name : String}
    (h : Holds before path location tree) (hclear : before.Clear path)
    (htakes : Takes before path parent name) :
    location ≠ name :: parent ∧ Takes tree path parent name := by
  have hne := hclear.entry_ne h.entry htakes.parentOf htakes.size
  refine ⟨hne, parentOf_of_sameBut h.same htakes.parentOf, htakes.size, ?_⟩
  rw [h.same.node _ (Ne.symm hne)]
  exact htakes.directory

-- The way to the file is open just if it does not need the entry that the file took.
theorem Holds.parentOf_set {location parent : Location} {name : String}
    (h : Holds before path location tree) (hclear : before.Clear path)
    (htakes : Takes before path parent name) :
    (tree.set (name :: parent) (.file content)).parentOf path =
        .ok (parent, .ordinary name false) ↔
      (before.erase (name :: parent)).parentOf path = .ok (parent, .ordinary name false) := by
  obtain ⟨hne, -⟩ := h.takes hclear htakes
  have hset := h.same.set hne (.file content)
  have herase : SameBut (name :: parent) (before.set (name :: parent) (.file content))
      (before.erase (name :: parent)) := sameBut_set_erase (List.cons_ne_nil _ _) content
  constructor
  · exact fun hopen => parentOf_of_sameBut herase (parentOf_of_sameBut hset.symm hopen)
  · exact fun hopen => parentOf_of_sameBut hset (parentOf_of_sameBut herase.symm hopen)

theorem Takes.entryOf {parent : Location} {name : String} (h : Takes before path parent name) :
    before.entryOf path = .ok (name :: parent) :=
  entryOf_of_parentOf h.parentOf h.size

theorem Takes.leadsOverItself_iff {parent : Location} {name : String}
    (h : Takes before path parent name) : before.LeadsOverItself path ↔
      (before.erase (name :: parent)).parentOf path ≠ .ok (parent, .ordinary name false) := by
  unfold LeadsOverItself
  rw [h.entryOf, h.parentOf]
  exact ⟨fun ⟨entry, hentry, hne⟩ => Except.ok.inj hentry ▸ hne, fun hne => ⟨_, rfl, hne⟩⟩

theorem Fits.node?_replaced (hfits : Fits before path content .replaced tree) :
    ∃ entry, before.entryOf path = .ok entry ∧ tree.node? entry = some (.file content) := by
  obtain ⟨location, parent, name, middle, -, -, htakes, rfl⟩ := hfits
  exact ⟨_, htakes.entryOf, node?_set_self (List.cons_ne_nil _ _) _⟩

theorem Fits.look_replaced (hfits : Fits before path content .replaced tree)
    (hclear : before.Clear path) (hopen : ¬before.LeadsOverItself path) :
    tree.look path = .ok (some (.file content)) := by
  obtain ⟨location, parent, name, middle, hholds, -, htakes, rfl⟩ := hfits
  rw [htakes.leadsOverItself_iff, Classical.not_not] at hopen
  exact look_of_file ((hholds.parentOf_set hclear htakes).mpr hopen) htakes.size
    (node?_set_self (List.cons_ne_nil _ _) _)

theorem Fits.look_unreachable (hfits : Fits before path content .replaced tree)
    (hclear : before.Clear path) (hover : before.LeadsOverItself path) :
    tree.look path = .ok none := by
  obtain ⟨location, parent, name, middle, hholds, -, htakes, rfl⟩ := hfits
  rw [htakes.leadsOverItself_iff] at hover
  obtain ⟨-, hmiddle⟩ := hholds.takes hclear htakes
  rcases parentOf_set_own content hmiddle.parentOf hmiddle.size hmiddle.directory with
    hopen | ⟨hblocked, -⟩
  · exact absurd ((hholds.parentOf_set hclear htakes).mp hopen) hover
  · exact look_of_parentOf_error rfl hblocked

-- A path under which something but a directory was found does not lead over its own entry.
theorem Takes.not_leadsOverItself {parent : Location} {name : String} {found : Option Node}
    (h : Takes before path parent name) (hlook : before.look path = .ok found)
    (hfound : found ≠ some .directory) : ¬before.LeadsOverItself path := by
  rw [h.leadsOverItself_iff, Classical.not_not]
  have herase : SameBut (name :: parent) (before.set (name :: parent) (.file []))
      (before.erase (name :: parent)) := sameBut_set_erase (List.cons_ne_nil _ _) []
  rcases parentOf_set_own [] h.parentOf h.size h.directory with hopen | ⟨-, hdirectory | hcycle⟩
  · exact parentOf_of_sameBut herase hopen
  · exact absurd (Except.ok.inj (hlook.symm.trans hdirectory)) hfound
  · cases hlook.symm.trans hcycle

theorem Fits.look_of_readable (hfits : Fits before path content .replaced tree)
    (hclear : before.Clear path) (hreadable : before.Readable path) :
    tree.look path = .ok (some (.file content)) := by
  obtain ⟨found, hlook, hfound⟩ := hreadable
  obtain ⟨location, parent, name, middle, -, -, htakes, -⟩ := id hfits
  exact hfits.look_replaced hclear (htakes.not_leadsOverItself hlook hfound)

-- The temporary file has gone, be it that its directory is not found any more.
theorem Fits.look_temporary (hfits : Fits before path content .replaced tree)
    (hclear : before.Clear path) : tree.look path.temporary = .ok none := by
  obtain ⟨location, parent, name, middle, hholds, hnode, htakes, rfl⟩ := hfits
  obtain ⟨hne, hmiddle⟩ := hholds.takes hclear htakes
  obtain ⟨there, last, slash, hparent, hsize, rfl⟩ :=
    parentOf_of_entryOf (entryOf_of_sameBut hholds.same hholds.entry)
  rcases FileTree.parentOf_set content hparent hmiddle.directory with hopen | ⟨hblocked, -⟩
  · apply look_of_missing (entryOf_of_parentOf hopen hsize)
    rw [node?_set_of_ne (Ne.symm hne), hnode]
  · exact look_of_parentOf_error rfl hblocked

theorem Fits.clear (hfits : Fits before path content stage tree) (hclear : before.Clear path) :
    tree.Clear path := by
  by_cases hstage : stage = .replaced
  · subst hstage
    have hreplaced := hfits
    obtain ⟨location, parent, name, middle, hholds, hnode, htakes, rfl⟩ := hfits
    obtain ⟨hne, hmiddle⟩ := hholds.takes hclear htakes
    obtain ⟨there, last, slash, hparent, hsize, rfl⟩ :=
      parentOf_of_entryOf (entryOf_of_sameBut hholds.same hholds.entry)
    -- If the temporary file is still named at all, then by its old place.
    have hentry : ∀ entry, (middle.set (name :: parent) (.file content)).entryOf path.temporary =
        .ok entry → entry = last :: there := by
      intro entry hentry
      rcases FileTree.parentOf_set content hparent hmiddle.directory with hopen | ⟨hblocked, -⟩
      · exact Except.ok.inj (hentry.symm.trans (entryOf_of_parentOf hopen hsize))
      · simp [entryOf, hblocked, bind, Except.bind] at hentry
    constructor
    · intro entry h node hfound
      rw [hentry entry h, node?_set_of_ne (Ne.symm hne), hnode] at hfound
      cases hfound
    · intro entry landing h hlanding
      rw [hentry entry h]
      rcases parentOf_set_own content hmiddle.parentOf hmiddle.size hmiddle.directory with
        hopen | ⟨hblocked, -⟩
      · obtain ⟨-, -, -, hdot, hdots, -⟩ := parentOf_ordinary _ hopen
        obtain ⟨left, -, hresolve⟩ := resolve_of_parentOf hopen true
        rw [hresolve, follow_single_file left hdot hdots hmiddle.size
          (node?_set_self (List.cons_ne_nil _ _) _)] at hlanding
        obtain rfl := Except.ok.inj hlanding
        exact Ne.symm hne
      · rw [resolve_of_parentOf_error hblocked] at hlanding
        cases hlanding
  · rcases hfits.holds hstage with rfl | ⟨location, hholds⟩
    · exact hclear
    · exact hholds.clear hclear

theorem Fits.node?_elsewhere (hfits : Fits before path content stage tree) {location : Location}
    (hpath : before.entryOf path ≠ .ok location)
    (htemporary : before.entryOf path.temporary ≠ .ok location) :
    tree.node? location = before.node? location := by
  have hsame : ∀ {there : Location} {tree : FileTree}, Holds before path there tree →
      tree.node? location = before.node? location := by
    intro there tree hholds
    apply hholds.same.node location
    rintro rfl
    exact htemporary hholds.entry
  by_cases hstage : stage = .replaced
  · subst hstage
    obtain ⟨there, parent, name, middle, hholds, -, htakes, rfl⟩ := hfits
    rw [node?_set_of_ne, hsame hholds]
    rintro rfl
    exact hpath htakes.entryOf
  · rcases hfits.holds hstage with rfl | ⟨there, hholds⟩
    · rfl
    · exact hsame hholds

-- A stage that is entered by one kind of exchange alone, and never left, tells whether there was
-- such an exchange.
theorem along_eq_iff (final : Stage) (mark : Exchange K V → Bool)
    (hmark : ∀ {stage next : Stage} {exchange : Exchange K V},
      Turn path content stage exchange next → (next = final ↔ stage = final ∨ mark exchange = true))
    {exchanges : List (Exchange K V)}
    (hadmits : (replacement K V path content).Admits stage exchanges) :
    (replacement K V path content).along stage exchanges = final ↔
      stage = final ∨ exchanges.any mark = true := by
  induction exchanges generalizing stage with
  | nil => simp [Protocol.along]
  | cons exchange rest ih =>
      apply (ih hadmits.2).trans
      rw [List.any_cons, Bool.or_eq_true, ← or_assoc]
      exact or_congr_left (hmark (hadmits.1.turn exchange.response))

-- What a replacement has come to that was begun on the files `before`, after some exchanges, with
-- `rest` left to do.
structure Atomic (before : FileTree) (path : Path) (content : Bytes)
    (exchanges : List (Exchange K V)) (rest : Routine K V ω (Except Failure Unit))
    (after : FileTree) : Prop where
  -- a reader finds what was there before, and after the renaming exactly the new content
  unchanged : exchanges.any Exchange.renames = false →
    after.look path = before.look path
  replaced : exchanges.any Exchange.renames = true →
    ¬before.LeadsOverItself path → after.look path = .ok (some (.file content))
  unreachable : exchanges.any Exchange.renames = true →
    before.LeadsOverItself path → after.look path = .ok none
  entry : exchanges.any Exchange.renames = true →
    ∃ entry, before.entryOf path = .ok entry ∧ after.node? entry = some (.file content)
  -- nothing happens if the temporary file cannot be opened
  refused : exchanges.any Exchange.refuses = true →
    rest = .done (.error (.store (.io (.openTemporary path.temporary)))) ∧ after = before
  -- a failure leaves the content alone and no temporary file
  failed (failure : Failure) : rest = .done (.error failure) →
    ∃ cause, failure = .store (.io cause) ∧ after.look path = before.look path ∧
      (cause = .openTemporary path.temporary ∧ after = before ∨
        after.look path.temporary = .ok none)
  finished : rest = .done (.ok ()) → exchanges.any Exchange.renames = true ∧
    after.look path.temporary = .ok none
  elsewhere (location : Location) : before.entryOf path ≠ .ok location →
    before.entryOf path.temporary ≠ .ok location → after.node? location = before.node? location
  -- what an interrupted replacement leaves behind does not stand in the way of the next one
  clear : after.Clear path

theorem Fits.look_dropped (hfits : Fits before path content .dropped tree) :
    tree.look path.temporary = .ok none := by
  obtain ⟨location, hholds, hnode⟩ := hfits
  exact hholds.look_temporary hnode

-- Any prefix of a replacement, with any of its steps failing, is all or nothing.
theorem replaceFile_atomic (chunks : List Bytes) {exchanges : List (Exchange K V)}
    {rest : Routine K V ω (Except Failure Unit)} (hclear : before.Clear path)
    (hfollows : (replaceFile path chunks : Action K V ω Unit).run.Follows exchanges rest)
    (hserves : before.ServesAll exchanges after) :
    Atomic before path chunks.flatten exchanges rest after := by
  have hadmits := hfollows.admits (obeys_replaceFile path chunks)
  have hrest := hfollows.obeys (obeys_replaceFile path chunks)
  have hstart : Fits before path chunks.flatten .unopened before := rfl
  have hfits := hstart.run hclear hadmits hserves
  have hreplaced := along_eq_iff .replaced Exchange.renames Turn.eq_replaced_iff hadmits
  have hrefused := along_eq_iff .refused Exchange.refuses Turn.eq_refused_iff hadmits
  generalize (replacement K V path chunks.flatten).along .unopened exchanges = stage
    at hrest hfits hreplaced hrefused
  simp only [reduceCtorEq, false_or] at hreplaced hrefused
  have hends : ∀ outcome, rest = .done outcome → stage.EndsWith path outcome := by
    rintro outcome rfl
    exact hrest
  exact {
    unchanged := fun h => hfits.look_eq hclear fun hstage =>
      Bool.false_ne_true (h.symm.trans (hreplaced.mp hstage))
    replaced := by
      rw [← hreplaced]
      rintro rfl
      exact hfits.look_replaced hclear
    unreachable := by
      rw [← hreplaced]
      rintro rfl
      exact hfits.look_unreachable hclear
    entry := by
      rw [← hreplaced]
      rintro rfl
      exact hfits.node?_replaced
    refused := by
      rw [← hrefused]
      rintro rfl
      cases rest with
      | done outcome => exact ⟨congrArg Routine.done hrest, hfits⟩
      | call request next => exact hrest.1.elim
      | aside act next => exact hrest.1.elim
    failed := fun failure hdone => by
      have hend := hends _ hdone
      cases stage with
      | refused =>
          obtain rfl := Except.error.inj hend
          exact ⟨_, rfl, hfits.look_eq hclear (by simp), .inl ⟨rfl, hfits⟩⟩
      | dropped =>
          rcases hend with hcause | ⟨reason, hcause⟩
          · obtain rfl := Except.error.inj hcause
            exact ⟨_, rfl, hfits.look_eq hclear (by simp), .inr hfits.look_dropped⟩
          · obtain rfl := Except.error.inj hcause
            exact ⟨_, rfl, hfits.look_eq hclear (by simp), .inr hfits.look_dropped⟩
      | replaced => cases hend
      | _ => exact hend.elim
    finished := fun hdone => by
      have hend := hends _ hdone
      cases stage with
      | replaced => exact ⟨hreplaced.mp rfl, hfits.look_temporary hclear⟩
      | refused => cases hend
      | dropped =>
          rcases hend with hcause | ⟨reason, hcause⟩
          · cases hcause
          · cases hcause
      | _ => exact hend.elim
    elsewhere := fun location => hfits.node?_elsewhere
    clear := hfits.clear hclear }

-- The exchanges of a replacement that meets no failure.
def smoothly (path : Path) (location : Location) (content : Bytes) : List (Exchange Unit Unit) :=
  [⟨.create path.temporary, .ok location⟩, ⟨.append location content, .ok ()⟩,
    ⟨.sync location, .ok ()⟩, ⟨.rename path.temporary path, .ok ()⟩]

theorem follows_smoothly (path : Path) (location : Location) (content : Bytes) :
    (replaceFile path [content] : Action Unit Unit Unit Unit).run.Follows
      (smoothly path location content) (.done (.ok ())) :=
  .cons (.cons (.cons (.cons (.start _))))

-- A link in the place of the file, which stays as it is at its far end, and what an interrupted
-- replacement has left behind.
def linkedFile : FileTree :=
  ⟨.ofEntries [(["a"], .link ⟨"b"⟩), (["b"], .file [1, 2]), (["a.json.tmp"], .file [3])], [], []⟩

theorem replaceFile_atomic_linkedFile : ∃ after : FileTree,
    linkedFile.ServesAll (smoothly ⟨"a"⟩ ["a.json.tmp"] [7, 8]) after ∧
    linkedFile.look ⟨"a"⟩ = .ok (some (.file [1, 2])) ∧
    after.node? ["b"] = some (.file [1, 2]) ∧ after.node? ["a"] = some (.file [7, 8]) ∧
    Atomic linkedFile ⟨"a"⟩ [7, 8] (smoothly ⟨"a"⟩ ["a.json.tmp"] [7, 8])
      (.done (.ok ()) : Routine Unit Unit Unit (Except Failure Unit)) after := by
  have hleft : linkedFile.node? ["a.json.tmp"] = some (.file [3]) := rfl
  have hclear : linkedFile.Clear ⟨"a"⟩ :=
    clear_of_resolve ["a.json.tmp"] (.found ["b"] (.file [1, 2])) rfl (isPlain_of_file hleft) rfl
      (by decide)
  have hserves : linkedFile.ServesAll (smoothly ⟨"a"⟩ ["a.json.tmp"] [7, 8])
      ((((linkedFile.set ["a.json.tmp"] (.file [])).set ["a.json.tmp"] (.file [7, 8])).erase
        ["a.json.tmp"]).set ["a"] (.file [7, 8])) :=
    ⟨_, rfl, _, rfl, _, rfl, _, rfl, rfl⟩
  exact ⟨_, hserves, rfl, rfl, rfl,
    replaceFile_atomic [[7, 8]] hclear (follows_smoothly _ _ _) hserves⟩

-- A link to the directory that holds it.
def selfLinked : FileTree :=
  ⟨.ofEntries [(["a"], .link ⟨"."⟩)], [], []⟩

-- The new content is not found under a path that leads over the link it takes the place of.
theorem replaceFile_selfLinked : ¬∀ (before after : FileTree) (path : Path) (chunks : List Bytes)
    (exchanges : List (Exchange Unit Unit)) (rest : Routine Unit Unit Unit (Except Failure Unit)),
    before.Clear path →
    (replaceFile path chunks : Action Unit Unit Unit Unit).run.Follows exchanges rest →
    before.ServesAll exchanges after → exchanges.any Exchange.renames = true →
    after.look path = .ok (some (.file chunks.flatten)) := by
  intro h
  have hclear : selfLinked.Clear ⟨"a/a"⟩ :=
    clear_of_resolve ["a.json.tmp"] (.found [] .directory) rfl (isPlain_of_none rfl) rfl
      (by decide)
  have hserves : selfLinked.ServesAll (smoothly ⟨"a/a"⟩ ["a.json.tmp"] [7])
      ((((selfLinked.set ["a.json.tmp"] (.file [])).set ["a.json.tmp"] (.file [7])).erase
        ["a.json.tmp"]).set ["a"] (.file [7])) :=
    ⟨_, rfl, _, rfl, _, rfl, _, rfl, rfl⟩
  have hlook := h _ _ _ _ _ _ hclear (follows_smoothly _ _ _) hserves rfl
  have hnone : ((((selfLinked.set ["a.json.tmp"] (.file [])).set ["a.json.tmp"] (.file [7])).erase
      ["a.json.tmp"]).set ["a"] (.file [7])).look ⟨"a/a"⟩ = .ok none := rfl
  cases hnone.symm.trans hlook

end Persistence

end SnapshotStore
