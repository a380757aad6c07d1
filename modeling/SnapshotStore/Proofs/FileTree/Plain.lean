import SnapshotStore.Proofs.FileTree.Walk

namespace SnapshotStore

def Landing.location : Landing → Location
  | .found location _ => location
  | .missing parent name => name :: parent

def Landing.IsPlainAt (landing : Landing) (location : Location) : Prop :=
  landing.location = location ∧ ∀ node, landing = .found location node → ∃ content,
    node = .file content

namespace FileTree

-- What one who looks at a path finds there: a node, nothing, or a refusal.
def look (tree : FileTree) (path : Path) : Except Errno (Option Node) :=
  match tree.stat path with
  | .ok node => .ok (some node)
  | .error reason => if reason.isAbsence then .ok none else .error reason

def IsPlain (tree : FileTree) (location : Location) : Prop :=
  ∀ node, tree.node? location = some node → ∃ content, node = .file content

structure SameBut (location : Location) (before after : FileTree) : Prop where
  home : after.home = before.home
  closed : after.closed = before.closed
  node : ∀ l, l ≠ location → after.node? l = before.node? l
  plain_before : before.IsPlain location
  plain_after : after.IsPlain location

theorem IsPlain.ne_nil {tree : FileTree} {location : Location} (h : tree.IsPlain location) :
    location ≠ [] := by
  rintro rfl
  obtain ⟨content, hcontent⟩ := h .directory (by simp [node?])
  cases hcontent

theorem IsPlain.cases {tree : FileTree} {location : Location} (h : tree.IsPlain location) :
    tree.node? location = none ∨ ∃ content, tree.node? location = some (.file content) := by
  cases hnode : tree.node? location with
  | none => exact .inl rfl
  | some node =>
      obtain ⟨content, rfl⟩ := h node hnode
      exact .inr ⟨content, rfl⟩

theorem isPlain_of_none {tree : FileTree} {location : Location}
    (h : tree.node? location = none) : tree.IsPlain location :=
  fun _ hnode => by cases h.symm.trans hnode

theorem isPlain_of_file {tree : FileTree} {location : Location} {content : Bytes}
    (h : tree.node? location = some (.file content)) : tree.IsPlain location :=
  fun _ hnode => ⟨content, Option.some.inj (hnode.symm.trans h)⟩

theorem SameBut.refl {location : Location} {tree : FileTree} (h : tree.IsPlain location) :
    SameBut location tree tree :=
  ⟨rfl, rfl, fun _ _ => rfl, h, h⟩

theorem SameBut.symm {location : Location} {before after : FileTree}
    (h : SameBut location before after) : SameBut location after before :=
  ⟨h.home.symm, h.closed.symm, fun l hl => (h.node l hl).symm, h.plain_after, h.plain_before⟩

theorem SameBut.trans {location : Location} {before middle after : FileTree}
    (h : SameBut location before middle) (h' : SameBut location middle after) :
    SameBut location before after :=
  ⟨h'.home.trans h.home, h'.closed.trans h.closed,
    fun l hl => (h'.node l hl).trans (h.node l hl), h.plain_before, h'.plain_after⟩

-- Two walks that end in the same way, or both at the location, or both at nothing.
inductive StopsAlike (location : Location) : Stop → Stop → Prop where
  | same (stop : Stop) : StopsAlike location stop stop
  | there {landing landing' : Landing} : landing.IsPlainAt location →
      landing'.IsPlainAt location → StopsAlike location (.landed landing) (.landed landing')
  | absent {reason reason' : Errno} : reason.isAbsence = true → reason'.isAbsence = true →
      StopsAlike location (.refused reason) (.refused reason')

inductive EndsAlike (location : Location) : Except Errno Landing → Except Errno Landing → Prop where
  | same (outcome : Except Errno Landing) : EndsAlike location outcome outcome
  | there {landing landing' : Landing} : landing.IsPlainAt location →
      landing'.IsPlainAt location → EndsAlike location (.ok landing) (.ok landing')
  | absent {reason reason' : Errno} : reason.isAbsence = true → reason'.isAbsence = true →
      EndsAlike location (.error reason) (.error reason')

theorem isPlainAt_missing (parent : Location) (name : String) :
    (Landing.missing parent name).IsPlainAt (name :: parent) :=
  ⟨rfl, fun _ h => by cases h⟩

theorem isPlainAt_file (location : Location) (content : Bytes) :
    (Landing.found location (.file content)).IsPlainAt location :=
  ⟨rfl, fun _ h => by cases h; exact ⟨content, rfl⟩⟩

variable {location : Location} {before after : FileTree}

theorem walk_alike (h : SameBut location before after) (followLast : Bool) (here : Location)
    (names : List String) : StopsAlike location (before.walk followLast here names)
      (after.walk followLast here names) := by
  induction names generalizing here with
  | nil => exact .same _
  | cons name names ih =>
      by_cases hdot : name = "."
      · simp only [walk, if_pos hdot]
        exact ih here
      by_cases hdots : name = ".."
      · simp only [walk, if_neg hdot, if_pos hdots]
        exact ih here.tail
      by_cases hlong : Path.nameLimit < name.utf8ByteSize
      · simp only [walk, if_neg hdot, if_neg hdots, if_pos hlong]
        exact .same _
      simp only [walk, if_neg hdot, if_neg hdots, if_neg hlong]
      by_cases hhere : name :: here = location
      · subst hhere
        -- Whatever is at the location, the walk ends here or is refused as if nothing were there.
        cases names with
        | nil =>
            rcases h.plain_before.cases with hb | ⟨c, hb⟩ <;>
              rcases h.plain_after.cases with ha | ⟨c', ha⟩ <;>
              simp only [hb, ha, List.isEmpty_nil, if_true]
            · exact .there (isPlainAt_missing _ _) (isPlainAt_missing _ _)
            · exact .there (isPlainAt_missing _ _) (isPlainAt_file _ _)
            · exact .there (isPlainAt_file _ _) (isPlainAt_missing _ _)
            · exact .there (isPlainAt_file _ _) (isPlainAt_file _ _)
        | cons next rest =>
            rcases h.plain_before.cases with hb | ⟨c, hb⟩ <;>
              rcases h.plain_after.cases with ha | ⟨c', ha⟩ <;>
              simp only [hb, ha, List.isEmpty_cons, Bool.false_eq_true, if_false]
            all_goals exact .absent rfl rfl
      · rw [h.node _ hhere]
        cases hnode : before.node? (name :: here) with
        | none => exact .same _
        | some node =>
            cases node with
            | directory => exact ih _
            | link target => exact .same _
            | file content => exact .same _
            | socket => exact .same _
            | device kind => exact .same _

theorem follow_alike (h : SameBut location before after) (followLast : Bool) (links : Nat)
    (here : Location) (names : List String) :
    EndsAlike location (before.follow followLast links here names)
      (after.follow followLast links here names) := by
  induction links generalizing here names with
  | zero =>
      have hwalk := walk_alike h followLast here names
      generalize hb : before.walk followLast here names = stop at hwalk
      generalize ha : after.walk followLast here names = stop' at hwalk
      cases hwalk with
      | there hl hl' =>
          rw [follow_of_landed _ 0 hb, follow_of_landed _ 0 ha]
          exact .there hl hl'
      | absent hr hr' =>
          rw [follow_of_refused _ 0 hb, follow_of_refused _ 0 ha]
          exact .absent hr hr'
      | same =>
          cases stop with
          | landed landing =>
              rw [follow_of_landed _ 0 hb, follow_of_landed _ 0 ha]
              exact .same _
          | refused reason =>
              rw [follow_of_refused _ 0 hb, follow_of_refused _ 0 ha]
              exact .same _
          | link target parent rest =>
              rw [follow_zero_of_link _ hb, follow_zero_of_link _ ha]
              exact .same _
  | succ links ih =>
      have hwalk := walk_alike h followLast here names
      generalize hb : before.walk followLast here names = stop at hwalk
      generalize ha : after.walk followLast here names = stop' at hwalk
      cases hwalk with
      | there hl hl' =>
          rw [follow_of_landed _ _ hb, follow_of_landed _ _ ha]
          exact .there hl hl'
      | absent hr hr' =>
          rw [follow_of_refused _ _ hb, follow_of_refused _ _ ha]
          exact .absent hr hr'
      | same =>
          cases stop with
          | landed landing =>
              rw [follow_of_landed _ _ hb, follow_of_landed _ _ ha]
              exact .same _
          | refused reason =>
              rw [follow_of_refused _ _ hb, follow_of_refused _ _ ha]
              exact .same _
          | link target parent rest =>
              rw [follow_succ_of_link _ links hb, follow_succ_of_link _ links ha]
              exact ih _ _

theorem resolve_alike (h : SameBut location before after) (followLast : Bool) (path : Path) :
    EndsAlike location (before.resolve followLast path) (after.resolve followLast path) := by
  unfold resolve
  cases checkLength path with
  | error reason => exact .same _
  | ok _ =>
      rw [h.home]
      exact follow_alike h followLast linkLimit _ _

-- A path that does not lead to the location leads to the same node as before.
theorem look_eq (h : SameBut location before after) {path : Path}
    (hapart : ∀ landing, before.resolve true path = .ok landing → landing.location ≠ location) :
    after.look path = before.look path := by
  have halike := resolve_alike h true path
  generalize hb : before.resolve true path = outcome at halike
  generalize ha : after.resolve true path = outcome' at halike
  unfold look stat
  rw [ha, hb]
  cases halike with
  | same => rfl
  | there hl _ => exact absurd hl.1 (hapart _ hb)
  | absent hr hr' => simp [bind, Except.bind, hr, hr']

theorem apart_of_sameBut (h : SameBut location before after) {path : Path}
    (hapart : ∀ landing, before.resolve true path = .ok landing → landing.location ≠ location)
    (landing : Landing) (hlanding : after.resolve true path = .ok landing) :
    landing.location ≠ location := by
  have halike := resolve_alike h true path
  generalize hb : before.resolve true path = outcome at halike
  rw [hlanding] at halike
  cases halike with
  | same => exact hapart landing hb
  | there hl _ => exact absurd hl.1 (hapart _ hb)

-- A directory that is found is found in the one tree as in the other.
theorem parentOf_of_sameBut (h : SameBut location before after) {path : Path}
    {found : Location × LastName} (hfound : before.parentOf path = .ok found) :
    after.parentOf path = .ok found := by
  unfold parentOf at hfound ⊢
  rw [h.home]
  cases hlength : checkLength path with
  | error reason => simp [hlength, bind, Except.bind] at hfound
  | ok _ =>
      simp only [hlength, bind, Except.bind] at hfound ⊢
      cases hlast : path.names.getLast? with
      | none => simpa [hlast] using hfound
      | some name =>
          simp only [hlast] at hfound ⊢
          have halike :=
            follow_alike h true linkLimit (start path before.home) path.names.dropLast
          generalize before.follow true linkLimit (start path before.home)
            path.names.dropLast = outcome at halike hfound
          generalize after.follow true linkLimit (start path before.home)
            path.names.dropLast = outcome' at halike ⊢
          cases halike with
          | same => exact hfound
          | absent hr _ => simp at hfound
          | @there landing landing' hl _ =>
              cases landing with
              | missing parent last => simp at hfound
              | found there node =>
                  obtain rfl : there = location := hl.1
                  obtain ⟨content, rfl⟩ := hl.2 node rfl
                  simp at hfound

theorem entryOf_of_sameBut (h : SameBut location before after) {path : Path} {entry : Location}
    (hentry : before.entryOf path = .ok entry) : after.entryOf path = .ok entry := by
  unfold entryOf at hentry ⊢
  cases hparent : before.parentOf path with
  | error reason => simp [hparent, bind, Except.bind] at hentry
  | ok found =>
      rw [hparent] at hentry
      rw [parentOf_of_sameBut h hparent]
      exact hentry

end FileTree

end SnapshotStore
