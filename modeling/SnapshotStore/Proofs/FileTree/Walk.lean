import SnapshotStore.FileTree.Operations

namespace SnapshotStore.FileTree

variable (tree : FileTree)

-- How a walk goes on when there are further names.
def walkOn (followLast : Bool) (names : List String) : Stop → Stop
  | .landed (.found there .directory) => tree.walk followLast there names
  | .landed (.found _ _) => .refused .notDirectory
  | .landed (.missing _ _) => .refused .noEntry
  | .refused reason => .refused reason
  | .link target parent rest => .link target parent (rest ++ names)

-- The first part follows every link, since names come after it.
theorem walk_append (followLast : Bool) (here : Location) (names : List String) (next : String)
    (rest : List String) : tree.walk followLast here (names ++ next :: rest) =
      tree.walkOn followLast (next :: rest) (tree.walk true here names) := by
  induction names generalizing here with
  | nil => rfl
  | cons name names ih =>
      by_cases hdot : name = "."
      · simp only [List.cons_append, walk, if_pos hdot, ih]
      by_cases hdots : name = ".."
      · simp only [List.cons_append, walk, if_neg hdot, if_pos hdots, ih]
      by_cases hlong : Path.nameLimit < name.utf8ByteSize
      · simp only [List.cons_append, walk, if_neg hdot, if_neg hdots, if_pos hlong, walkOn]
      simp only [List.cons_append, walk, if_neg hdot, if_neg hdots, if_neg hlong]
      cases hnode : tree.node? (name :: here) with
      | none => cases names <;> simp [walkOn]
      | some node =>
          cases node with
          | directory => exact ih _
          | link target => cases names <;> simp [walkOn]
          | file content => cases names <;> simp [walkOn]
          | socket => cases names <;> simp [walkOn]
          | device kind => cases names <;> simp [walkOn]

def followOn (followLast : Bool) (links : Nat) (names : List String) :
    Except Errno Landing → Except Errno Landing
  | .ok (.found there .directory) => tree.follow followLast links there names
  | .ok (.found _ _) => .error .notDirectory
  | .ok (.missing _ _) => .error .noEntry
  | .error reason => .error reason

theorem follow_of_landed {followLast : Bool} {here : Location} {names : List String}
    {landing : Landing} (links : Nat) (h : tree.walk followLast here names = .landed landing) :
    tree.follow followLast links here names = .ok landing := by
  unfold follow
  rw [h]

theorem follow_of_refused {followLast : Bool} {here : Location} {names : List String}
    {reason : Errno} (links : Nat) (h : tree.walk followLast here names = .refused reason) :
    tree.follow followLast links here names = .error reason := by
  unfold follow
  rw [h]

theorem follow_zero_of_link {followLast : Bool} {here parent : Location}
    {names rest : List String} {target : Path}
    (h : tree.walk followLast here names = .link target parent rest) :
    tree.follow followLast 0 here names = .error .tooManyLinks := by
  unfold follow
  rw [h]

theorem follow_succ_of_link {followLast : Bool} {here parent : Location}
    {names rest : List String} {target : Path} (links : Nat)
    (h : tree.walk followLast here names = .link target parent rest) :
    tree.follow followLast (links + 1) here names =
      tree.follow followLast links (start target parent) (target.steps ++ rest) := by
  rw [follow, h]

theorem follow_congr {followLast : Bool} {here there : Location} {names others : List String}
    (links : Nat) (h : tree.walk followLast here names = tree.walk followLast there others) :
    tree.follow followLast links here names = tree.follow followLast links there others := by
  unfold follow
  rw [h]

theorem follow_append_of_landed {here : Location} {names : List String} {landing : Landing}
    (hfirst : tree.walk true here names = .landed landing) (followLast : Bool) (links : Nat)
    (next : String) (rest : List String) :
    tree.follow followLast links here (names ++ next :: rest) =
      tree.followOn followLast links (next :: rest) (.ok landing) := by
  have hwalk := tree.walk_append followLast here names next rest
  rw [hfirst] at hwalk
  cases landing with
  | missing parent name => exact tree.follow_of_refused links hwalk
  | found there node =>
      cases node with
      | directory => exact tree.follow_congr links hwalk
      | file content => exact tree.follow_of_refused links hwalk
      | link target => exact tree.follow_of_refused links hwalk
      | socket => exact tree.follow_of_refused links hwalk
      | device kind => exact tree.follow_of_refused links hwalk

theorem follow_append (followLast : Bool) (links : Nat) (here : Location) (names : List String)
    (next : String) (rest : List String) : ∃ left ≤ links,
      tree.follow followLast links here (names ++ next :: rest) =
        tree.followOn followLast left (next :: rest) (tree.follow true links here names) := by
  induction links generalizing here names with
  | zero =>
      have hwalk := tree.walk_append followLast here names next rest
      refine ⟨0, Nat.le_refl _, ?_⟩
      cases hfirst : tree.walk true here names with
      | landed landing =>
          rw [tree.follow_of_landed 0 hfirst]
          exact tree.follow_append_of_landed hfirst followLast 0 next rest
      | refused reason =>
          rw [hfirst] at hwalk
          rw [tree.follow_of_refused 0 hfirst]
          exact tree.follow_of_refused 0 hwalk
      | link target parent others =>
          rw [hfirst] at hwalk
          rw [tree.follow_zero_of_link hfirst]
          exact tree.follow_zero_of_link hwalk
  | succ links ih =>
      have hwalk := tree.walk_append followLast here names next rest
      cases hfirst : tree.walk true here names with
      | landed landing =>
          refine ⟨links + 1, Nat.le_refl _, ?_⟩
          rw [tree.follow_of_landed _ hfirst]
          exact tree.follow_append_of_landed hfirst followLast _ next rest
      | refused reason =>
          refine ⟨links + 1, Nat.le_refl _, ?_⟩
          rw [hfirst] at hwalk
          rw [tree.follow_of_refused _ hfirst]
          exact tree.follow_of_refused _ hwalk
      | link target parent others =>
          rw [hfirst] at hwalk
          obtain ⟨left, hleft, h⟩ := ih (start target parent) (target.steps ++ others)
          refine ⟨left, Nat.le_succ_of_le hleft, ?_⟩
          rw [tree.follow_succ_of_link links hfirst, ← h, List.append_assoc]
          exact tree.follow_succ_of_link links hwalk

-- A walk that goes on has come to a directory before.
theorem follow_append_ok {followLast : Bool} {links : Nat} {here : Location}
    {names rest : List String} {next : String} {landing : Landing}
    (h : tree.follow followLast links here (names ++ next :: rest) = .ok landing) :
    ∃ there left, tree.follow true links here names = .ok (.found there .directory) ∧
      tree.follow followLast left there (next :: rest) = .ok landing := by
  obtain ⟨left, -, happend⟩ := tree.follow_append followLast links here names next rest
  rw [happend] at h
  cases hfirst : tree.follow true links here names with
  | error reason =>
      rw [hfirst] at h
      cases h
  | ok first =>
      rw [hfirst] at h
      cases first with
      | missing parent name => cases h
      | found there node =>
          cases node with
          | directory => exact ⟨there, left, rfl, h⟩
          | file content => cases h
          | link target => cases h
          | socket => cases h
          | device kind => cases h

theorem follow_nil (followLast : Bool) (links : Nat) (here : Location) :
    tree.follow followLast links here [] = .ok (.found here .directory) :=
  tree.follow_of_landed links rfl

theorem follow_dot (followLast : Bool) (links : Nat) (here : Location) :
    tree.follow followLast links here ["."] = .ok (.found here .directory) :=
  tree.follow_of_landed links rfl

theorem follow_dots (followLast : Bool) (links : Nat) (here : Location) :
    tree.follow followLast links here [".."] = .ok (.found here.tail .directory) :=
  tree.follow_of_landed links rfl

theorem follow_links {followLast : Bool} {links : Nat} {here : Location} {names : List String}
    {landing : Landing} (h : tree.follow followLast links here names = .ok landing) (other : Nat) :
    tree.follow followLast other here names = .ok landing ∨
      tree.follow followLast other here names = .error .tooManyLinks := by
  induction other generalizing links here names with
  | zero =>
      unfold follow at h ⊢
      cases hwalk : tree.walk followLast here names with
      | landed landing => simpa [hwalk] using h
      | refused reason => simp [hwalk] at h
      | link target parent rest => exact .inr rfl
  | succ other ih =>
      unfold follow at h ⊢
      cases hwalk : tree.walk followLast here names with
      | landed landing => simpa [hwalk] using h
      | refused reason => simp [hwalk] at h
      | link target parent rest =>
          cases links with
          | zero => simp [hwalk] at h
          | succ links => exact ih (by simpa [hwalk] using h)

theorem steps_eq_of_not_endsWithSlash {path : Path} (h : path.endsWithSlash = false) :
    path.steps = path.names := by
  simp [Path.steps, h]

theorem names_eq_of_getLast? {path : Path} {name : String} (h : path.names.getLast? = some name) :
    path.names = path.names.dropLast ++ [name] := by
  obtain ⟨front, hfront⟩ := List.getLast?_eq_some_iff.mp h
  simp [hfront]

-- A slash at the end adds one step behind the last name.
theorem steps_eq_of_getLast? {path : Path} {name : String} (h : path.names.getLast? = some name) :
    ∃ rest, path.steps = path.names.dropLast ++ name :: rest ∧ (rest = [] ∨ rest = ["."]) := by
  unfold Path.steps
  split
  · refine ⟨["."], ?_, .inr rfl⟩
    have hnames := congrArg (· ++ ["."]) (names_eq_of_getLast? h)
    exact hnames.trans (List.append_cons _ _ _).symm
  · exact ⟨[], names_eq_of_getLast? h, .inl rfl⟩

theorem resolve_eq_follow {path : Path} (hlength : checkLength path = .ok ())
    (followLast : Bool) : tree.resolve followLast path =
      tree.follow followLast linkLimit (start path tree.home) path.steps := by
  simp only [resolve, hlength]
  rfl

theorem parentOf_ordinary {path : Path} {parent : Location} {name : String} {slash : Bool}
    (h : tree.parentOf path = .ok (parent, .ordinary name slash)) :
    checkLength path = .ok () ∧ path.names.getLast? = some name ∧ path.endsWithSlash = slash ∧
    name ≠ "." ∧ name ≠ ".." ∧
    tree.follow true linkLimit (start path tree.home) path.names.dropLast =
      .ok (.found parent .directory) := by
  unfold parentOf at h
  cases hlength : checkLength path with
  | error reason => simp [hlength, bind, Except.bind] at h
  | ok _ =>
      simp only [hlength, bind, Except.bind] at h
      split at h
      · simp at h
      · rename_i last hlast
        split at h
        · simp at h
        · rename_i landing hfollow
          split at h
          · split at h
            · simp at h
            · rename_i hordinary
              simp only [Bool.or_eq_true, decide_eq_true_eq, not_or] at hordinary
              simp only [Except.ok.injEq, Prod.mk.injEq, LastName.ordinary.injEq] at h
              obtain ⟨rfl, rfl, rfl⟩ := h
              exact ⟨rfl, hlast, rfl, hordinary.1, hordinary.2, hfollow⟩
          · simp at h
          · simp at h

end SnapshotStore.FileTree
