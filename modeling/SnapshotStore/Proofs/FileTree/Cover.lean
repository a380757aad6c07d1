import SnapshotStore.Proofs.FileTree.Entry

namespace SnapshotStore.FileTree

variable {tree : FileTree} {location : Location} (content : Bytes)

-- What a walk meets that comes by the file.
inductive StopsAtFile (location : Location) (content : Bytes) : Stop → Prop where
  | before : StopsAtFile location content (.refused .notDirectory)
  | there : StopsAtFile location content (.landed (.found location (.file content)))

theorem walk_set (hdirectory : tree.node? location ≠ some .directory) (here : Location)
    (names : List String) :
    (tree.set location (.file content)).walk true here names = tree.walk true here names ∨
    StopsAtFile location content ((tree.set location (.file content)).walk true here names) ∧
    (∀ there, tree.walk true here names ≠ .landed (.found there .directory)) ∧
    ∀ target parent rest, tree.walk true here names = .link target parent rest →
      tree.node? location = some (.link target) ∧ parent = location.tail := by
  induction names generalizing here with
  | nil => exact .inl rfl
  | cons name names ih =>
      by_cases hdot : name = "."
      · simp only [walk, if_pos hdot]
        exact ih here
      by_cases hdots : name = ".."
      · simp only [walk, if_neg hdot, if_pos hdots]
        exact ih here.tail
      by_cases hlong : Path.nameLimit < name.utf8ByteSize
      · left
        simp only [walk, if_neg hdot, if_neg hdots, if_pos hlong]
      simp only [walk, if_neg hdot, if_neg hdots, if_neg hlong]
      by_cases hhere : location = name :: here
      · subst hhere
        right
        rw [node?_set_self (List.cons_ne_nil _ _)]
        refine ⟨?_, ?_⟩
        · cases names with
          | nil => exact .there
          | cons next rest => exact .before
        · cases hnode : tree.node? (name :: here) with
          | none => cases names <;> simp
          | some node =>
              cases node with
              | directory => exact absurd hnode hdirectory
              | file before => cases names <;> simp
              | socket => cases names <;> simp
              | device kind => cases names <;> simp
              | link target => simp
      · rw [node?_set, if_neg (List.cons_ne_nil _ _), if_neg hhere]
        cases hnode : tree.node? (name :: here) with
        | none => exact .inl rfl
        | some node =>
            cases node with
            | directory => exact ih _
            | file before => exact .inl rfl
            | link target => exact .inl rfl
            | socket => exact .inl rfl
            | device kind => exact .inl rfl

-- What a walk ends with that comes by the file.
inductive EndsAtFile (location : Location) (content : Bytes) : Except Errno Landing → Prop where
  | before : EndsAtFile location content (.error .notDirectory)
  | there : EndsAtFile location content (.ok (.found location (.file content)))

theorem endsAtFile_of_walk {here : Location} {names : List String}
    (h : StopsAtFile location content (tree.walk true here names)) (links : Nat) :
    EndsAtFile location content (tree.follow true links here names) := by
  generalize hwalk : tree.walk true here names = stop at h
  cases h with
  | before =>
      rw [tree.follow_of_refused links hwalk]
      exact .before
  | there =>
      rw [tree.follow_of_landed links hwalk]
      exact .there

-- The way to a directory stays open, unless it led over a link in that place.
theorem follow_set (hdirectory : tree.node? location ≠ some .directory) {links : Nat}
    {here there : Location} {names : List String}
    (h : tree.follow true links here names = .ok (.found there .directory)) :
    (tree.set location (.file content)).follow true links here names =
      .ok (.found there .directory) ∨
    EndsAtFile location content
      ((tree.set location (.file content)).follow true links here names) ∧
    ∃ target left rest, tree.node? location = some (.link target) ∧
      tree.follow true left (start target location.tail) (target.steps ++ rest) =
        .ok (.found there .directory) := by
  induction links generalizing here names with
  | zero =>
      have hwalk := walk_set content hdirectory here names
      cases hstop : tree.walk true here names with
      | refused reason =>
          rw [tree.follow_of_refused 0 hstop] at h
          cases h
      | link target parent rest =>
          rw [tree.follow_zero_of_link hstop] at h
          cases h
      | landed landing =>
          rw [tree.follow_of_landed 0 hstop] at h
          rw [Except.ok.inj h] at hstop
          rcases hwalk with hsame | ⟨-, hnot, -⟩
          · exact .inl (follow_of_landed _ 0 (hsame.trans hstop))
          · exact absurd hstop (hnot there)
  | succ links ih =>
      have hwalk := walk_set content hdirectory here names
      cases hstop : tree.walk true here names with
      | refused reason =>
          rw [tree.follow_of_refused _ hstop] at h
          cases h
      | landed landing =>
          rw [tree.follow_of_landed _ hstop] at h
          rw [Except.ok.inj h] at hstop
          rcases hwalk with hsame | ⟨-, hnot, -⟩
          · exact .inl (follow_of_landed _ _ (hsame.trans hstop))
          · exact absurd hstop (hnot there)
      | link target parent rest =>
          rw [tree.follow_succ_of_link links hstop] at h
          rcases hwalk with hsame | ⟨hends, -, hlink⟩
          · rw [follow_succ_of_link _ links (hsame.trans hstop)]
            exact ih h
          · obtain ⟨hnode, rfl⟩ := hlink target parent rest hstop
            exact .inr ⟨endsAtFile_of_walk content hends _, target, links, rest, hnode, h⟩

-- A link that a walk to a directory follows leads to a directory itself.
theorem look_of_follow {path : Path} {parent there : Location} {name : String} {target : Path}
    {left : Nat} {rest : List String}
    (hparent : tree.parentOf path = .ok (parent, .ordinary name false))
    (hsize : name.utf8ByteSize ≤ Path.nameLimit)
    (hnode : tree.node? (name :: parent) = some (.link target))
    (h : tree.follow true left (start target parent) (target.steps ++ rest) =
      .ok (.found there .directory)) :
    tree.look path = .ok (some .directory) ∨ tree.look path = .error .tooManyLinks := by
  have htarget : ∃ end_, tree.follow true left (start target parent) target.steps =
      .ok (.found end_ .directory) := by
    cases rest with
    | nil => exact ⟨there, by simpa using h⟩
    | cons next rest =>
        obtain ⟨end_, -, hend, -⟩ := tree.follow_append_ok h
        exact ⟨end_, hend⟩
  obtain ⟨end_, hend⟩ := htarget
  obtain ⟨-, -, -, hdot, hdots, -⟩ := parentOf_ordinary tree hparent
  have hwalk : tree.walk true parent [name] = .link target parent [] := by
    simp [walk, hdot, hdots, Nat.not_lt.mpr hsize, hnode]
  obtain ⟨links, -, hresolve⟩ := resolve_of_parentOf hparent true
  have hoverall : tree.resolve true path = .ok (.found end_ .directory) ∨
      tree.resolve true path = .error .tooManyLinks := by
    rw [hresolve]
    cases links with
    | zero => exact .inr (tree.follow_zero_of_link hwalk)
    | succ links =>
        rw [tree.follow_succ_of_link links hwalk, List.append_nil]
        exact tree.follow_links hend links
  unfold look stat
  rcases hoverall with hfound | hcycle
  · left
    rw [hfound]
    rfl
  · right
    rw [hcycle]
    rfl

theorem parentOf_set {path : Path} {parent : Location} {name : String} {slash : Bool}
    (hparent : tree.parentOf path = .ok (parent, .ordinary name slash))
    (hdirectory : tree.node? location ≠ some .directory) :
    (tree.set location (.file content)).parentOf path = .ok (parent, .ordinary name slash) ∨
    (tree.set location (.file content)).parentOf path = .error .notDirectory ∧
      ∃ target left rest, tree.node? location = some (.link target) ∧
        tree.follow true left (start target location.tail) (target.steps ++ rest) =
          .ok (.found parent .directory) := by
  obtain ⟨hlength, hlast, hslash, hdot, hdots, hfollow⟩ := parentOf_ordinary tree hparent
  have hhome : (tree.set location (.file content)).home = tree.home := rfl
  rcases follow_set content hdirectory hfollow with hsame | ⟨hends, hlink⟩
  · left
    simp [parentOf, hlength, hlast, hhome, hsame, bind, Except.bind, hdot, hdots, hslash]
  · refine .inr ⟨?_, hlink⟩
    simp only [parentOf, hlength, hlast, hhome, bind, Except.bind]
    generalize (tree.set location (.file content)).follow true linkLimit
      (start path tree.home) path.names.dropLast = outcome at hends
    cases hends with
    | before => rfl
    | there => rfl

-- The way to the file itself was open all along, unless the path has led to a directory.
theorem parentOf_set_own {path : Path} {parent : Location} {name : String}
    (hparent : tree.parentOf path = .ok (parent, .ordinary name false))
    (hsize : name.utf8ByteSize ≤ Path.nameLimit)
    (hdirectory : tree.node? (name :: parent) ≠ some .directory) :
    (tree.set (name :: parent) (.file content)).parentOf path =
      .ok (parent, .ordinary name false) ∨
    (tree.set (name :: parent) (.file content)).parentOf path = .error .notDirectory ∧
      (tree.look path = .ok (some .directory) ∨ tree.look path = .error .tooManyLinks) := by
  rcases parentOf_set content hparent hdirectory with hopen | ⟨hblocked, _, _, _, hnode, h⟩
  · exact .inl hopen
  · exact .inr ⟨hblocked, look_of_follow hparent hsize hnode h⟩

-- What is read at a path is what its entry holds, if that is a plain file.
theorem look_of_file {path : Path} {parent : Location} {name : String}
    (hparent : tree.parentOf path = .ok (parent, .ordinary name false))
    (hsize : name.utf8ByteSize ≤ Path.nameLimit) {content : Bytes}
    (hnode : tree.node? (name :: parent) = some (.file content)) :
    tree.look path = .ok (some (.file content)) := by
  obtain ⟨-, -, -, hdot, hdots, -⟩ := parentOf_ordinary tree hparent
  obtain ⟨left, -, hresolve⟩ := resolve_of_parentOf hparent true
  unfold look stat
  rw [hresolve, follow_single_file left hdot hdots hsize hnode]
  rfl

theorem look_of_missing {path : Path} (hentry : tree.entryOf path = .ok location)
    (hnode : tree.node? location = none) : tree.look path = .ok none := by
  obtain ⟨parent, name, slash, hparent, hsize, rfl⟩ := parentOf_of_entryOf hentry
  obtain ⟨hlength, hlast, -, hdot, hdots, hfollow⟩ := parentOf_ordinary tree hparent
  obtain ⟨rest, hsteps, hrest⟩ := steps_eq_of_getLast? hlast
  obtain ⟨left, -, happend⟩ := tree.follow_append true linkLimit
    (start path tree.home) path.names.dropLast name rest
  unfold look stat
  rw [resolve_eq_follow tree hlength, hsteps, happend, hfollow]
  rcases hrest with rfl | rfl
  · rw [followOn, follow_single_missing left hdot hdots hsize hnode]
    rfl
  · have hwalk : tree.walk true parent [name, "."] = .refused .noEntry := by
      simp [walk, hdot, hdots, Nat.not_lt.mpr hsize, hnode]
    rw [followOn, tree.follow_of_refused left hwalk]
    rfl

theorem look_of_parentOf_error {path : Path} {reason : Errno} (habsence : reason.isAbsence = true)
    (h : tree.parentOf path = .error reason) : tree.look path = .ok none := by
  unfold look stat
  rw [resolve_of_parentOf_error h]
  exact if_pos habsence

end SnapshotStore.FileTree
