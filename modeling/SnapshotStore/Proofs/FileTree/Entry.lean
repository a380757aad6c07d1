import SnapshotStore.Proofs.FileTree.Plain

namespace SnapshotStore.FileTree

variable {tree : FileTree}

theorem node?_set_self {location : Location} (h : location ≠ []) (node : Node) :
    (tree.set location node).node? location = some node := by
  rw [node?_set, if_neg h, if_pos rfl]

theorem node?_set_of_ne {location l : Location} (h : location ≠ l) (node : Node) :
    (tree.set location node).node? l = tree.node? l := by
  rw [node?_set, if_neg h]
  split
  · rename_i hnil
    simp [hnil, node?]
  · rfl

theorem node?_erase_self {location : Location} (h : location ≠ []) :
    (tree.erase location).node? location = none := by
  rw [node?_erase, if_neg h, if_pos rfl]

theorem node?_erase_of_ne {location l : Location} (h : location ≠ l) :
    (tree.erase location).node? l = tree.node? l := by
  rw [node?_erase, if_neg h]
  split
  · rename_i hnil
    simp [hnil, node?]
  · rfl

theorem isPlain_set {location : Location} (h : location ≠ []) (content : Bytes) :
    (tree.set location (.file content)).IsPlain location :=
  isPlain_of_file (node?_set_self h _)

theorem isPlain_erase {location : Location} (h : location ≠ []) :
    (tree.erase location).IsPlain location :=
  isPlain_of_none (node?_erase_self h)

theorem sameBut_set {location : Location} (h : tree.IsPlain location) (content : Bytes) :
    SameBut location tree (tree.set location (.file content)) :=
  ⟨rfl, rfl, fun _ hl => node?_set_of_ne (Ne.symm hl) _, h, isPlain_set h.ne_nil content⟩

theorem sameBut_erase {location : Location} (h : tree.IsPlain location) :
    SameBut location tree (tree.erase location) :=
  ⟨rfl, rfl, fun _ hl => node?_erase_of_ne (Ne.symm hl), h, isPlain_erase h.ne_nil⟩

theorem SameBut.set {location other : Location} {before after : FileTree}
    (h : SameBut location before after) (hne : location ≠ other) (node : Node) :
    SameBut location (before.set other node) (after.set other node) := by
  refine ⟨h.home, h.closed, fun l hl => ?_, fun found hfound => ?_, fun found hfound => ?_⟩
  · rw [node?_set, node?_set, h.node l hl]
  · rw [node?_set_of_ne (Ne.symm hne)] at hfound
    exact h.plain_before found hfound
  · rw [node?_set_of_ne (Ne.symm hne)] at hfound
    exact h.plain_after found hfound

-- Once a plain file is in a place, taking it away opens or closes no way.
theorem sameBut_set_erase {location : Location} (hne : location ≠ []) (content : Bytes) :
    SameBut location (tree.set location (.file content)) (tree.erase location) := by
  refine ⟨rfl, rfl, fun l hl => ?_, isPlain_set hne content, isPlain_erase hne⟩
  rw [node?_erase_of_ne (Ne.symm hl), node?_set_of_ne (Ne.symm hl)]

theorem follow_single_missing {name : String} {parent : Location} (links : Nat)
    (hdot : name ≠ ".") (hdots : name ≠ "..") (hsize : name.utf8ByteSize ≤ Path.nameLimit)
    (hnode : tree.node? (name :: parent) = none) :
    tree.follow true links parent [name] = .ok (.missing parent name) := by
  apply tree.follow_of_landed
  simp only [walk, if_neg hdot, if_neg hdots, if_neg (Nat.not_lt.mpr hsize), hnode]
  rfl

theorem follow_single_file {name : String} {parent : Location} {content : Bytes} (links : Nat)
    (hdot : name ≠ ".") (hdots : name ≠ "..") (hsize : name.utf8ByteSize ≤ Path.nameLimit)
    (hnode : tree.node? (name :: parent) = some (.file content)) :
    tree.follow true links parent [name] = .ok (.found (name :: parent) (.file content)) := by
  apply tree.follow_of_landed
  simp only [walk, if_neg hdot, if_neg hdots, if_neg (Nat.not_lt.mpr hsize), hnode]
  rfl

theorem follow_single_long {name : String} {parent : Location} (links : Nat)
    (hdot : name ≠ ".") (hdots : name ≠ "..") (hsize : Path.nameLimit < name.utf8ByteSize) :
    tree.follow true links parent [name] = .error .nameTooLong := by
  apply tree.follow_of_refused
  simp only [walk, if_neg hdot, if_neg hdots, if_pos hsize]

theorem resolve_of_parentOf {path : Path} {parent : Location} {name : String}
    (h : tree.parentOf path = .ok (parent, .ordinary name false)) (followLast : Bool) :
    ∃ left ≤ linkLimit,
      tree.resolve followLast path = tree.follow followLast left parent [name] := by
  obtain ⟨hlength, hlast, hslash, -, -, hfollow⟩ := parentOf_ordinary tree h
  obtain ⟨left, hleft, happend⟩ := tree.follow_append followLast linkLimit
    (start path tree.home) path.names.dropLast name []
  refine ⟨left, hleft, ?_⟩
  rw [resolve_eq_follow tree hlength, steps_eq_of_not_endsWithSlash hslash,
    names_eq_of_getLast? hlast, happend, hfollow]
  rfl

theorem resolve_of_parentOf_error {path : Path} {reason : Errno}
    (h : tree.parentOf path = .error reason) (followLast : Bool) :
    tree.resolve followLast path = .error reason := by
  unfold parentOf at h
  cases hlength : checkLength path with
  | error reason' =>
      simp only [hlength, bind, Except.bind] at h
      cases h
      simp only [resolve, hlength, bind, Except.bind]
  | ok _ =>
      simp only [hlength, bind, Except.bind] at h
      cases hlast : path.names.getLast? with
      | none =>
          rw [hlast] at h
          cases h
      | some name =>
          simp only [hlast] at h
          obtain ⟨rest, hsteps, -⟩ := steps_eq_of_getLast? hlast
          obtain ⟨left, -, happend⟩ := tree.follow_append followLast linkLimit
            (start path tree.home) path.names.dropLast name rest
          rw [resolve_eq_follow tree hlength, hsteps, happend]
          generalize tree.follow true linkLimit (start path tree.home) path.names.dropLast =
            outcome at h ⊢
          cases outcome with
          | error reason' =>
              cases h
              rfl
          | ok landing =>
              cases landing with
              | missing parent name =>
                  cases h
                  rfl
              | found there node =>
                  cases node with
                  | directory =>
                      simp only at h
                      split at h <;> cases h
                  | file content =>
                      cases h
                      rfl
                  | link target =>
                      cases h
                      rfl
                  | socket =>
                      cases h
                      rfl
                  | device kind =>
                      cases h
                      rfl

-- A path leads to a directory, or it has an ordinary last name, which is looked up last.
theorem resolve_cases {path : Path} {landing : Landing}
    (h : tree.resolve true path = .ok landing) :
    (∃ location, landing = .found location .directory) ∨
    ∃ parent name left, tree.parentOf path = .ok (parent, .ordinary name false) ∧
      tree.follow true left parent [name] = .ok landing := by
  cases hlength : checkLength path with
  | error reason => simp [resolve, hlength, bind, Except.bind] at h
  | ok _ =>
      rw [resolve_eq_follow tree hlength] at h
      cases hslash : path.endsWithSlash with
      | true =>
          rw [Path.steps, if_pos hslash] at h
          obtain ⟨there, left, -, hdot⟩ := tree.follow_append_ok h
          rw [tree.follow_dot] at hdot
          exact .inl ⟨there, (Except.ok.inj hdot).symm⟩
      | false =>
          rw [steps_eq_of_not_endsWithSlash hslash] at h
          cases hlast : path.names.getLast? with
          | none =>
              rw [List.getLast?_eq_none_iff.mp hlast, tree.follow_nil] at h
              exact .inl ⟨_, (Except.ok.inj h).symm⟩
          | some name =>
              rw [names_eq_of_getLast? hlast] at h
              obtain ⟨parent, left, hparent, hname⟩ := tree.follow_append_ok h
              by_cases hdot : name = "."
              · rw [hdot, tree.follow_dot] at hname
                exact .inl ⟨parent, (Except.ok.inj hname).symm⟩
              by_cases hdots : name = ".."
              · rw [hdots, tree.follow_dots] at hname
                exact .inl ⟨parent.tail, (Except.ok.inj hname).symm⟩
              refine .inr ⟨parent, name, left, ?_, hname⟩
              simp [parentOf, hlength, hlast, hparent, bind, Except.bind, hdot, hdots, hslash]

theorem entryOf_of_parentOf {path : Path} {parent : Location} {name : String} {slash : Bool}
    (h : tree.parentOf path = .ok (parent, .ordinary name slash))
    (hsize : name.utf8ByteSize ≤ Path.nameLimit) : tree.entryOf path = .ok (name :: parent) := by
  simp [entryOf, h, bind, Except.bind, Nat.not_lt.mpr hsize]

theorem parentOf_of_entryOf {path : Path} {entry : Location}
    (h : tree.entryOf path = .ok entry) : ∃ parent name slash,
      tree.parentOf path = .ok (parent, .ordinary name slash) ∧
      name.utf8ByteSize ≤ Path.nameLimit ∧ entry = name :: parent := by
  unfold entryOf at h
  cases hparent : tree.parentOf path with
  | error reason => simp [hparent, bind, Except.bind] at h
  | ok found =>
      obtain ⟨parent, last⟩ := found
      cases last with
      | special => simp [hparent, bind, Except.bind] at h
      | ordinary name slash =>
          simp only [hparent, bind, Except.bind] at h
          split at h
          · simp at h
          · rename_i hsize
            exact ⟨parent, name, slash, rfl, Nat.not_lt.mp hsize, (Except.ok.inj h).symm⟩

-- Opening a file for writing changes the path's own entry, should there be a plain file or nothing.
theorem create_eq_ok {path : Path} {location : Location} {after : FileTree}
    (hplain : ∀ entry, tree.entryOf path = .ok entry → tree.IsPlain entry)
    (h : tree.create path = .ok (location, after)) :
    tree.entryOf path = .ok location ∧ after = tree.set location (.file []) ∧
      tree.isClosed location.tail = false := by
  unfold create at h
  cases hresolve : tree.resolve true path with
  | error reason => simp [hresolve, bind, Except.bind] at h
  | ok landing =>
      rw [hresolve] at h
      rcases resolve_cases hresolve with ⟨there, rfl⟩ | ⟨parent, name, left, hparent, hname⟩
      · simp [bind, Except.bind] at h
      obtain ⟨-, -, -, hdot, hdots, -⟩ := parentOf_ordinary tree hparent
      by_cases hsize : Path.nameLimit < name.utf8ByteSize
      · rw [follow_single_long left hdot hdots hsize] at hname
        cases hname
      have hentry := entryOf_of_parentOf hparent (Nat.not_lt.mp hsize)
      rcases (hplain _ hentry).cases with hnone | ⟨content, hfile⟩
      · rw [follow_single_missing left hdot hdots (Nat.not_lt.mp hsize) hnone] at hname
        obtain rfl := Except.ok.inj hname
        simp only [bind, Except.bind] at h
        split at h
        · cases h
        · rename_i hclosed
          obtain ⟨rfl, rfl⟩ := Prod.mk.inj (Except.ok.inj h)
          exact ⟨hentry, rfl, by simpa using hclosed⟩
      · rw [follow_single_file left hdot hdots (Nat.not_lt.mp hsize) hfile] at hname
        obtain rfl := Except.ok.inj hname
        simp only [bind, Except.bind] at h
        split at h
        · cases h
        · rename_i hclosed
          obtain ⟨rfl, rfl⟩ := Prod.mk.inj (Except.ok.inj h)
          exact ⟨hentry, rfl, by simpa using hclosed⟩

theorem append_to_file {location : Location} {content : Bytes}
    (h : tree.node? location = some (.file content)) (bytes : Bytes) :
    tree.append location bytes = .ok (tree.set location (.file (content ++ bytes))) := by
  simp [append, h]

theorem discard_file {path : Path} {location : Location} {content : Bytes}
    (hentry : tree.entryOf path = .ok location)
    (hnode : tree.node? location = some (.file content))
    (hclosed : tree.isClosed location.tail = false) : tree.discard path = tree.erase location := by
  simp [discard, hentry, hnode, hclosed]

theorem rename_eq_ok {source target : Path} {after : FileTree}
    (h : tree.rename source target = .ok after) : ∃ from_ parent name node,
      tree.entryOf source = .ok from_ ∧ tree.node? from_ = some node ∧
      tree.parentOf target = .ok (parent, .ordinary name false) ∧
      name.utf8ByteSize ≤ Path.nameLimit ∧ tree.node? (name :: parent) ≠ some .directory ∧
      after = (tree.erase from_).set (name :: parent) node := by
  unfold rename at h
  cases hsource : tree.parentOf source with
  | error reason => simp [hsource, bind, Except.bind] at h
  | ok sourceFound =>
      cases htarget : tree.parentOf target with
      | error reason => simp [hsource, htarget, bind, Except.bind] at h
      | ok targetFound =>
          obtain ⟨sourceParent, sourceLast⟩ := sourceFound
          obtain ⟨parent, last⟩ := targetFound
          simp only [hsource, htarget, bind, Except.bind] at h
          cases sourceLast with
          | special => simp at h
          | ordinary sourceName sourceSlash =>
              cases last with
              | special => simp at h
              | ordinary name slash =>
                  simp only at h
                  split at h
                  · cases h
                  rename_i hsourceSize
                  split at h
                  · cases h
                  · cases h
                  rename_i node _ hnode
                  split at h
                  · cases h
                  rename_i hsize
                  split at h
                  · cases h
                  rename_i hslash
                  split at h
                  · cases h
                  rename_i hdirectory
                  split at h
                  · cases h
                  simp only [Bool.or_eq_true, not_or, Bool.not_eq_true] at hslash
                  obtain ⟨-, rfl⟩ := hslash
                  exact ⟨_, parent, name, node,
                    entryOf_of_parentOf hsource (Nat.not_lt.mp hsourceSize), hnode, rfl,
                    Nat.not_lt.mp hsize, hdirectory, (Except.ok.inj h).symm⟩

end SnapshotStore.FileTree
