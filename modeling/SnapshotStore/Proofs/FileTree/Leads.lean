import SnapshotStore.Proofs.FileTree.Plain

namespace SnapshotStore

def Landing.node? : Landing → Option Node
  | .found _ node => some node
  | .missing _ _ => none

-- Whether names after it may lead on.
def Node.IsPassable : Node → Prop
  | .directory => True
  | .link _ => True
  | _ => False

namespace FileTree

structure IsOrdinary (name : String) : Prop where
  ne_dot : name ≠ "."
  ne_dots : name ≠ ".."
  size_le : name.utf8ByteSize ≤ Path.nameLimit

-- By way of so many links, some names lead from a directory to a node or to nothing.
inductive Leads (tree : FileTree) : Nat → Location → List String → Option Node → Prop where
  | here (here : Location) : Leads tree 0 here [] (some .directory)
  | dot {links : Nat} {here : Location} {name : String} {rest : List String}
      {found : Option Node} :
      name = "." → Leads tree links here rest found → Leads tree links here (name :: rest) found
  | dots {links : Nat} {here : Location} {name : String} {rest : List String}
      {found : Option Node} :
      name = ".." → Leads tree links here.tail rest found →
      Leads tree links here (name :: rest) found
  | missing {here : Location} {name : String} (rest : List String) : IsOrdinary name →
      tree.node? (name :: here) = none → Leads tree 0 here (name :: rest) none
  | last {here : Location} {name : String} {node : Node} : IsOrdinary name →
      tree.node? (name :: here) = some node → ¬node.IsPassable →
      Leads tree 0 here [name] (some node)
  -- names go on where there is no directory
  | blocked {here : Location} {name : String} {node : Node} {rest : List String} :
      IsOrdinary name → tree.node? (name :: here) = some node → ¬node.IsPassable →
      rest ≠ [] → Leads tree 0 here (name :: rest) none
  | directory {links : Nat} {here : Location} {name : String} {rest : List String}
      {found : Option Node} : IsOrdinary name → tree.node? (name :: here) = some .directory →
      Leads tree links (name :: here) rest found → Leads tree links here (name :: rest) found
  | link {links : Nat} {here : Location} {name : String} {target : Path} {rest : List String}
      {found : Option Node} : IsOrdinary name → tree.node? (name :: here) = some (.link target) →
      Leads tree links (start target here) (target.steps ++ rest) found →
      Leads tree (links + 1) here (name :: rest) found

-- What one finds who looks at a path. There is nothing at a path without a text.
structure Shows (tree : FileTree) (path : Path) (found : Option Node) : Prop where
  nothing : path.systemText = [] → found = none
  leads : path.systemText ≠ [] → path.isTooLong = false ∧
    ∃ links ≤ linkLimit, tree.Leads links (start path tree.home) path.steps found

variable {tree : FileTree} {links : Nat} {here : Location} {name : String}
  {names rest : List String} {found : Option Node}

theorem leads_nil_iff : tree.Leads links here [] found ↔ links = 0 ∧ found = some .directory := by
  constructor
  · intro h
    cases h
    exact ⟨rfl, rfl⟩
  · rintro ⟨rfl, rfl⟩
    exact .here here

theorem leads_dot_iff :
    tree.Leads links here ("." :: rest) found ↔ tree.Leads links here rest found := by
  refine ⟨fun h => ?_, .dot rfl⟩
  cases h with
  | dot _ h => exact h
  | dots hname _ => simp at hname
  | missing _ hname _ => exact (hname.ne_dot rfl).elim
  | last hname _ _ => exact (hname.ne_dot rfl).elim
  | blocked hname _ _ _ => exact (hname.ne_dot rfl).elim
  | directory hname _ _ => exact (hname.ne_dot rfl).elim
  | link hname _ _ => exact (hname.ne_dot rfl).elim

theorem leads_dots_iff :
    tree.Leads links here (".." :: rest) found ↔ tree.Leads links here.tail rest found := by
  refine ⟨fun h => ?_, .dots rfl⟩
  cases h with
  | dot hname _ => simp at hname
  | dots _ h => exact h
  | missing _ hname _ => exact (hname.ne_dots rfl).elim
  | last hname _ _ => exact (hname.ne_dots rfl).elim
  | blocked hname _ _ _ => exact (hname.ne_dots rfl).elim
  | directory hname _ _ => exact (hname.ne_dots rfl).elim
  | link hname _ _ => exact (hname.ne_dots rfl).elim

-- Under a name that is too long there is nothing, and not even that.
theorem not_leads_of_long (hdot : name ≠ ".") (hdots : name ≠ "..")
    (hlong : Path.nameLimit < name.utf8ByteSize) : ¬tree.Leads links here (name :: rest) found := by
  intro h
  cases h with
  | dot hname _ => exact hdot hname
  | dots hname _ => exact hdots hname
  | missing _ hname _ => exact absurd hname.size_le (by omega)
  | last hname _ _ => exact absurd hname.size_le (by omega)
  | blocked hname _ _ _ => exact absurd hname.size_le (by omega)
  | directory hname _ _ => exact absurd hname.size_le (by omega)
  | link hname _ _ => exact absurd hname.size_le (by omega)

section Ordinary

variable (hname : IsOrdinary name)

include hname

theorem leads_missing_iff (hnode : tree.node? (name :: here) = none) :
    tree.Leads links here (name :: rest) found ↔ links = 0 ∧ found = none := by
  constructor
  · intro h
    cases h with
    | dot h _ => exact (hname.ne_dot h).elim
    | dots h _ => exact (hname.ne_dots h).elim
    | missing _ _ _ => exact ⟨rfl, rfl⟩
    | last _ h _ => cases hnode.symm.trans h
    | blocked _ h _ _ => cases hnode.symm.trans h
    | directory _ h _ => cases hnode.symm.trans h
    | link _ h _ => cases hnode.symm.trans h
  · rintro ⟨rfl, rfl⟩
    exact .missing rest hname hnode

theorem leads_directory_iff (hnode : tree.node? (name :: here) = some .directory) :
    tree.Leads links here (name :: rest) found ↔ tree.Leads links (name :: here) rest found := by
  refine ⟨fun h => ?_, .directory hname hnode⟩
  cases h with
  | dot h _ => exact (hname.ne_dot h).elim
  | dots h _ => exact (hname.ne_dots h).elim
  | missing _ _ h => cases hnode.symm.trans h
  | last _ h hend => exact (hend (Option.some.inj (hnode.symm.trans h) ▸ trivial)).elim
  | blocked _ h hend _ => exact (hend (Option.some.inj (hnode.symm.trans h) ▸ trivial)).elim
  | directory _ _ h => exact h
  | link _ h _ => cases hnode.symm.trans h

theorem leads_link_iff {target : Path} (hnode : tree.node? (name :: here) = some (.link target)) :
    tree.Leads links here (name :: rest) found ↔ ∃ left, links = left + 1 ∧
      tree.Leads left (start target here) (target.steps ++ rest) found := by
  constructor
  · intro h
    cases h with
    | dot h _ => exact (hname.ne_dot h).elim
    | dots h _ => exact (hname.ne_dots h).elim
    | missing _ _ h => cases hnode.symm.trans h
    | last _ h hend => exact (hend (Option.some.inj (hnode.symm.trans h) ▸ trivial)).elim
    | blocked _ h hend _ => exact (hend (Option.some.inj (hnode.symm.trans h) ▸ trivial)).elim
    | directory _ h _ => cases hnode.symm.trans h
    | link _ h hrest =>
        cases hnode.symm.trans h
        exact ⟨_, rfl, hrest⟩
  · rintro ⟨left, rfl, h⟩
    exact .link hname hnode h

theorem leads_node_iff {node : Node} (hnode : tree.node? (name :: here) = some node)
    (hend : ¬node.IsPassable) :
    tree.Leads links here (name :: rest) found ↔
      links = 0 ∧ found = if rest = [] then some node else none := by
  constructor
  · intro h
    cases h with
    | dot h _ => exact (hname.ne_dot h).elim
    | dots h _ => exact (hname.ne_dots h).elim
    | missing _ _ h => cases hnode.symm.trans h
    | last _ h _ => exact ⟨rfl, by rw [if_pos rfl, ← h, hnode]⟩
    | blocked _ _ _ hrest => exact ⟨rfl, (if_neg hrest).symm⟩
    | directory _ h _ => exact (hend (Option.some.inj (hnode.symm.trans h) ▸ trivial)).elim
    | link _ h _ => exact (hend (Option.some.inj (hnode.symm.trans h) ▸ trivial)).elim
  · rintro ⟨rfl, rfl⟩
    by_cases hrest : rest = []
    · subst hrest
      exact .last hname hnode hend
    · rw [if_neg hrest]
      exact .blocked hname hnode hend hrest

end Ordinary

-- What the rest of a walk leads to, from where it stops first.
def LeadsFrom (tree : FileTree) (links : Nat) (found : Option Node) : Stop → Prop
  | .landed landing => links = 0 ∧ found = landing.node?
  | .refused reason => reason.isAbsence ∧ links = 0 ∧ found = none
  | .link target parent rest => ∃ left, links = left + 1 ∧
      tree.Leads left (start target parent) (target.steps ++ rest) found

theorem leads_iff_walk :
    tree.Leads links here names found ↔ tree.LeadsFrom links found (tree.walk true here names) := by
  induction names generalizing here with
  | nil => exact leads_nil_iff
  | cons name rest ih =>
      by_cases hdot : name = "."
      · rw [walk, if_pos hdot, hdot, leads_dot_iff, ih]
      by_cases hdots : name = ".."
      · rw [walk, if_neg hdot, if_pos hdots, hdots, leads_dots_iff, ih]
      by_cases hlong : Path.nameLimit < name.utf8ByteSize
      · rw [walk, if_neg hdot, if_neg hdots, if_pos hlong]
        exact iff_of_false (not_leads_of_long hdot hdots hlong) fun h => Bool.false_ne_true h.1
      have hname : IsOrdinary name := ⟨hdot, hdots, Nat.le_of_not_lt hlong⟩
      rw [walk, if_neg hdot, if_neg hdots, if_neg hlong]
      cases hnode : tree.node? (name :: here) with
      | none =>
          rw [leads_missing_iff hname hnode]
          cases rest <;> simp [LeadsFrom, Landing.node?, Errno.isAbsence]
      | some node =>
          cases node with
          | directory => exact (leads_directory_iff hname hnode).trans ih
          | link target =>
              rw [leads_link_iff hname hnode]
              simp [LeadsFrom]
          | file content =>
              rw [leads_node_iff hname hnode id]
              cases rest <;> simp [LeadsFrom, Landing.node?, Errno.isAbsence]
          | socket =>
              rw [leads_node_iff hname hnode id]
              cases rest <;> simp [LeadsFrom, Landing.node?, Errno.isAbsence]
          | device kind =>
              rw [leads_node_iff hname hnode id]
              cases rest <;> simp [LeadsFrom, Landing.node?, Errno.isAbsence]

-- What one finds to whom a walk comes back with a result.
def foundBy : Except Errno Landing → Except Errno (Option Node)
  | .ok landing => .ok landing.node?
  | .error reason => if reason.isAbsence then .ok none else .error reason

theorem foundBy_landed_iff {landing : Landing} (limit : Nat) :
    foundBy (.ok landing) = .ok found ↔
      ∃ links ≤ limit, tree.LeadsFrom links found (.landed landing) := by
  constructor
  · intro h
    exact ⟨0, Nat.zero_le _, rfl, (Except.ok.inj h).symm⟩
  · rintro ⟨links, -, -, rfl⟩
    rfl

theorem foundBy_refused_iff {reason : Errno} (limit : Nat) :
    foundBy (.error reason) = .ok found ↔
      ∃ links ≤ limit, tree.LeadsFrom links found (.refused reason) := by
  by_cases habsence : reason.isAbsence = true
  · rw [foundBy, if_pos habsence]
    constructor
    · intro h
      exact ⟨0, Nat.zero_le _, habsence, rfl, (Except.ok.inj h).symm⟩
    · rintro ⟨links, -, -, -, rfl⟩
      rfl
  · rw [foundBy, if_neg habsence]
    refine iff_of_false (fun h => nomatch h) ?_
    rintro ⟨links, -, h, -⟩
    exact habsence h

theorem foundBy_follow_iff {limit : Nat} :
    foundBy (tree.follow true limit here names) = .ok found ↔
      ∃ links ≤ limit, tree.Leads links here names found := by
  induction limit using Nat.strongRecOn generalizing here names with
  | ind limit ih =>
      have hleads : ∀ links, tree.Leads links here names found ↔
          tree.LeadsFrom links found (tree.walk true here names) := fun _ => leads_iff_walk
      simp only [hleads]
      cases hwalk : tree.walk true here names with
      | landed landing =>
          rw [tree.follow_of_landed limit hwalk]
          exact foundBy_landed_iff limit
      | refused reason =>
          rw [tree.follow_of_refused limit hwalk]
          exact foundBy_refused_iff limit
      | link target parent rest =>
          cases limit with
          | zero =>
              rw [tree.follow_zero_of_link hwalk]
              refine iff_of_false (fun h => nomatch h) ?_
              rintro ⟨links, hlinks, left, rfl, -⟩
              omega
          | succ limit =>
              rw [tree.follow_succ_of_link limit hwalk, ih limit (Nat.lt_succ_self limit)]
              constructor
              · rintro ⟨links, hlinks, h⟩
                exact ⟨links + 1, by omega, links, rfl, h⟩
              · rintro ⟨-, hlinks, links, rfl, h⟩
                exact ⟨links, by omega, h⟩

theorem look_eq_foundBy (tree : FileTree) (path : Path) :
    tree.look path = foundBy (tree.resolve true path) := by
  unfold look stat
  cases tree.resolve true path with
  | error reason => rfl
  | ok landing => cases landing <;> rfl

theorem look_eq_ok_iff {path : Path} : tree.look path = .ok found ↔ tree.Shows path found := by
  rw [look_eq_foundBy, resolve]
  by_cases hempty : path.systemText = []
  · have hlook : checkLength path = .error .noEntry := by simp [checkLength, hempty]
    rw [hlook]
    constructor
    · intro h
      exact ⟨fun _ => (Except.ok.inj h).symm, fun h => (h hempty).elim⟩
    · intro h
      rw [h.nothing hempty]
      rfl
  by_cases hlong : path.isTooLong = true
  · have hlook : checkLength path = .error .nameTooLong := by simp [checkLength, hempty, hlong]
    rw [hlook]
    refine iff_of_false (by rintro ⟨⟩) fun h => ?_
    exact absurd (h.leads hempty).1 (by simp [hlong])
  · have hlook : checkLength path = .ok () := by simp [checkLength, hempty, hlong]
    rw [hlook]
    refine foundBy_follow_iff.trans ⟨fun h => ?_, fun h => (h.leads hempty).2⟩
    exact ⟨fun h => (hempty h).elim, fun _ => ⟨by simpa using hlong, h⟩⟩

end FileTree

end SnapshotStore
