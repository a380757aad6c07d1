import Mathlib.Data.List.TakeWhile
import SnapshotStore.Path

namespace SnapshotStore

-- A list cut behind the last occurrence of a character, if there is one.
structure CutBehind (c : Char) (whole front back : List Char) : Prop where
  whole_eq : whole = front ++ back
  front_ends : front = [] ∨ front.getLast? = some c
  not_mem_back : c ∉ back

namespace CutBehind

variable {c : Char} {whole front back suffix : List Char}

theorem append (h : CutBehind c whole front back) (hsuffix : c ∉ suffix) :
    CutBehind c (whole ++ suffix) front (back ++ suffix) where
  whole_eq := by rw [h.whole_eq, List.append_assoc]
  front_ends := h.front_ends
  not_mem_back := by simp [h.not_mem_back, hsuffix]

-- Read from its end, the list is passed over up to the first occurrence.
theorem reversed (h : CutBehind c whole front back) :
    whole.reverse.takeWhile (· != c) = back.reverse ∧
    whole.reverse.dropWhile (· != c) = front.reverse := by
  have hback : ∀ x ∈ back.reverse, (x != c) = true := by
    intro x hx
    rw [bne_iff_ne]
    rintro rfl
    exact h.not_mem_back (List.mem_reverse.mp hx)
  rw [h.whole_eq, List.reverse_append, List.takeWhile_append_of_pos hback,
    List.dropWhile_append_of_pos hback]
  rcases h.front_ends with rfl | hlast
  · simp
  · obtain ⟨start, rfl⟩ := List.getLast?_eq_some_iff.mp hlast
    simp

theorem of_reversed (c : Char) (whole : List Char) :
    CutBehind c whole (whole.reverse.dropWhile (· != c)).reverse
      (whole.reverse.takeWhile (· != c)).reverse where
  whole_eq := by
    rw [← List.reverse_append, List.takeWhile_append_dropWhile, List.reverse_reverse]
  front_ends := by
    have hhead := List.head?_dropWhile_not (· != c) whole.reverse
    rw [List.getLast?_reverse, List.reverse_eq_nil_iff]
    cases hrest : whole.reverse.dropWhile (· != c) with
    | nil => exact .inl rfl
    | cons x rest =>
        rw [hrest] at hhead
        exact .inr (by simpa using hhead)
  not_mem_back := by
    intro hmem
    have hne := List.mem_takeWhile_imp (List.mem_reverse.mp hmem)
    simp at hne

end CutBehind

namespace Path

-- A dot that is neither the first character nor one of the two in the parent's name.
def HasExtension (name : List Char) : Prop :=
  name ≠ ['.', '.'] ∧ ∃ stem rest, stem ≠ [] ∧ '.' ∉ rest ∧ name = stem ++ '.' :: rest

variable {p q : Path} {name stem rest directory suffix : List Char}

theorem splitExtension_eq (hparent : stem ++ '.' :: rest ≠ ['.', '.']) (hstem : stem ≠ [])
    (hrest : '.' ∉ rest) : splitExtension (stem ++ '.' :: rest) = (stem, '.' :: rest) := by
  have hcut : CutBehind '.' (stem ++ '.' :: rest) (stem ++ ['.']) rest :=
    ⟨by simp, .inr (by simp), hrest⟩
  obtain ⟨htake, hdrop⟩ := hcut.reversed
  obtain ⟨c, others, hreverse⟩ := List.exists_cons_of_ne_nil (List.reverse_ne_nil_iff.mpr hstem)
  have hstem : (c :: others).reverse = stem := by rw [← hreverse, List.reverse_reverse]
  unfold splitExtension
  rw [if_neg hparent, htake, hdrop, List.reverse_append, hreverse, List.reverse_reverse]
  exact congrArg (·, '.' :: rest) hstem

theorem splitExtension_eq_self (h : ¬HasExtension name) : splitExtension name = (name, []) := by
  unfold splitExtension
  split
  · rfl
  · rename_i hparent
    have hcut := CutBehind.of_reversed '.' name
    split
    · rfl
    · rfl
    · rename_i c stem hne hdrop
      -- The dot in front of the rest has something in front of it.
      have hrest := hcut.not_mem_back
      have hends := hcut.front_ends
      have hwhole := hcut.whole_eq
      rw [hdrop] at hends hwhole
      have hdot : c = '.' := by simpa using hends
      subst hdot
      have hstem : stem.reverse ≠ [] := fun hnil => hne (List.reverse_eq_nil_iff.mp hnil)
      rw [List.reverse_cons, List.append_assoc, List.singleton_append] at hwhole
      exact absurd ⟨hparent, _, _, hstem, hrest, hwhole⟩ h

theorem append_splitExtension (name : List Char) :
    (splitExtension name).1 ++ (splitExtension name).2 = name := by
  by_cases h : HasExtension name
  · obtain ⟨hparent, stem, rest, hstem, hrest, rfl⟩ := h
    rw [splitExtension_eq hparent hstem hrest]
  · rw [splitExtension_eq_self h, List.append_nil]

theorem extension_ne_nil_iff : p.extension ≠ [] ↔ HasExtension p.fileName := by
  unfold extension
  by_cases h : HasExtension p.fileName
  · rw [iff_true_right h]
    obtain ⟨hparent, stem, rest, hstem, hrest, hname⟩ := h
    rw [hname] at hparent ⊢
    rw [splitExtension_eq hparent hstem hrest]
    exact List.cons_ne_nil '.' rest
  · rw [iff_false_right h, splitExtension_eq_self h]
    exact fun hne => hne rfl

theorem cut (p : Path) : CutBehind '/' p.text.toList p.directoryPart p.fileName :=
  CutBehind.of_reversed '/' p.text.toList

theorem cut_iff : CutBehind '/' p.text.toList directory name ↔
    directory = p.directoryPart ∧ name = p.fileName := by
  constructor
  · intro h
    obtain ⟨htake, hdrop⟩ := h.reversed
    unfold directoryPart fileName
    rw [htake, hdrop, List.reverse_reverse, List.reverse_reverse]
    exact ⟨rfl, rfl⟩
  · rintro ⟨rfl, rfl⟩
    exact p.cut

-- What stands behind a path without a slash belongs to the file name.
theorem parts_of_append {suffix : String} (hsuffix : '/' ∉ suffix.toList)
    (htext : q.text = p.text ++ suffix) :
    q.directoryPart = p.directoryPart ∧ q.fileName = p.fileName ++ suffix.toList := by
  have hcut := p.cut.append hsuffix
  rw [← String.toList_append, ← htext] at hcut
  obtain ⟨hdirectory, hname⟩ := cut_iff.mp hcut
  exact ⟨hdirectory.symm, hname.symm⟩

theorem text_temporary (p : Path) :
    p.temporary.text = p.text ++ if p.extension = [] then ".json.tmp" else ".tmp" := by
  have hname : (splitExtension p.fileName).1 ++ p.extension = p.fileName :=
    append_splitExtension p.fileName
  unfold temporary replaceExtension
  rw [← String.toList_inj, String.toList_ofList, String.toList_append, p.cut.whole_eq]
  generalize (splitExtension p.fileName).1 = stem at hname ⊢
  rw [← hname]
  by_cases h : p.extension = []
  · simp [h]
  · have hsome : p.extension.isEmpty = false := List.isEmpty_eq_false_iff.mpr h
    simp [h, hsome]

theorem temporary_ne (p : Path) : p.temporary ≠ p := by
  intro h
  have hlength := congrArg (fun path => path.text.toList.length) h
  simp only [text_temporary, String.toList_append, List.length_append, Nat.add_eq_left,
    List.length_eq_zero_iff] at hlength
  split at hlength <;> exact absurd hlength (by decide)

theorem parts_temporary (p : Path) : p.temporary.directoryPart = p.directoryPart ∧
    p.temporary.fileName =
      p.fileName ++ (if p.extension = [] then ".json.tmp" else ".tmp").toList := by
  apply parts_of_append _ p.text_temporary
  split <;> decide

-- A suffix that begins with its only dot is an extension of any file name.
theorem extension_eq_of_fileName (hne : stem ≠ []) (hname : q.fileName = stem ++ '.' :: rest)
    (hdot : '.' ∉ rest) (hrest : rest ≠ []) : q.extension = '.' :: rest := by
  have hparent : stem ++ '.' :: rest ≠ ['.', '.'] := by
    intro h
    have hlength := congrArg List.length h
    have hstem := List.length_pos_iff.mpr hne
    have hlast := List.length_pos_iff.mpr hrest
    simp only [List.length_append, List.length_cons, List.length_nil] at hlength
    omega
  unfold extension
  rw [hname, splitExtension_eq hparent hne hdot]

theorem extension_temporary (p : Path) : p.temporary.extension = ".tmp".toList := by
  obtain ⟨-, hname⟩ := p.parts_temporary
  by_cases h : p.extension = []
  · rw [if_pos h] at hname
    have hstem : p.fileName ++ ".json".toList ≠ [] := by simp
    have hname : p.temporary.fileName = p.fileName ++ ".json".toList ++ '.' :: "tmp".toList := by
      rw [hname, List.append_assoc]
      rfl
    exact extension_eq_of_fileName hstem hname (by decide) (by decide)
  · rw [if_neg h] at hname
    have hstem : p.fileName ≠ [] := by
      intro hnil
      obtain ⟨-, stem, rest, -, -, hdot⟩ := extension_ne_nil_iff.mp h
      simp [hnil] at hdot
    have hname : p.temporary.fileName = p.fileName ++ '.' :: "tmp".toList := hname
    exact extension_eq_of_fileName hstem hname (by decide) (by decide)

-- Behind an empty file name the dot would be the first character.
theorem extension_of_json (htext : q.text = p.text ++ ".json") :
    q.extension ≠ [] ↔ p.fileName ≠ [] := by
  obtain ⟨-, hname⟩ := parts_of_append (by decide) htext
  constructor
  · intro h hnil
    obtain ⟨-, stem, rest, hstem, hrest, hdot⟩ := extension_ne_nil_iff.mp h
    rw [hname, hnil] at hdot
    obtain ⟨c, tail, rfl⟩ := List.exists_cons_of_ne_nil hstem
    have htail : "json".toList = tail ++ '.' :: rest := (List.cons.inj hdot).2
    have hmem : '.' ∈ "json".toList := by simp [htail]
    exact absurd hmem (by decide)
  · intro h
    have hname : q.fileName = p.fileName ++ '.' :: "json".toList := hname
    rw [extension_eq_of_fileName h hname (by decide) (by decide)]
    exact List.cons_ne_nil _ _

theorem temporary_eq_of_json (hnil : p.fileName ≠ []) (hnone : p.extension = [])
    (htext : q.text = p.text ++ ".json") : p.temporary = q.temporary := by
  have hsome : q.extension ≠ [] := (extension_of_json htext).mpr hnil
  rw [Path.mk.injEq, text_temporary, text_temporary, if_pos hnone, if_neg hsome, htext,
    String.append_assoc]
  rfl

theorem json_of_temporary_eq (hnone : p.extension = []) (hsome : q.extension ≠ [])
    (h : p.temporary = q.temporary) : q.text = p.text ++ ".json" ∧ p.fileName ≠ [] := by
  have htext := congrArg Path.text h
  rw [text_temporary, text_temporary, if_pos hnone, if_neg hsome,
    show ".json.tmp" = ".json" ++ ".tmp" from rfl, ← String.append_assoc,
    String.append_left_inj] at htext
  exact ⟨htext.symm, (extension_of_json htext.symm).mp hsome⟩

theorem temporary_injective_of_same (hsame : p.extension = [] ↔ q.extension = [])
    (h : p.temporary = q.temporary) : p = q := by
  have htext := congrArg Path.text h
  rw [text_temporary, text_temporary] at htext
  simp only [hsame, String.append_left_inj] at htext
  exact Path.mk.injEq _ _ ▸ htext

-- The temporary path of a path, and of which other paths it is the temporary path as well.
theorem temporary_paths_meet_in_pairs :
    -- what a file name is, and which file names have an extension
    (∀ (p : Path) (directory name : List Char), CutBehind '/' p.text.toList directory name ↔
      directory = p.directoryPart ∧ name = p.fileName) ∧
    (∀ p : Path, p.extension ≠ [] ↔ HasExtension p.fileName) ∧
    -- a suffix behind the path, which begins a file name of its own in the same directory
    (∀ p : Path,
      p.temporary.text = p.text ++ (if p.extension = [] then ".json.tmp" else ".tmp") ∧
      p.temporary ≠ p ∧ p.temporary.directoryPart = p.directoryPart ∧
      p.temporary.extension = ".tmp".toList) ∧
    -- two paths have it in common if one of them makes explicit what the other leaves out
    (∀ p q : Path, p ≠ q → (p.temporary = q.temporary ↔
      ∃ r : Path, r.fileName ≠ [] ∧ r.extension = [] ∧
        (p = r ∧ q.text = r.text ++ ".json" ∨ q = r ∧ p.text = r.text ++ ".json"))) ∧
    (∀ p q : Path, p.extension ≠ [] → q.extension ≠ [] → p.temporary = q.temporary → p = q) := by
  refine ⟨fun p directory name => cut_iff, fun p => extension_ne_nil_iff, fun p => ?_,
    fun p q hne => ⟨fun h => ?_, ?_⟩, fun p q hp hq => ?_⟩
  · exact ⟨p.text_temporary, p.temporary_ne, p.parts_temporary.1, p.extension_temporary⟩
  · by_cases hp : p.extension = []
    · by_cases hq : q.extension = []
      · exact absurd (temporary_injective_of_same (by simp [hp, hq]) h) hne
      · obtain ⟨htext, hname⟩ := json_of_temporary_eq hp hq h
        exact ⟨p, hname, hp, .inl ⟨rfl, htext⟩⟩
    · by_cases hq : q.extension = []
      · obtain ⟨htext, hname⟩ := json_of_temporary_eq hq hp h.symm
        exact ⟨q, hname, hq, .inr ⟨rfl, htext⟩⟩
      · exact absurd (temporary_injective_of_same (by simp [hp, hq]) h) hne
  · rintro ⟨r, hname, hnone, ⟨rfl, htext⟩ | ⟨rfl, htext⟩⟩
    · exact temporary_eq_of_json hname hnone htext
    · exact (temporary_eq_of_json hname hnone htext).symm
  · exact temporary_injective_of_same (by simp [hp, hq])

-- A name that leaves its extension out and the one that does not; a directory, whose file name is
-- empty, and a hidden file in it; and two names with extensions of their own.
theorem temporary_paths_meet_in_pairs_database :
    Path.mk "a/db" ≠ ⟨"a/db.json"⟩ ∧
    (Path.mk "a/db").temporary = (Path.mk "a/db.json").temporary ∧
    Path.mk "a/" ≠ ⟨"a/.json"⟩ ∧
    (Path.mk "a/").temporary ≠ (Path.mk "a/.json").temporary ∧
    (Path.mk "db.json").extension ≠ [] ∧ (Path.mk "db..").extension ≠ [] ∧
    (Path.mk "db.json").temporary ≠ (Path.mk "db..").temporary := by
  obtain ⟨-, -, -, hmeet, hdiffer⟩ := temporary_paths_meet_in_pairs
  have hne : Path.mk "a/" ≠ ⟨"a/.json"⟩ := by decide
  refine ⟨by decide, ?_, hne, fun h => ?_, by decide, by decide, fun h => ?_⟩
  · exact (hmeet ⟨"a/db"⟩ ⟨"a/db.json"⟩ (by decide)).mpr
      ⟨⟨"a/db"⟩, by decide, by decide, .inl ⟨rfl, rfl⟩⟩
  · obtain ⟨r, hname, -, ⟨rfl, -⟩ | ⟨rfl, htext⟩⟩ := (hmeet _ _ hne).mp h
    · exact hname (by decide)
    · have hlength := congrArg (fun text => text.toList.length) htext
      rw [String.toList_append, List.length_append] at hlength
      exact absurd hlength (by decide)
  · exact absurd (hdiffer ⟨"db.json"⟩ ⟨"db.."⟩ (by decide) (by decide) h) (by decide)

end Path

end SnapshotStore
