import Mathlib.Data.List.Nodup
import SnapshotStore.Backend.Basic

namespace SnapshotStore

theorem length_flatMap_eq_foldl {α β : Type} (list : List α) (f : α → List β) :
    (list.flatMap f).length = list.foldl (fun n x => n + (f x).length) 0 := by
  rw [List.length_flatMap, List.sum_eq_foldl, List.foldl_map]

-- Every key belongs to one segment, and a segment's copy lists the bindings of its keys. The laws
-- hold for the valid maps, which are all that the operations produce.
structure Backend.Laws {K V S : Type} [DecidableEq K] (backend : Backend K V S) where
  Valid : S → Prop
  segmentOf : K → Nat
  segmentOf_lt (key : K) : segmentOf key < backend.segments
  valid_empty : Valid backend.empty
  get_empty (key : K) : backend.get key backend.empty = none
  valid_insert {map : S} (key : K) (value : V) :
    Valid map → Valid (backend.insert key value map).2
  insert_fst {map : S} (key : K) (value : V) :
    Valid map → (backend.insert key value map).1 = backend.get key map
  get_insert {map : S} (key : K) (value : V) (k : K) : Valid map →
    backend.get k (backend.insert key value map).2 =
      if key = k then some value else backend.get k map
  valid_remove {map : S} (key : K) : Valid map → Valid (backend.remove key map).2
  remove_fst {map : S} (key : K) :
    Valid map → (backend.remove key map).1 = backend.get key map
  get_remove {map : S} (key k : K) : Valid map →
    backend.get k (backend.remove key map).2 = if key = k then none else backend.get k map
  mem_copy {map : S} {segment : Nat} (key : K) (value : V) :
    Valid map → segment < backend.segments →
      ((key, value) ∈ backend.copy segment map ↔
        segmentOf key = segment ∧ backend.get key map = some value)
  nodup_copy {map : S} {segment : Nat} : Valid map → segment < backend.segments →
    ((backend.copy segment map).map Prod.fst).Nodup
  contains_bulk {map : S} {bulk : Bulk K S} (key : K) : backend.bulk = some bulk → Valid map →
    bulk.contains key map = (backend.get key map).isSome
  count_bulk {map : S} {bulk : Bulk K S} {segment : Nat} : backend.bulk = some bulk → Valid map →
    segment < backend.segments → bulk.count segment map = (backend.copy segment map).length
  valid_wipe {map : S} {bulk : Bulk K S} {segment : Nat} : backend.bulk = some bulk → Valid map →
    segment < backend.segments → Valid (bulk.wipe segment map)
  get_wipe {map : S} {bulk : Bulk K S} {segment : Nat} (key : K) : backend.bulk = some bulk →
    Valid map → segment < backend.segments →
      backend.get key (bulk.wipe segment map) =
        if segmentOf key = segment then none else backend.get key map

namespace Backend.Laws

variable {K V S : Type} [DecidableEq K] {backend : Backend K V S} (laws : backend.Laws)
  {map : S}

include laws

-- The first segments list the bindings of their keys. This is what a copy of the map has
-- when it has come so far.
theorem mem_copies (hvalid : laws.Valid map) {count : Nat} (hcount : count ≤ backend.segments)
    (key : K) (value : V) :
    (key, value) ∈ ((List.range count).flatMap fun segment => backend.copy segment map) ↔
      laws.segmentOf key < count ∧ backend.get key map = some value := by
  rw [List.mem_flatMap]
  constructor
  · rintro ⟨segment, hsegment, hmem⟩
    rw [List.mem_range] at hsegment
    obtain ⟨hkey, hget⟩ := (laws.mem_copy key value hvalid (by omega)).mp hmem
    exact ⟨by omega, hget⟩
  · rintro ⟨hkey, hget⟩
    refine ⟨laws.segmentOf key, List.mem_range.mpr hkey, ?_⟩
    exact (laws.mem_copy key value hvalid (by omega)).mpr ⟨rfl, hget⟩

-- A key is listed by its own segment alone.
theorem nodup_copies (hvalid : laws.Valid map) {count : Nat} (hcount : count ≤ backend.segments) :
    (((List.range count).flatMap fun segment => backend.copy segment map).map
      Prod.fst).Nodup := by
  rw [List.map_flatMap, List.nodup_flatMap]
  constructor
  · intro segment hsegment
    exact laws.nodup_copy hvalid (by rw [List.mem_range] at hsegment; omega)
  · have hrange := (List.pairwise_lt_range (n := count)).imp_of_mem
      (S := fun a b => a < b ∧ a < count ∧ b < count)
      (fun ha hb h => ⟨h, List.mem_range.mp ha, List.mem_range.mp hb⟩)
    refine hrange.imp fun {a b} ⟨hlt, ha, hb⟩ => ?_
    intro key hkeyA hkeyB
    obtain ⟨⟨k, v⟩, hmemA, rfl⟩ := List.mem_map.mp hkeyA
    obtain ⟨⟨k', v'⟩, hmemB, hk⟩ := List.mem_map.mp hkeyB
    obtain rfl : k' = k := hk
    have hsegA := ((laws.mem_copy k' v hvalid (by omega)).mp hmemA).1
    have hsegB := ((laws.mem_copy k' v' hvalid (by omega)).mp hmemB).1
    omega

theorem mem_snapshot (hvalid : laws.Valid map) (key : K) (value : V) :
    (key, value) ∈ backend.snapshot map ↔ backend.get key map = some value := by
  rw [snapshot, laws.mem_copies hvalid (Nat.le_refl _)]
  exact and_iff_right (laws.segmentOf_lt key)

theorem nodup_snapshot (hvalid : laws.Valid map) :
    ((backend.snapshot map).map Prod.fst).Nodup :=
  laws.nodup_copies hvalid (Nat.le_refl _)

-- A list without repeated keys that shows the bindings of a map is a copy of the map.
theorem perm_snapshot (hvalid : laws.Valid map) {entries : List (K × V)}
    (hnodup : (entries.map Prod.fst).Nodup)
    (hmem : ∀ key value, (key, value) ∈ entries ↔ backend.get key map = some value) :
    entries.Perm (backend.snapshot map) := by
  rw [List.perm_ext_iff_of_nodup hnodup.of_map (laws.nodup_snapshot hvalid).of_map]
  rintro ⟨key, value⟩
  rw [hmem, laws.mem_snapshot hvalid]

theorem contains_eq (hvalid : laws.Valid map) (key : K) :
    backend.contains key map = (backend.get key map).isSome := by
  unfold contains
  split
  · rename_i bulk hbulk
    exact laws.contains_bulk key hbulk hvalid
  · rfl

theorem size_eq (hvalid : laws.Valid map) : backend.size map = (backend.snapshot map).length := by
  unfold size
  split
  · rename_i bulk hbulk
    rw [snapshot, length_flatMap_eq_foldl]
    refine List.foldl_ext _ _ _ fun n segment hsegment => ?_
    rw [laws.count_bulk hbulk hvalid (List.mem_range.mp hsegment)]
  · rfl

-- Wiping segment after segment takes their keys away and no others.
theorem wipes (bulk : Bulk K S) (hbulk : backend.bulk = some bulk) (hvalid : laws.Valid map)
    (count : Nat) (hcount : count ≤ backend.segments) :
    let wiped := (List.range count).foldl (fun map segment => bulk.wipe segment map) map
    laws.Valid wiped ∧ ∀ key, backend.get key wiped =
      if laws.segmentOf key < count then none else backend.get key map := by
  induction count with
  | zero => exact ⟨hvalid, fun key => rfl⟩
  | succ count ih =>
      obtain ⟨hv, hget⟩ := ih (by omega)
      simp only [List.range_succ, List.foldl_append, List.foldl_cons, List.foldl_nil]
      refine ⟨laws.valid_wipe hbulk hv (by omega), fun key => ?_⟩
      rw [laws.get_wipe key hbulk hv (by omega), hget key]
      by_cases hkey : laws.segmentOf key = count
      · simp [hkey]
      · by_cases hlt : laws.segmentOf key < count
        · simp [hkey, hlt, Nat.lt_succ_of_lt hlt]
        · simp [hkey, hlt, show ¬laws.segmentOf key < count + 1 by omega]

-- Removing the keys of some entries one by one takes these keys away and no others.
theorem removes (entries : List (K × V)) (hvalid : laws.Valid map) :
    let rest := entries.foldl (fun map entry => (backend.remove entry.1 map).2) map
    laws.Valid rest ∧ ∀ key, backend.get key rest =
      if key ∈ entries.map Prod.fst then none else backend.get key map := by
  induction entries generalizing map with
  | nil => exact ⟨hvalid, fun key => by simp⟩
  | cons entry entries ih =>
      obtain ⟨hv, hget⟩ := ih (laws.valid_remove entry.1 hvalid)
      refine ⟨hv, fun key => ?_⟩
      rw [List.foldl_cons, hget key, laws.get_remove entry.1 key hvalid]
      by_cases hkey : entry.1 = key
      · simp [hkey]
      · by_cases hmem : key ∈ entries.map Prod.fst
        · simp [hmem]
        · simp [hkey, hmem, Ne.symm hkey]

theorem valid_clear (hvalid : laws.Valid map) : laws.Valid (backend.clear map) := by
  unfold clear
  split
  · rename_i bulk hbulk
    exact (laws.wipes bulk hbulk hvalid backend.segments (Nat.le_refl _)).1
  · exact (laws.removes (backend.snapshot map) hvalid).1

theorem get_clear (hvalid : laws.Valid map) (key : K) :
    backend.get key (backend.clear map) = none := by
  unfold clear
  split
  · rename_i bulk hbulk
    rw [(laws.wipes bulk hbulk hvalid backend.segments (Nat.le_refl _)).2 key,
      if_pos (laws.segmentOf_lt key)]
  · rw [(laws.removes (backend.snapshot map) hvalid).2 key]
    cases hget : backend.get key map with
    | none => simp
    | some value =>
        have hmem := (laws.mem_snapshot hvalid key value).mpr hget
        rw [if_pos (List.mem_map.mpr ⟨(key, value), hmem, rfl⟩)]

-- Setting entries whose keys differ leaves each of them bound to its value.
theorem sets (entries : List (K × V)) (hnodup : (entries.map Prod.fst).Nodup)
    (hvalid : laws.Valid map) :
    let filled := entries.foldl (fun map entry => (backend.insert entry.1 entry.2 map).2) map
    laws.Valid filled ∧ ∀ key, backend.get key filled =
      match entries.find? (·.1 = key) with
      | some entry => some entry.2
      | none => backend.get key map := by
  induction entries generalizing map with
  | nil => exact ⟨hvalid, fun key => rfl⟩
  | cons entry entries ih =>
      rw [List.map_cons, List.nodup_cons] at hnodup
      obtain ⟨hv, hget⟩ := ih hnodup.2 (laws.valid_insert entry.1 entry.2 hvalid)
      refine ⟨hv, fun key => ?_⟩
      rw [List.foldl_cons, hget key, laws.get_insert entry.1 entry.2 key hvalid, List.find?_cons]
      by_cases hkey : entry.1 = key
      · have hnone : entries.find? (·.1 = key) = none := by
          rw [List.find?_eq_none]
          intro other hmem hother
          have hsame : other.1 = entry.1 := (of_decide_eq_true hother).trans hkey.symm
          exact hnodup.1 (List.mem_map.mpr ⟨other, hmem, hsame⟩)
        simp [hkey, hnone]
      · simp [hkey]

-- A map that is loaded from a copy of another one has the same bindings.
theorem get_load (hvalid : laws.Valid map) {entries : List (K × V)}
    (hperm : entries.Perm (backend.snapshot map)) (key : K) :
    backend.get key (backend.load entries) = backend.get key map := by
  have hnodup : (entries.map Prod.fst).Nodup :=
    (hperm.map Prod.fst).nodup_iff.mpr (laws.nodup_snapshot hvalid)
  rw [load, (laws.sets entries hnodup laws.valid_empty).2 key]
  split
  · rename_i entry hfind
    have hmem := hperm.mem_iff.mp (List.mem_of_find?_eq_some hfind)
    have hkey : entry.1 = key := by simpa using List.find?_some hfind
    have hget := (laws.mem_snapshot hvalid entry.1 entry.2).mp hmem
    rw [← hget, hkey]
  · rename_i hfind
    rw [laws.get_empty]
    cases hget : backend.get key map with
    | none => rfl
    | some value =>
        have hmem := hperm.mem_iff.mpr ((laws.mem_snapshot hvalid key value).mpr hget)
        simpa using List.find?_eq_none.mp hfind (key, value) hmem

end Backend.Laws

end SnapshotStore
