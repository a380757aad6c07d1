import SnapshotStore.Backend.Buckets
import SnapshotStore.Proofs.Backend.Laws

namespace SnapshotStore.Buckets

variable {K V : Type} {m : Nat}

theorem table_of_lt (buckets : Buckets K V m) {i : Nat} (hi : i < m) :
    buckets.table i = buckets[i] := by
  simp [table, hi]

theorem table_empty (i : Nat) : (empty : Buckets K V m).table i = .empty := by
  by_cases hi : i < m
  · rw [table_of_lt _ hi]
    simp [empty]
  · simp [table, hi]

theorem table_setIfInBounds_empty (buckets : Buckets K V m) (i j : Nat) :
    table (buckets.setIfInBounds i .empty) j = if i = j then .empty else buckets.table j := by
  by_cases hj : j < m
  · rw [table_of_lt _ hj, table_of_lt _ hj, Vector.getElem_setIfInBounds hj]
  · simp [table, hj]

theorem table_wipe (positions : List Nat) (buckets : Buckets K V m) (j : Nat) :
    (wipe positions buckets).table j = if j ∈ positions then .empty else buckets.table j := by
  induction positions generalizing buckets with
  | nil => simp [wipe]
  | cons i positions ih =>
      rw [show wipe (i :: positions) buckets = wipe positions (buckets.setIfInBounds i .empty)
        from rfl, ih, table_setIfInBounds_empty]
      by_cases hmem : j ∈ positions
      · simp [hmem]
      · simp [hmem, eq_comm]

theorem count_eq (positions : List Nat) (buckets : Buckets K V m) :
    count positions buckets = (entries positions buckets).length := by
  rw [count, entries, length_flatMap_eq_foldl]
  rfl

variable [DecidableEq K]

def Placed (hash : K → Nat) (buckets : Buckets K V m) : Prop :=
  ∀ i key value, (buckets.table i).get key = some value → i = hash key % m

theorem placed_empty (hash : K → Nat) : Placed hash (empty : Buckets K V m) := by
  intro i key value hget
  rw [table_empty, Table.get_empty] at hget
  cases hget

theorem mem_entries {hash : K → Nat} {buckets : Buckets K V m} {positions : List Nat}
    (hplaced : buckets.Placed hash) (key : K) (value : V) :
    (key, value) ∈ entries positions buckets ↔
      hash key % m ∈ positions ∧ (buckets.table (hash key % m)).get key = some value := by
  rw [entries, List.mem_flatMap]
  constructor
  · rintro ⟨i, hi, hmem⟩
    have hget := ((buckets.table i).get_eq_some_iff key value).mpr hmem
    obtain rfl := hplaced i key value hget
    exact ⟨hi, hget⟩
  · rintro ⟨hi, hget⟩
    exact ⟨_, hi, (Table.get_eq_some_iff _ key value).mp hget⟩

theorem nodup_entries {hash : K → Nat} {buckets : Buckets K V m} {positions : List Nat}
    (hplaced : buckets.Placed hash) (hpositions : positions.Nodup) :
    ((entries positions buckets).map Prod.fst).Nodup := by
  rw [entries, List.map_flatMap, List.nodup_flatMap]
  refine ⟨fun i _ => (buckets.table i).nodup, hpositions.imp ?_⟩
  intro i j hne key hi hj
  obtain ⟨⟨k, v⟩, hmem, rfl⟩ := List.mem_map.mp hi
  obtain ⟨⟨k', v'⟩, hmem', hk⟩ := List.mem_map.mp hj
  obtain rfl : k' = k := hk
  have hgeti := ((buckets.table i).get_eq_some_iff k' v).mpr hmem
  have hgetj := ((buckets.table j).get_eq_some_iff k' v').mpr hmem'
  exact hne ((hplaced i k' v hgeti).trans (hplaced j k' v' hgetj).symm)

theorem placed_wipe {hash : K → Nat} {buckets : Buckets K V m} (positions : List Nat)
    (hplaced : buckets.Placed hash) : (wipe positions buckets).Placed hash := by
  intro i key value hget
  rw [table_wipe] at hget
  split at hget
  · rw [Table.get_empty] at hget
    cases hget
  · exact hplaced i key value hget

variable [Nonzero m]

theorem get_eq (hash : K → Nat) (key : K) (buckets : Buckets K V m) :
    buckets.get hash key = (buckets.table (hash key % m)).get key := by
  rw [table_of_lt _ (Nat.mod_lt _ (Nat.pos_of_neZero m))]
  rfl

theorem get_empty (hash : K → Nat) (key : K) : (empty : Buckets K V m).get hash key = none := by
  rw [get_eq, table_empty, Table.get_empty]

theorem get_wipe (hash : K → Nat) (key : K) (positions : List Nat) (buckets : Buckets K V m) :
    (wipe positions buckets).get hash key =
      if hash key % m ∈ positions then none else buckets.get hash key := by
  rw [get_eq, get_eq, table_wipe]
  split
  · exact Table.get_empty key
  · rfl

omit [DecidableEq K] in
theorem table_set (buckets : Buckets K V m) (hash : K → Nat) (key : K) (changed : Table K V)
    (j : Nat) : table (buckets.set (index hash key) changed (index hash key).isLt) j =
      if hash key % m = j then changed else buckets.table j := by
  by_cases hj : j < m
  · rw [table_of_lt _ hj, table_of_lt _ hj, Vector.getElem_set]
    rfl
  · have hne : hash key % m ≠ j := by
      have := Nat.mod_lt (hash key) (Nat.pos_of_neZero m)
      omega
    simp [table, hj, hne]

theorem insert_fst (hash : K → Nat) (key : K) (value : V) (buckets : Buckets K V m) :
    (buckets.insert hash key value).1 = buckets.get hash key := rfl

theorem remove_fst (hash : K → Nat) (key : K) (buckets : Buckets K V m) :
    (buckets.remove hash key).1 = buckets.get hash key := rfl

theorem table_insert (hash : K → Nat) (key : K) (value : V) (buckets : Buckets K V m) (j : Nat) :
    (buckets.insert hash key value).2.table j =
      if hash key % m = j then (buckets.table j).set key value else buckets.table j := by
  rw [insert, table_set]
  split
  · rename_i hj
    subst hj
    rw [table_of_lt _ (Nat.mod_lt _ (Nat.pos_of_neZero m))]
    rfl
  · rfl

theorem table_remove (hash : K → Nat) (key : K) (buckets : Buckets K V m) (j : Nat) :
    (buckets.remove hash key).2.table j =
      if hash key % m = j then (buckets.table j).erase key else buckets.table j := by
  rw [remove, table_set]
  split
  · rename_i hj
    subst hj
    rw [table_of_lt _ (Nat.mod_lt _ (Nat.pos_of_neZero m))]
    rfl
  · rfl

theorem placed_insert {hash : K → Nat} {buckets : Buckets K V m} (key : K) (value : V)
    (hplaced : buckets.Placed hash) : (buckets.insert hash key value).2.Placed hash := by
  intro i k v hget
  rw [table_insert] at hget
  split at hget
  · rename_i hi
    rw [Table.get_set] at hget
    split at hget
    · rename_i hk
      rw [← hi, hk]
    · exact hplaced i k v hget
  · exact hplaced i k v hget

theorem placed_remove {hash : K → Nat} {buckets : Buckets K V m} (key : K)
    (hplaced : buckets.Placed hash) : (buckets.remove hash key).2.Placed hash := by
  intro i k v hget
  rw [table_remove] at hget
  split at hget
  · rw [Table.get_erase] at hget
    split at hget
    · cases hget
    · exact hplaced i k v hget
  · exact hplaced i k v hget

theorem get_insert (hash : K → Nat) (key k : K) (value : V) (buckets : Buckets K V m) :
    (buckets.insert hash key value).2.get hash k =
      if key = k then some value else buckets.get hash k := by
  rw [get_eq, get_eq, table_insert]
  split
  · rw [Table.get_set]
  · rename_i hne
    rw [if_neg fun hk => hne (by rw [hk])]

theorem get_remove (hash : K → Nat) (key k : K) (buckets : Buckets K V m) :
    (buckets.remove hash key).2.get hash k =
      if key = k then none else buckets.get hash k := by
  rw [get_eq, get_eq, table_remove]
  split
  · rw [Table.get_erase]
  · rename_i hne
    rw [if_neg fun hk => hne (by rw [hk])]

end SnapshotStore.Buckets
