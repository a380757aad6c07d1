import SnapshotStore.Backend.Locked
import SnapshotStore.Backend.Sharded
import SnapshotStore.Proofs.Backend.Buckets

namespace SnapshotStore

namespace Shards

theorem mem_positions {n r shard i : Nat} :
    i ∈ positions n r shard ↔ i < n * r ∧ i % n = shard ∧ shard < n := by
  unfold positions
  split
  · rename_i hshard
    rw [List.mem_map]
    constructor
    · rintro ⟨k, hk, rfl⟩
      rw [List.mem_range] at hk
      have hle : (k + 1) * n ≤ r * n := Nat.mul_le_mul_right n hk
      rw [Nat.add_mul, Nat.one_mul] at hle
      refine ⟨by rw [Nat.mul_comm n r]; omega, ?_, hshard⟩
      rw [Nat.mul_comm, Nat.mul_add_mod, Nat.mod_eq_of_lt hshard]
    · rintro ⟨hi, rfl, -⟩
      refine ⟨i / n, List.mem_range.mpr (Nat.div_lt_of_lt_mul hi), ?_⟩
      rw [Nat.mul_comm]
      exact Nat.div_add_mod i n
  · rename_i hshard
    simp [hshard]

theorem shard_lt {K : Type} {n : Nat} [Nonzero n] (hash : K → Nat) (key : K) : hash key % n < n :=
  Nat.mod_lt _ (Nat.pos_of_neZero n)

theorem nodup_positions (n r shard : Nat) : (positions n r shard).Nodup := by
  unfold positions
  split
  · rename_i hshard
    refine List.nodup_range.map fun a b hab => ?_
    exact Nat.eq_of_mul_eq_mul_right (by omega) (Nat.add_right_cancel hab)
  · exact List.nodup_nil

-- The hash that selects a bucket of the row selects the shard that the bucket belongs to.
theorem index_mem_positions (n r : Nat) [Nonzero n] [Nonzero r] (hash : Nat) (shard : Nat)
    (hshard : shard < n) : hash % (n * r) ∈ positions n r shard ↔ hash % n = shard := by
  have hpos : 0 < n * r := Nat.pos_of_neZero (n * r)
  rw [mem_positions, Nat.mod_mul_right_mod]
  constructor
  · rintro ⟨-, h, -⟩
    exact h
  · intro h
    exact ⟨Nat.mod_lt _ hpos, h, hshard⟩

theorem get_wipe {K V : Type} [DecidableEq K] {n r shard : Nat} [Nonzero n] [Nonzero r]
    (hash : K → Nat) (key : K) (hshard : shard < n) (shards : Shards K V n r) :
    Buckets.get hash key (Buckets.wipe (positions n r shard) shards) =
      if hash key % n = shard then none else Buckets.get hash key shards := by
  rw [Buckets.get_wipe]
  exact if_congr (index_mem_positions n r (hash key) shard hshard) rfl rfl

end Shards

namespace Backend

variable {K V S : Type} [DecidableEq K]

def shardedLaws (n r : Nat) [Nonzero n] [Nonzero r] (hash : K → Nat) :
    (sharded n r hash : Backend K V _).Laws where
  Valid := Buckets.Placed hash
  segmentOf key := hash key % n
  segmentOf_lt := Shards.shard_lt hash
  valid_empty := Buckets.placed_empty hash
  get_empty := Buckets.get_empty hash
  valid_insert key value := Buckets.placed_insert key value
  insert_fst key value _ := Buckets.insert_fst hash key value _
  get_insert key value k _ := Buckets.get_insert hash key k value _
  valid_remove key := Buckets.placed_remove key
  remove_fst key _ := Buckets.remove_fst hash key _
  get_remove key k _ := Buckets.get_remove hash key k _
  mem_copy key value hplaced hsegment := by
    change _ ∈ Buckets.entries _ _ ↔ _ ∧ Buckets.get hash key _ = _
    rw [Buckets.mem_entries hplaced, Shards.index_mem_positions n r (hash key) _ hsegment,
      Buckets.get_eq]
  nodup_copy hplaced _ := Buckets.nodup_entries hplaced (Shards.nodup_positions n r _)
  contains_bulk key hbulk _ := by
    obtain rfl := Option.some.inj hbulk
    rfl
  count_bulk hbulk _ _ := by
    obtain rfl := Option.some.inj hbulk
    exact Buckets.count_eq _ _
  valid_wipe hbulk hplaced _ := by
    obtain rfl := Option.some.inj hbulk
    exact Buckets.placed_wipe _ hplaced
  get_wipe key hbulk _ hsegment := by
    obtain rfl := Option.some.inj hbulk
    have hshard : _ < n := hsegment
    exact Shards.get_wipe hash key hshard _

def lockedLaws (m : Nat) [Nonzero m] (hash : K → Nat) : (locked m hash : Backend K V _).Laws where
  Valid := Buckets.Placed hash
  segmentOf _ := 0
  segmentOf_lt _ := Nat.one_pos
  valid_empty := Buckets.placed_empty hash
  get_empty := Buckets.get_empty hash
  valid_insert key value := Buckets.placed_insert key value
  insert_fst key value _ := Buckets.insert_fst hash key value _
  get_insert key value k _ := Buckets.get_insert hash key k value _
  valid_remove key := Buckets.placed_remove key
  remove_fst key _ := Buckets.remove_fst hash key _
  get_remove key k _ := Buckets.get_remove hash key k _
  mem_copy {_ segment} key value hplaced hsegment := by
    change _ ∈ Buckets.entries _ _ ↔ _ ∧ Buckets.get hash key _ = _
    have hindex : hash key % m ∈ List.range m :=
      List.mem_range.mpr (Nat.mod_lt _ (Nat.pos_of_neZero m))
    have hzero : 0 = segment := by
      have : segment < 1 := hsegment
      omega
    rw [Buckets.mem_entries hplaced, Buckets.get_eq]
    exact and_congr_left' (iff_of_true hindex hzero)
  nodup_copy hplaced _ := Buckets.nodup_entries hplaced List.nodup_range
  contains_bulk key hbulk _ := by
    obtain rfl := Option.some.inj hbulk
    rfl
  count_bulk hbulk _ _ := by
    obtain rfl := Option.some.inj hbulk
    exact Buckets.count_eq _ _
  valid_wipe hbulk _ _ := by
    obtain rfl := Option.some.inj hbulk
    exact Buckets.placed_empty hash
  get_wipe {_ _ segment} key hbulk _ hsegment := by
    obtain rfl := Option.some.inj hbulk
    have hzero : 0 = segment := by
      have : segment < 1 := hsegment
      omega
    rw [if_pos hzero]
    exact Buckets.get_empty hash key

def Laws.withoutBulk {backend : Backend K V S} (laws : backend.Laws) :
    backend.withoutBulk.Laws where
  Valid := laws.Valid
  segmentOf := laws.segmentOf
  segmentOf_lt := laws.segmentOf_lt
  valid_empty := laws.valid_empty
  get_empty := laws.get_empty
  valid_insert := laws.valid_insert
  insert_fst := laws.insert_fst
  get_insert := laws.get_insert
  valid_remove := laws.valid_remove
  remove_fst := laws.remove_fst
  get_remove := laws.get_remove
  mem_copy := laws.mem_copy
  nodup_copy := laws.nodup_copy
  contains_bulk _ hbulk := by cases hbulk
  count_bulk hbulk := by cases hbulk
  valid_wipe hbulk := by cases hbulk
  get_wipe _ hbulk := by cases hbulk

end Backend

end SnapshotStore
