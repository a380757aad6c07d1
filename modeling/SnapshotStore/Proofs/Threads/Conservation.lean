import SnapshotStore.Proofs.Threads.Clearing

namespace SnapshotStore

variable {K V S σ α : Type}

-- The backends that the library has itself.
inductive Backend.Provided [DecidableEq K] : {S : Type} → Backend K V S → Prop where
  | sharded (n r : Nat) [Nonzero n] [Nonzero r] (hash : K → Nat) : Provided (.sharded n r hash)
  | locked (m : Nat) [Nonzero m] (hash : K → Nat) : Provided (.locked m hash)

theorem Backend.Provided.nonempty_laws [DecidableEq K] {backend : Backend K V S}
    (h : backend.Provided) : Nonempty backend.Laws := by
  cases h with
  | sharded n r hash => exact ⟨shardedLaws n r hash⟩
  | locked m hash => exact ⟨lockedLaws m hash⟩

namespace Exchange

-- An insert that gives nothing back.
def binds : Exchange K V → Bool
  | ⟨.insert _ _, replaced⟩ => replaced.isNone
  | _ => false

-- A remove that gives something back.
def unbinds : Exchange K V → Bool
  | ⟨.remove _, removed⟩ => removed.isSome
  | _ => false

variable [DecidableEq K]

-- The value that an insert puts in for a key.
def putIn? (key : K) : Exchange K V → Option V
  | ⟨.insert other value, _⟩ => if other = key then some value else none
  | _ => none

-- The value under a key that comes back, out of an insert if it is replaced.
def comesBack? (key : K) : Exchange K V → Option V
  | ⟨.insert other _, replaced⟩ => if other = key then replaced else none
  | ⟨.remove other, removed⟩ => if other = key then removed else none
  | _ => none

def valuesIn (key : K) (exchanges : List (Exchange K V)) : Multiset V :=
  ↑(exchanges.filterMap (putIn? key))

def valuesBack (key : K) (exchanges : List (Exchange K V)) : Multiset V :=
  ↑(exchanges.filterMap (comesBack? key))

variable (key : K) (exchanges : List (Exchange K V)) (exchange : Exchange K V)

theorem valuesIn_append : valuesIn key (exchanges ++ [exchange]) =
    valuesIn key exchanges + ↑(exchange.putIn? key).toList := by
  rw [valuesIn, List.filterMap_append, ← Multiset.coe_add]
  rfl

theorem valuesBack_append : valuesBack key (exchanges ++ [exchange]) =
    valuesBack key exchanges + ↑(exchange.comesBack? key).toList := by
  rw [valuesBack, List.filterMap_append, ← Multiset.coe_add]
  rfl

end Exchange

namespace Backend.Laws

variable [DecidableEq K] {backend : Backend K V S} (laws : backend.Laws) {map : S}

include laws

theorem size_empty : backend.size backend.empty = 0 := by
  rw [(laws.size_eq_ncard laws.valid_empty).2]
  simp [laws.get_empty]

theorem size_insert (hvalid : laws.Valid map) (key : K) (value : V) :
    backend.size (backend.insert key value map).2 =
      backend.size map + if (backend.get key map).isNone then 1 else 0 := by
  have hbound : {k | (backend.get k (backend.insert key value map).2).isSome} =
      {k | (backend.get k map).isSome} ∪ {key} := by
    ext k
    simp only [laws.get_insert key value k hvalid, Set.mem_ofPred_eq, Set.mem_union,
      Set.mem_singleton_iff]
    by_cases hk : key = k
    · simp [hk]
    · simp [hk, Ne.symm hk]
  obtain ⟨hfinite, hsize⟩ := laws.size_eq_ncard hvalid
  rw [(laws.size_eq_ncard (laws.valid_insert key value hvalid)).2, hbound, hsize,
    Set.union_singleton]
  cases hkey : backend.get key map with
  | none =>
      have hnew : key ∉ {k | (backend.get k map).isSome} := by simp [hkey]
      rw [Set.ncard_insert_of_notMem hnew hfinite]
      rfl
  | some old =>
      have hold : key ∈ {k | (backend.get k map).isSome} := by simp [hkey]
      rw [Set.insert_eq_of_mem hold]
      rfl

theorem size_remove (hvalid : laws.Valid map) (key : K) :
    backend.size (backend.remove key map).2 + (if (backend.get key map).isSome then 1 else 0) =
      backend.size map := by
  have hbound : {k | (backend.get k (backend.remove key map).2).isSome} =
      {k | (backend.get k map).isSome} \ {key} := by
    ext k
    simp only [laws.get_remove key k hvalid, Set.mem_ofPred_eq, Set.mem_sdiff,
      Set.mem_singleton_iff]
    by_cases hk : key = k
    · simp [hk]
    · simp [hk, Ne.symm hk]
  obtain ⟨hfinite, hsize⟩ := laws.size_eq_ncard hvalid
  rw [(laws.size_eq_ncard (laws.valid_remove key hvalid)).2, hbound, hsize]
  cases hkey : backend.get key map with
  | none =>
      have hnone : key ∉ {k | (backend.get k map).isSome} := by simp [hkey]
      rw [Set.sdiff_singleton_eq_self hnone]
      rfl
  | some old =>
      have hsome : key ∈ {k | (backend.get k map).isSome} := by simp [hkey]
      exact Set.ncard_sdiff_singleton_add_one hsome hfinite

end Backend.Laws

-- What the exchanges since the map was empty tell about it.
structure Backend.Balances [DecidableEq K] (backend : Backend K V S)
    (exchanges : List (Exchange K V)) (map : S) : Prop where
  values (key : K) : Exchange.valuesIn key exchanges =
    Exchange.valuesBack key exchanges + ↑(backend.get key map).toList
  size : exchanges.countP Exchange.binds = exchanges.countP Exchange.unbinds + backend.size map

namespace Backend.Balances

variable [DecidableEq K] {backend : Backend K V S} {exchanges : List (Exchange K V)} {map : S}

theorem start (laws : backend.Laws) : backend.Balances [] backend.empty where
  values key := by simp [Exchange.valuesIn, Exchange.valuesBack, laws.get_empty]
  size := by simp [laws.size_empty]

-- An exchange is settled by what it puts in, what comes back out of it and what it leaves bound.
theorem extend {exchange : Exchange K V} {after : S} (h : backend.Balances exchanges map)
    (hvalues : ∀ key, (↑(exchange.putIn? key).toList + ↑(backend.get key map).toList : Multiset V) =
      ↑(exchange.comesBack? key).toList + ↑(backend.get key after).toList)
    (hsize : (if exchange.binds then 1 else 0) + backend.size map =
      (if exchange.unbinds then 1 else 0) + backend.size after) :
    backend.Balances (exchanges ++ [exchange]) after where
  values key := by
    have hexchange := hvalues key
    rw [add_comm] at hexchange
    rw [Exchange.valuesIn_append, Exchange.valuesBack_append, h.values key, add_assoc, hexchange,
      add_assoc]
  size := by
    rw [List.countP_append, List.countP_append, List.countP_singleton, List.countP_singleton,
      h.size]
    omega

theorem insert (laws : backend.Laws) (hvalid : laws.Valid map)
    (h : backend.Balances exchanges map) (other : K) (value : V) :
    backend.Balances (exchanges ++ [⟨.insert other value, (backend.insert other value map).1⟩])
      (backend.insert other value map).2 := by
  rw [laws.insert_fst other value hvalid]
  refine h.extend (fun key => ?_) ?_
  · rw [laws.get_insert other value key hvalid]
    by_cases hkey : other = key
    · subst hkey
      simp [Exchange.putIn?, Exchange.comesBack?, add_comm]
    · simp [Exchange.putIn?, Exchange.comesBack?, hkey]
  · rw [laws.size_insert hvalid other value]
    simp [Exchange.binds, Exchange.unbinds, add_comm]

theorem remove (laws : backend.Laws) (hvalid : laws.Valid map)
    (h : backend.Balances exchanges map) (other : K) :
    backend.Balances (exchanges ++ [⟨.remove other, (backend.remove other map).1⟩])
      (backend.remove other map).2 := by
  rw [laws.remove_fst other hvalid]
  refine h.extend (fun key => ?_) ?_
  · rw [laws.get_remove other key hvalid]
    by_cases hkey : other = key
    · subst hkey
      simp [Exchange.putIn?, Exchange.comesBack?]
    · simp [Exchange.putIn?, Exchange.comesBack?, hkey]
  · have hsize := laws.size_remove hvalid other
    rw [add_comm] at hsize
    exact (Nat.zero_add _).trans hsize.symm

theorem serve {setting : Setting K V S σ} (laws : setting.backend.Laws) {world : World S σ}
    (hvalid : laws.Valid world.map) (h : setting.backend.Balances exchanges world.map)
    {request : Request K V} (hwipe : ∀ segment, request ≠ .wipe segment) :
    setting.backend.Balances (exchanges ++ [⟨request, (world.serve setting request).1⟩])
      (world.serve setting request).2.map := by
  cases request with
  | insert key value => exact h.insert laws hvalid key value
  | remove key => exact h.remove laws hvalid key
  | wipe segment => exact absurd rfl (hwipe segment)
  | _ =>
      rw [World.serve_map setting _ world rfl]
      exact h.extend (fun _ => rfl) rfl

end Backend.Balances

namespace Threads

variable [DecidableEq K] {setting : Setting K V S σ} {start threads : Threads K V S σ α}
  {moves : List (Move K V S)}

theorem Run.balances (laws : setting.backend.Laws)
    (hempty : start.world.map = setting.backend.empty) (h : Run setting start moves threads)
    (hwipe : ∀ move ∈ moves, ∀ segment, move.exchange.request ≠ .wipe segment) :
    laws.Valid threads.world.map ∧
      setting.backend.Balances (moves.map Move.exchange) threads.world.map := by
  induction h with
  | start =>
      rw [hempty]
      exact ⟨laws.valid_empty, .start laws⟩
  | @serve moves threads after thread request next _ hcall hstep ih =>
      rw [List.forall_mem_append, List.forall_mem_singleton] at hwipe
      obtain ⟨hvalid, hbalances⟩ := ih hwipe.1
      rw [(step?_call hcall hstep).2.2, List.map_append]
      exact ⟨valid_serve laws request hvalid fun segment hsame => absurd hsame (hwipe.2 segment),
        hbalances.serve laws hvalid hwipe.2⟩
  | beside _ _ _ huntouched ih =>
      rw [huntouched.map]
      exact ih hwipe

-- The moves stand in the order in which they take effect, whichever threads they are of.
theorem values_are_conserved (hbackend : setting.backend.Provided)
    (hempty : start.world.map = setting.backend.empty) (hrun : Run setting start moves threads)
    (hwipe : ∀ move ∈ moves, ∀ segment, move.exchange.request ≠ .wipe segment) :
    let exchanges := moves.map Move.exchange
    -- what was put in for a key has come back, but for what is still bound
    (∀ key, Exchange.valuesIn key exchanges =
      Exchange.valuesBack key exchanges + ↑(setting.backend.get key threads.world.map).toList) ∧
    -- inserts that gave nothing back, less removes that gave something back
    ((exchanges.countP Exchange.binds : Int) - exchanges.countP Exchange.unbinds =
      setting.backend.size threads.world.map) := by
  intro exchanges
  obtain ⟨laws⟩ := hbackend.nonempty_laws
  obtain ⟨-, hbalances⟩ := hrun.balances laws hempty hwipe
  have hsize : exchanges.countP Exchange.binds =
      exchanges.countP Exchange.unbinds + setting.backend.size threads.world.map := hbalances.size
  refine ⟨hbalances.values, ?_⟩
  omega

def contenders :
    Threads UInt8 UInt8 (Shards UInt8 UInt8 2 1) Unit (List (Outcome UInt8 UInt8 Unit)) where
  routines :=
    [sharedPages.performAll [.insert 1 10, .remove 1, .insert 3 30],
      sharedPages.performAll [.insert 1 11, .insert 1 10]]
  world :=
    { files := default, channel := default, mishaps := fun _ => .none, desk := ()
      map := sharedPages.backend.empty }

-- The same value is put in twice. It comes back once and is bound once.
theorem values_are_conserved_contended : ∃ moves threads,
    contenders.play sharedPages.setting [0, 1, 0, 1, 0] = some (moves, threads) ∧
    moves.map Move.exchange =
      [⟨.insert 1 10, none⟩, ⟨.insert 1 11, some 10⟩, ⟨.remove 1, some 11⟩,
        ⟨.insert 1 10, none⟩, ⟨.insert 3 30, none⟩] ∧
    sharedPages.setting.backend.Provided ∧
    (∀ move ∈ moves, ∀ segment, move.exchange.request ≠ .wipe segment) ∧
    ({10, 11, 10} : Multiset UInt8) =
      {10, 11} + ↑(sharedPages.setting.backend.get 1 threads.world.map).toList ∧
    (3 : Int) - 1 = sharedPages.setting.backend.size threads.world.map := by
  obtain ⟨⟨moves, threads⟩, hplay⟩ : ∃ last,
      contenders.play sharedPages.setting [0, 1, 0, 1, 0] = some last := ⟨_, rfl⟩
  have hlast : (contenders.play sharedPages.setting [0, 1, 0, 1, 0]).map
      (fun last => last.1.map Move.exchange) =
      some [⟨.insert 1 10, none⟩, ⟨.insert 1 11, some 10⟩, ⟨.remove 1, some 11⟩,
        ⟨.insert 1 10, none⟩, ⟨.insert 3 30, none⟩] := rfl
  rw [hplay] at hlast
  have hexchanges : moves.map Move.exchange = _ := Option.some.inj hlast
  have hwipe : ∀ move ∈ moves, ∀ segment, move.exchange.request ≠ .wipe segment := by
    have hall : ∀ exchange ∈ moves.map Move.exchange, ∀ segment,
        exchange.request ≠ .wipe segment := by
      rw [hexchanges]
      simp
    exact fun move hmove => hall _ (List.mem_map_of_mem hmove)
  have hprovided : sharedPages.setting.backend.Provided := .sharded 2 1 UInt8.toNat
  have hrun : Run sharedPages.setting contenders moves threads := Run.play .start hplay
  obtain ⟨hvalues, hsize⟩ := values_are_conserved hprovided rfl hrun hwipe
  rw [hexchanges] at hvalues hsize
  exact ⟨moves, threads, hplay, hexchanges, hprovided, hwipe, hvalues 1, hsize⟩

end Threads

end SnapshotStore
