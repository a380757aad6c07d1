namespace SnapshotStore

-- A finite map as the list of its bindings.
structure Table (K V : Type) where
  entries : List (K × V)
  nodup : (entries.map Prod.fst).Nodup

namespace Table

variable {K V : Type}

def empty : Table K V :=
  ⟨[], List.nodup_nil⟩

instance : Inhabited (Table K V) := ⟨empty⟩

def keys (t : Table K V) : List K :=
  t.entries.map Prod.fst

def size (t : Table K V) : Nat :=
  t.entries.length

variable [DecidableEq K]

def lookup (key : K) : List (K × V) → Option V
  | [] => none
  | (k, v) :: rest => if k = key then some v else lookup key rest

def get (t : Table K V) (key : K) : Option V :=
  lookup key t.entries

def contains (t : Table K V) (key : K) : Bool :=
  (t.get key).isSome

-- A bound key keeps its place in the list, and a new one goes to the end.
def put (key : K) (value : V) : List (K × V) → List (K × V)
  | [] => [(key, value)]
  | (k, v) :: rest => if k = key then (key, value) :: rest else (k, v) :: put key value rest

theorem mem_keys_put {key : K} {value : V} {entries : List (K × V)} {k : K} :
    k ∈ (put key value entries).map Prod.fst ↔ k = key ∨ k ∈ entries.map Prod.fst := by
  induction entries with
  | nil => simp [put]
  | cons entry rest ih =>
    obtain ⟨a, b⟩ := entry
    by_cases h : a = key
    · subst h
      simp [put]
    · simp only [put, if_neg h, List.map_cons, List.mem_cons, ih]
      constructor
      · rintro (h | h | h)
        · exact .inr (.inl h)
        · exact .inl h
        · exact .inr (.inr h)
      · rintro (h | h | h)
        · exact .inr (.inl h)
        · exact .inl h
        · exact .inr (.inr h)

theorem nodup_put {key : K} {value : V} {entries : List (K × V)}
    (h : (entries.map Prod.fst).Nodup) : ((put key value entries).map Prod.fst).Nodup := by
  induction entries with
  | nil => simp [put]
  | cons entry rest ih =>
    obtain ⟨a, b⟩ := entry
    rw [List.map_cons, List.nodup_cons] at h
    by_cases hk : a = key
    · subst hk
      simpa only [put, if_true, List.map_cons, List.nodup_cons] using h
    · simp only [put, if_neg hk, List.map_cons, List.nodup_cons]
      refine ⟨?_, ih h.2⟩
      rw [mem_keys_put]
      rintro (e | e)
      · exact hk e
      · exact h.1 e

def set (t : Table K V) (key : K) (value : V) : Table K V :=
  ⟨put key value t.entries, nodup_put t.nodup⟩

def erase (t : Table K V) (key : K) : Table K V :=
  ⟨t.entries.filter fun entry => entry.1 ≠ key,
    t.nodup.sublist ((List.filter_sublist).map Prod.fst)⟩

-- Keeps the bindings whose keys pass the test.
def restrict (t : Table K V) (keep : K → Bool) : Table K V :=
  ⟨t.entries.filter fun entry => keep entry.1,
    t.nodup.sublist ((List.filter_sublist).map Prod.fst)⟩

-- Sets a binding and gives back the value that it replaces.
def insert (t : Table K V) (key : K) (value : V) : Option V × Table K V :=
  (t.get key, t.set key value)

-- Erases a binding and gives back the value that was bound.
def remove (t : Table K V) (key : K) : Option V × Table K V :=
  (t.get key, t.erase key)

def ofEntries (entries : List (K × V)) : Table K V :=
  entries.foldl (fun t entry => t.set entry.1 entry.2) empty

theorem get_empty (key : K) : (empty : Table K V).get key = none := rfl

theorem lookup_put {key k : K} {value : V} {entries : List (K × V)} :
    lookup k (put key value entries) = if key = k then some value else lookup k entries := by
  induction entries with
  | nil => simp [put, lookup]
  | cons entry rest ih =>
    obtain ⟨a, b⟩ := entry
    by_cases h : a = key
    · subst h
      by_cases hk : a = k <;> simp [put, lookup, hk]
    · by_cases hk : a = k
      · subst hk
        simp [put, lookup, h, Ne.symm h]
      · simp [put, lookup, h, hk, ih]

theorem get_set (t : Table K V) (key k : K) (value : V) :
    (t.set key value).get k = if key = k then some value else t.get k :=
  lookup_put

theorem lookup_filter {keep : K → Bool} {k : K} {entries : List (K × V)} :
    lookup k (entries.filter fun entry => keep entry.1) =
      if keep k then lookup k entries else none := by
  induction entries with
  | nil => simp [lookup]
  | cons entry rest ih =>
    obtain ⟨a, b⟩ := entry
    by_cases h : a = k
    · subst h
      by_cases hk : keep a <;> simp [lookup, hk, ih]
    · by_cases hk : keep a <;> simp [lookup, hk, h, ih]

theorem get_erase (t : Table K V) (key k : K) :
    (t.erase key).get k = if key = k then none else t.get k := by
  have h : lookup k (t.entries.filter fun entry => decide (entry.1 ≠ key)) =
      if decide (k ≠ key) then lookup k t.entries else none :=
    @lookup_filter _ _ _ (fun x => decide (x ≠ key)) k t.entries
  by_cases hk : key = k
  · subst hk
    simpa [get, erase] using h
  · simpa [get, erase, hk, Ne.symm hk] using h

theorem lookup_eq_some_iff {k : K} {v : V} {entries : List (K × V)}
    (h : (entries.map Prod.fst).Nodup) : lookup k entries = some v ↔ (k, v) ∈ entries := by
  induction entries with
  | nil => simp [lookup]
  | cons entry rest ih =>
    obtain ⟨a, b⟩ := entry
    rw [List.map_cons, List.nodup_cons] at h
    by_cases hk : a = k
    · subst hk
      have hnot : (a, v) ∉ rest := fun hm => h.1 (List.mem_map.mpr ⟨(a, v), hm, rfl⟩)
      simp [lookup, hnot, eq_comm]
    · simp [lookup, hk, Ne.symm hk, ih h.2]

theorem get_eq_some_iff (t : Table K V) (k : K) (v : V) :
    t.get k = some v ↔ (k, v) ∈ t.entries :=
  lookup_eq_some_iff t.nodup

end Table

end SnapshotStore
