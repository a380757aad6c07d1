import SnapshotStore.Proofs.Threads.Lock

namespace SnapshotStore

variable {K V S σ α : Type} {setting : Setting K V S σ}

-- Whatever is asked for leaves the map valid.
def Setting.Lasting [DecidableEq K] (setting : Setting K V S σ) (laws : setting.backend.Laws) :
    Prop :=
  ∀ (request : Request K V) (world : World S σ), laws.Valid world.map →
    laws.Valid (world.serve setting request).2.map

theorem Setting.lasting_of_wipe [DecidableEq K] {laws : setting.backend.Laws}
    (hwipe : ∀ (segment : Nat) (world : World S σ), laws.Valid world.map →
      laws.Valid (world.wipe setting segment).map) : setting.Lasting laws := by
  intro request world hvalid
  cases request with
  | wipe segment => exact hwipe segment world hvalid
  | _ => exact Threads.valid_serve laws _ hvalid fun segment h => by cases h

theorem World.wipe_eq_of_bulk_eq_none (hbulk : setting.backend.bulk = none) (segment : Nat)
    (world : World S σ) : world.wipe setting segment = world := by
  rw [World.wipe, hbulk]

theorem Setting.lasting_of_bulk_eq_none [DecidableEq K] (laws : setting.backend.Laws)
    (hbulk : setting.backend.bulk = none) : setting.Lasting laws :=
  lasting_of_wipe fun segment world hvalid =>
    (world.wipe_eq_of_bulk_eq_none hbulk segment).symm ▸ hvalid

-- The request sets no value for the key and does not remove it.
def Request.Spares (key : K) : Request K V → Prop
  | .insert other _ => other ≠ key
  | .remove other => other ≠ key
  | _ => True

-- A request by which a key may lose its binding.
def Request.takesAway : Request K V → Bool
  | .remove _ => true
  | .wipe _ => true
  | _ => false

namespace Threads

variable {start threads : Threads K V S σ α} {moves front later : List (Move K V S)}

theorem Run.cut (h : Run setting start (front ++ later) threads) :
    ∃ middle, Run setting start front middle ∧ Run setting middle later threads := by
  generalize hmoves : front ++ later = moves at h
  induction h generalizing later with
  | start =>
      obtain ⟨rfl, rfl⟩ := List.append_eq_nil_iff.mp hmoves
      exact ⟨start, .start, .start⟩
  | @serve moves threads after thread request next hrun hcall hstep ih =>
      rcases List.eq_nil_or_concat' later with rfl | ⟨between, last, rfl⟩
      · rw [List.append_nil] at hmoves
        subst hmoves
        exact ⟨after, .serve hrun hcall hstep, .start⟩
      · rw [← List.append_assoc] at hmoves
        obtain ⟨hbefore, hlast⟩ := List.append_inj' hmoves rfl
        obtain rfl := List.singleton_inj.mp hlast
        obtain ⟨middle, hfront, hlater⟩ := ih hbefore
        exact ⟨middle, hfront, .serve hlater hcall hstep⟩
  | beside _ haside hstep huntouched ih =>
      obtain ⟨middle, hfront, hlater⟩ := ih hmoves
      exact ⟨middle, hfront, .beside hlater haside hstep huntouched⟩

-- The map is as the last move has left it.
theorem Run.map_eq_of_last {last : Move K V S} (h : Run setting start (front ++ [last]) threads) :
    threads.world.map = last.map := by
  generalize hmoves : front ++ [last] = moves at h
  induction h with
  | start => simp at hmoves
  | serve _ hcall hstep _ =>
      obtain rfl := List.singleton_inj.mp (List.append_inj' hmoves rfl).2
      rw [(step?_call hcall hstep).2.2]
      rfl
  | beside _ _ _ huntouched ih => rw [huntouched.map, ih hmoves]

-- What comes after a move is a run from the map that the move has left.
theorem Run.exists_after {tail : List (Move K V S)} {move : Move K V S}
    (h : Run setting start moves threads) (hmoves : moves = front ++ move :: tail) :
    ∃ middle, Run setting middle tail threads ∧ middle.world.map = move.map := by
  subst hmoves
  rw [List.append_cons] at h
  obtain ⟨middle, hfront, htail⟩ := h.cut
  exact ⟨middle, htail, hfront.map_eq_of_last⟩

-- What comes after any one of some moves.
theorem Run.after_mem {during : List (Move K V S)} {move : Move K V S}
    (h : Run setting start (front ++ during ++ later) threads) (hmove : move ∈ during) :
    ∃ earlier tail middle, during = earlier ++ move :: tail ∧
      Run setting middle (tail ++ later) threads ∧ middle.world.map = move.map := by
  obtain ⟨earlier, tail, rfl⟩ := List.append_of_mem hmove
  have hmoves : front ++ (earlier ++ move :: tail) ++ later =
      (front ++ earlier) ++ move :: (tail ++ later) := by simp
  obtain ⟨middle, htail, hmap⟩ := h.exists_after hmoves
  exact ⟨earlier, tail, middle, rfl, htail, hmap⟩

theorem Run.preserves {P : S → Prop} (h : Run setting start moves threads)
    (hstart : P start.world.map)
    (hserve : ∀ move ∈ moves, ∀ world : World S σ, P world.map →
      P (world.serve setting move.exchange.request).2.map) :
    P threads.world.map ∧ ∀ move ∈ moves, P move.map := by
  induction h with
  | start => exact ⟨hstart, fun _ hmove => absurd hmove List.not_mem_nil⟩
  | @serve moves threads after thread request next _ hcall hstep ih =>
      rw [List.forall_mem_append, List.forall_mem_singleton] at hserve
      obtain ⟨hworld, hall⟩ := ih hserve.1
      have hlast := hserve.2 threads.world hworld
      rw [(step?_call hcall hstep).2.2, List.forall_mem_append, List.forall_mem_singleton]
      exact ⟨hlast, hall, hlast⟩
  | beside _ _ _ huntouched ih =>
      rw [huntouched.map]
      exact ih hserve

-- A copy of a segment shows the map as it is at that move.
theorem Run.response_eq_copy (h : Run setting start moves threads) {thread segment : Nat}
    {response : List (K × V)} {map : S} (hmove : ⟨thread, ⟨.copy segment, response⟩, map⟩ ∈ moves) :
    response = setting.backend.copy segment map := by
  induction h with
  | start => cases hmove
  | serve _ _ _ ih =>
      rw [List.mem_append, List.mem_singleton] at hmove
      rcases hmove with hold | hnew
      · exact ih hold
      · cases hnew
        rfl
  | beside _ _ _ _ ih => exact ih hmove

variable [DecidableEq K] {laws : setting.backend.Laws}

theorem Run.allValid_of_lasting (hlasting : setting.Lasting laws)
    (hstart : laws.Valid start.world.map) (h : Run setting start moves threads) :
    AllValid laws moves threads.world :=
  h.preserves hstart fun move _ => hlasting move.exchange.request

-- What one request makes of a binding if there is no quick way to wipe.
theorem get_serve_cases (hbulk : setting.backend.bulk = none) {world : World S σ}
    (hvalid : laws.Valid world.map) (request : Request K V) (key : K) :
    let bound := setting.backend.get key (world.serve setting request).2.map
    (request.Spares key ∧ bound = setting.backend.get key world.map) ∨
      (∃ value, request = .insert key value ∧ bound = some value) ∨
      (request = .remove key ∧ bound = none) := by
  intro bound
  cases request with
  | insert other value =>
      have hget : bound = _ := laws.get_insert other value key hvalid
      by_cases hsame : other = key
      · subst hsame
        exact .inr (.inl ⟨value, rfl, hget.trans (if_pos rfl)⟩)
      · exact .inl ⟨hsame, hget.trans (if_neg hsame)⟩
  | remove other =>
      have hget : bound = _ := laws.get_remove other key hvalid
      by_cases hsame : other = key
      · subst hsame
        exact .inr (.inr ⟨rfl, hget.trans (if_pos rfl)⟩)
      · exact .inl ⟨hsame, hget.trans (if_neg hsame)⟩
  | wipe segment =>
      exact .inl ⟨trivial, congrArg (fun world => setting.backend.get key world.map)
        (world.wipe_eq_of_bulk_eq_none hbulk segment)⟩
  | _ => exact .inl ⟨trivial, congrArg _ (World.serve_map setting _ world rfl)⟩

theorem Run.origin (hbulk : setting.backend.bulk = none) (hstart : laws.Valid start.world.map)
    (h : Run setting start moves threads) {key : K} {value : V}
    (hget : setting.backend.get key threads.world.map = some value) :
    (setting.backend.get key start.world.map = some value ∧
      ∀ move ∈ moves, move.exchange.request.Spares key) ∨
    ∃ middle inserted rest, moves = middle ++ inserted :: rest ∧
      inserted.exchange.request = .insert key value ∧
      ∀ move ∈ rest, move.exchange.request.Spares key := by
  induction h with
  | start => exact .inl ⟨hget, fun _ hmove => absurd hmove List.not_mem_nil⟩
  | @serve moves threads after thread request next hrun hcall hstep ih =>
      have hlasting := Setting.lasting_of_bulk_eq_none laws hbulk
      have hvalid := (hrun.allValid_of_lasting hlasting hstart).1
      rw [(step?_call hcall hstep).2.2] at hget
      rcases get_serve_cases hbulk hvalid request key with
        ⟨hspares, hsame⟩ | ⟨set, rfl, hset⟩ | ⟨-, hgone⟩
      · rw [hsame] at hget
        rcases ih hget with ⟨hbound, hall⟩ | ⟨middle, inserted, rest, rfl, hinserted, hrest⟩
        · refine .inl ⟨hbound, ?_⟩
          rw [List.forall_mem_append, List.forall_mem_singleton]
          exact ⟨hall, hspares⟩
        · refine .inr ⟨middle, inserted, _, by rw [List.append_assoc, List.cons_append],
            hinserted, ?_⟩
          rw [List.forall_mem_append, List.forall_mem_singleton]
          exact ⟨hrest, hspares⟩
      · obtain rfl := Option.some.inj (hset.symm.trans hget)
        exact .inr ⟨moves, _, [], rfl, rfl, fun _ hmove => absurd hmove List.not_mem_nil⟩
      · cases hgone.symm.trans hget
  | beside _ _ _ huntouched ih =>
      rw [huntouched.map] at hget
      exact ih hget

theorem isSome_serve {world : World S σ} (hvalid : laws.Valid world.map) {request : Request K V}
    (hkeeps : request.takesAway = false) {key : K}
    (hbound : (setting.backend.get key world.map).isSome) :
    (setting.backend.get key (world.serve setting request).2.map).isSome := by
  cases request with
  | insert other value =>
      rw [show setting.backend.get key (world.serve setting (.insert other value)).2.map = _ from
        laws.get_insert other value key hvalid]
      split
      · rfl
      · exact hbound
  | remove other => exact nomatch hkeeps
  | wipe segment => exact nomatch hkeeps
  | _ =>
      rw [World.serve_map setting _ world rfl]
      exact hbound

theorem Run.isSome_of_keeps (hlasting : setting.Lasting laws)
    (hstart : laws.Valid start.world.map) (h : Run setting start moves threads)
    (hkeeps : ∀ move ∈ moves, move.exchange.request.takesAway = false) {key : K}
    (hbound : (setting.backend.get key start.world.map).isSome) :
    ∀ move ∈ moves, (setting.backend.get key move.map).isSome := by
  have hall := h.preserves
    (P := fun map => laws.Valid map ∧ (setting.backend.get key map).isSome) ⟨hstart, hbound⟩
    fun move hmove world hworld => ⟨hlasting _ world hworld.1,
      isSome_serve hworld.1 (hkeeps move hmove) hworld.2⟩
  exact fun move hmove => (hall.2 move hmove).2

end Threads

end SnapshotStore
