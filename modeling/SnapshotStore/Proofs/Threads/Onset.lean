import SnapshotStore.Proofs.Threads.Saves

namespace SnapshotStore

variable {K V S σ α : Type}

-- Noting a move moves the start of an attempt to the present or leaves it as it is.
theorem Attempt.le_note_start (attempt : Attempt S) {clock time : Nat} (move : Move K V S)
    (hclock : time ≤ clock) (hstart : time ≤ attempt.start) :
    time ≤ (attempt.note clock move).start := by
  unfold note
  split
  · exact hclock
  · dsimp only
    split
    · exact hclock
    · exact hstart
  all_goals exact hstart

namespace Ledger

theorem mem_saves_append {moves : List (Move K V S)} {save : Save S}
    (h : save ∈ (of moves).saves) (later : List (Move K V S)) :
    save ∈ (of (moves ++ later)).saves := by
  induction later using List.reverseRecOn with
  | nil => rwa [List.append_nil]
  | append_singleton later move ih =>
      rw [← List.append_assoc]
      cases hrenames : move.exchange.renames with
      | false => exact (saves_append _ hrenames).symm ▸ ih
      | true =>
          rw [saves_append_of_renames _ _ hrenames]
          exact List.mem_cons_of_mem _ ih

theorem exists_save (before later : List (Move K V S)) {move : Move K V S}
    (h : move.exchange.renames = true) :
    ∃ save ∈ (of (before ++ move :: later)).saves,
      save.thread = move.thread ∧ save.stop = before.length := by
  have hsaves := saves_append_of_renames before move h
  rw [List.append_cons]
  exact ⟨_, mem_saves_append (hsaves ▸ List.mem_cons_self) later, rfl, rfl⟩

end Ledger

namespace Threads

open Store (Turn)

variable {setting : Setting K V S σ} {path : Path} {start threads : Threads K V S σ α}
  {moves : List (Move K V S)}

structure OnsetSound (moves : List (Move K V S)) (_ : World S σ) : Prop where
  attempts : ∀ thread, ∀ time ≤ moves.length, Move.phase thread (moves.take time) = .outside →
    Move.phase thread moves ≠ .outside → time ≤ ((Ledger.of moves).attempts thread).start
  saves : ∀ save ∈ (Ledger.of moves).saves, ∀ time ≤ save.stop,
    Move.phase save.thread (moves.take time) = .outside → time ≤ save.start

-- Only by taking the lock does a thread come to be in a save.
theorem acquires_of_turn {segments : Nat} {exchange : Exchange K V} {next : Store.Phase K V}
    (h : Turn segments path .outside exchange next) (hnext : next ≠ .outside) :
    exchange = ⟨.acquire, ()⟩ := by
  cases h with
  | plain response hplain => exact absurd rfl hnext
  | acquires => rfl
  | releases hclosing => exact hclosing.elim

theorem Run.onsetSound (hkeep : start.Keep setting path) (h : Run setting start moves threads) :
    OnsetSound moves threads.world := by
  refine h.keeps_invariant OnsetSound hkeep ?_ ?_ ?_
  · constructor
    · exact fun thread _ _ _ hinside => absurd rfl hinside
    · simp [Ledger.of, Ledger.empty]
  · intro moves threads thread request response after hrun hinv _ hserve hturn
    have hsaves := hrun.savesSound hkeep
    have htake : ∀ (move : Move K V S), ∀ time ≤ moves.length,
        (moves ++ [move]).take time = moves.take time :=
      fun move time htime => List.take_append_of_le_length htime
    have hphase := Move.phase_append_self moves thread ⟨request, response⟩ after.map
    constructor
    · intro i time htime houtside hinside
      by_cases hlast : time = moves.length + 1
      · rw [hlast, List.take_of_length_le (by simp)] at houtside
        exact absurd houtside hinside
      have hle : time ≤ moves.length := by
        rw [List.length_append, List.length_singleton] at htime
        omega
      rw [htake _ time hle] at houtside
      by_cases hthread : thread = i
      · subst hthread
        rw [Ledger.attempts_append_self moves ⟨thread, ⟨request, response⟩, after.map⟩]
        by_cases hbefore : Move.phase thread moves = .outside
        · rw [hphase] at hinside
          rw [hbefore] at hturn hinside
          obtain hacquire := acquires_of_turn hturn hinside
          rw [hacquire]
          exact hle
        · exact Attempt.le_note_start _ _ hle (hinv.attempts thread time hle houtside hbefore)
      · rw [Move.phase_append_other moves hthread] at hinside
        rw [Ledger.attempts_append_other moves hthread]
        exact hinv.attempts i time hle houtside hinside
    · intro save hsave time htime houtside
      cases hrenames : Exchange.renames ⟨request, response⟩ with
      | false =>
          rw [Ledger.saves_append moves hrenames] at hsave
          have hlt := (hsaves.sound save hsave).stop_lt
          rw [htake _ time (by omega)] at houtside
          exact hinv.saves save hsave time htime houtside
      | true =>
          rw [Ledger.saves_append_of_renames moves _ hrenames, List.mem_cons] at hsave
          rcases hsave with rfl | hold
          · have hle : time ≤ moves.length := htime
            rw [htake _ time hle] at houtside
            refine hinv.attempts thread time hle houtside fun hbefore => ?_
            rw [hbefore] at hturn
            generalize Store.Phase.after _ request response = next at hturn
            cases hturn with
            | plain response hplain =>
                cases request <;> first | exact hplain.elim | cases hrenames
            | acquires => cases hrenames
            | releases hclosing => exact hclosing.elim
          · have hlt := (hsaves.sound save hold).stop_lt
            rw [htake _ time (by omega)] at houtside
            exact hinv.saves save hold time htime houtside
  · intro moves before after hinv _
    exact ⟨hinv.attempts, hinv.saves⟩

theorem Run.exists_save_since (hkeep : start.Keep setting path)
    (h : Run setting start moves threads) {thread time : Nat}
    (houtside : Move.phase thread (moves.take time) = .outside) {exchange : Exchange K V}
    (hmem : exchange ∈ Move.own thread (moves.drop time)) (hrenames : exchange.renames = true) :
    ∃ save ∈ (Ledger.of moves).saves, time ≤ save.start := by
  obtain ⟨move, hmove, rfl⟩ := List.mem_map.mp hmem
  obtain ⟨hdrop, hthread⟩ := List.mem_filter.mp hmove
  have hthread : move.thread = thread := by simpa using hthread
  obtain ⟨before, later, hsplit⟩ := List.append_of_mem hdrop
  have hall : moves = (moves.take time ++ before) ++ move :: later := by
    rw [List.append_assoc, ← hsplit, List.take_append_drop]
  have htime : time ≤ moves.length := by
    by_contra hlt
    rw [List.drop_of_length_le (by omega)] at hdrop
    cases hdrop
  obtain ⟨save, hsave, hsaver, hstop⟩ :=
    Ledger.exists_save (moves.take time ++ before) later hrenames
  rw [← hall] at hsave
  refine ⟨save, hsave, (h.onsetSound hkeep).saves save hsave time ?_ ?_⟩
  · rw [hstop, List.length_append, List.length_take]
    omega
  · rw [hsaver, hthread]
    exact houtside

end Threads

end SnapshotStore
