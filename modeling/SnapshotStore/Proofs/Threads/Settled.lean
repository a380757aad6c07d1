import SnapshotStore.Proofs.Store.Settling
import SnapshotStore.Proofs.Threads.Saves

namespace SnapshotStore

variable {K V S σ α : Type}

namespace Store.Wash

theorem after_eq_clean_iff (wash : Wash) (exchange : Exchange K V) :
    wash.after exchange = clean ↔
      exchange.writes = false ∧ (exchange.renames = true ∨ wash = clean) := by
  unfold after
  split
  · rename_i hwrites
    simp [hwrites]
  · rename_i hwrites
    split
    · rename_i hrenames
      simp [hwrites, hrenames]
    · rename_i hrenames
      split
      · simp [hrenames]
      · simp [hwrites, hrenames]

theorem after_eq_quiet_iff (wash : Wash) (exchange : Exchange K V) :
    wash.after exchange = quiet ↔ exchange.writes = false ∧ exchange.renames = false ∧
      exchange.request ≠ .acquire ∧ wash = quiet := by
  unfold after
  split
  · rename_i hwrites
    simp [hwrites]
  · rename_i hwrites
    split
    · rename_i hrenames
      simp [hrenames]
    · rename_i hrenames
      split
      · rename_i hacquire
        simp [hacquire]
      · rename_i hother
        constructor
        · intro hquiet
          exact ⟨Bool.eq_false_iff.mpr hwrites, Bool.eq_false_iff.mpr hrenames,
            fun hacquire => hother hquiet hacquire, hquiet⟩
        · exact fun h => h.2.2.2

-- Where the exchanges before have led does not matter once the file has been replaced.
theorem along_clean {exchanges : List (Exchange K V)}
    (h : (washing K V).along .quiet exchanges = clean) (wash : Wash) :
    (washing K V).along wash exchanges = clean := by
  induction exchanges using List.reverseRecOn with
  | nil => cases h
  | append_singleton exchanges exchange ih =>
      rw [Protocol.along, List.foldl_append] at h ⊢
      obtain ⟨hwrites, hlast⟩ := (after_eq_clean_iff _ exchange).mp h
      exact (after_eq_clean_iff _ exchange).mpr ⟨hwrites, hlast.imp_right ih⟩

theorem of_along_quiet {exchanges : List (Exchange K V)}
    (h : (washing K V).along .quiet exchanges = quiet) :
    ∀ exchange ∈ exchanges, exchange.writes = false ∧ exchange.request ≠ .acquire := by
  induction exchanges using List.reverseRecOn with
  | nil => simp
  | append_singleton exchanges exchange ih =>
      rw [Protocol.along, List.foldl_append] at h
      obtain ⟨hwrites, -, hacquire, hbefore⟩ := (after_eq_quiet_iff _ exchange).mp h
      intro e he
      rw [List.mem_append, List.mem_singleton] at he
      rcases he with hold | rfl
      · exact ih hbefore e hold
      · exact ⟨hwrites, hacquire⟩

end Store.Wash

namespace Threads

open Store (Wash washing)

variable {setting : Setting K V S σ} {path : Path} {start threads : Threads K V S σ α}
  {moves : List (Move K V S)}

-- The thread has not written to the map since a time.
def QuietSince (thread : Nat) (moves : List (Move K V S)) (time : Nat) : Prop :=
  ∀ move ∈ moves.drop time, move.thread = thread → move.exchange.writes = false

theorem QuietSince.append {thread time : Nat} (h : QuietSince thread moves time)
    {move : Move K V S} (htime : time ≤ moves.length)
    (hmove : move.thread = thread → move.exchange.writes = false) :
    QuietSince thread (moves ++ [move]) time := by
  intro m hm
  rw [List.drop_append_of_le_length htime, List.mem_append, List.mem_singleton] at hm
  rcases hm with hold | rfl
  · exact h m hold
  · exact hmove

theorem QuietSince.later {thread time later : Nat} (h : QuietSince thread moves time)
    (hle : time ≤ later) : QuietSince thread moves later :=
  fun move hmove => h move (List.drop_subset_drop_left moves hle hmove)

-- The latest save has begun after the last change of the map by the thread.
def Covered (thread : Nat) (moves : List (Move K V S)) : Prop :=
  ∃ save, (Ledger.of moves).saves.head? = some save ∧ QuietSince thread moves save.start

def Settled (moves : List (Move K V S)) (_ : World S σ) : Prop :=
  ∀ thread, (washing K V).along .quiet (Move.own thread moves) = .clean → Covered thread moves

theorem along_own_append (moves : List (Move K V S)) (thread : Nat) (exchange : Exchange K V)
    (map : S) :
    (washing K V).along .quiet (Move.own thread (moves ++ [⟨thread, exchange, map⟩])) =
      ((washing K V).along .quiet (Move.own thread moves)).after exchange := by
  rw [own_append_self, Protocol.along, List.foldl_append]
  rfl

theorem Run.settled (hkeep : start.Keep setting path) (h : Run setting start moves threads) :
    Settled moves threads.world := by
  refine h.keeps_invariant Settled hkeep (fun _ hclean => by cases hclean) ?_ ?_
  · intro moves threads thread request response after hrun hinv _ hserve hturn i hclean
    have hsaves := hrun.savesSound hkeep
    cases hrenames : Exchange.renames ⟨request, response⟩ with
    | false =>
        have hsame : (Ledger.of (moves ++ [⟨thread, ⟨request, response⟩, after.map⟩])).saves =
            (Ledger.of moves).saves := Ledger.saves_append moves hrenames
        -- Either way the thread has been settled before, and does not write now.
        have hbefore : Covered i moves ∧
            (thread = i → Exchange.writes ⟨request, response⟩ = false) := by
          by_cases hthread : thread = i
          · subst hthread
            rw [along_own_append, Wash.after_eq_clean_iff] at hclean
            obtain ⟨hwrites, hfalse | hwash⟩ := hclean
            · cases hrenames.symm.trans hfalse
            · exact ⟨hinv thread hwash, fun _ => hwrites⟩
          · rw [own_append_other hthread] at hclean
            exact ⟨hinv i hclean, fun hsame => absurd hsame hthread⟩
        obtain ⟨⟨save, hhead, hquiet⟩, hwrites⟩ := hbefore
        have hsound := hsaves.sound save (List.mem_of_head? hhead)
        refine ⟨save, hsame ▸ hhead, hquiet.append ?_ hwrites⟩
        exact Nat.le_of_lt (Nat.lt_of_le_of_lt hsound.start_le hsound.stop_lt)
    | true =>
        have hnew := Ledger.saves_append_of_renames moves
          ⟨thread, ⟨request, response⟩, after.map⟩ hrenames
        have hattempt := hrun.attemptsFit hkeep thread
        have hpending := hsaves.pending thread
        generalize Move.phase thread moves = phase at hturn hattempt hpending
        generalize phase.after request response = next at hturn
        cases hturn with
        | plain response hplain =>
            cases request <;> first | exact hplain.elim | cases hrenames
        | @replaces copied bytes stage next _ hstage =>
            cases hstage with
            | renames location =>
                obtain ⟨-, -, -, -, hrecent⟩ := hattempt
                refine ⟨_, by rw [hnew]; rfl, ?_⟩
                by_cases hthread : thread = i
                · subst hthread
                  exact QuietSince.append hrecent.quiet hrecent.start_le fun _ => rfl
                · rw [own_append_other hthread] at hclean
                  obtain ⟨save, hhead, hquiet⟩ := hinv i hclean
                  have hmem := List.mem_of_head? hhead
                  have hlater := hpending (by simp [IsPending]) save hmem
                  have hle := (hsaves.sound save hmem).start_le
                  have hstart : save.start ≤ ((Ledger.of moves).attempts thread).start := by
                    omega
                  exact (hquiet.later hstart).append hrecent.start_le
                    fun hsame => absurd hsame hthread
            | _ => cases hrenames
        | _ => cases hrenames
  · exact fun moves before after hinv _ => hinv

end Threads

end SnapshotStore
