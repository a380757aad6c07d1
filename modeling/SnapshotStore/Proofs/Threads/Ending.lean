import Mathlib.Data.List.Perm.Basic
import Mathlib.Logic.Hydra
import SnapshotStore.Proofs.Threads.Alone

namespace SnapshotStore

variable {K V S σ ω α : Type}

-- What a routine has left to do after one step.
inductive Routine.Rest : Routine K V ω α → Routine K V ω α → Prop where
  | call {request : Request K V} {next : request.Response → Routine K V ω α}
      (response : request.Response) : Rest (next response) (.call request next)
  | aside {β : Type} {act : ω → β × ω} {next : β → Routine K V ω α} (answer : β) :
      Rest (next answer) (.aside act next)

theorem Routine.wellFounded_rest : WellFounded (Rest (K := K) (V := V) (ω := ω) (α := α)) := by
  refine ⟨fun routine => ?_⟩
  induction routine with
  | done answer => exact ⟨_, fun _ h => nomatch h⟩
  | call request next ih =>
      refine ⟨_, fun _ h => ?_⟩
      cases h with
      | call response => exact ih response
  | aside act next ih =>
      refine ⟨_, fun _ h => ?_⟩
      cases h with
      | aside answer => exact ih answer

namespace Threads

variable {setting : Setting K V S σ} {path : Path} {start threads after : Threads K V S σ α}
  {moves : List (Move K V S)}

def Steps (setting : Setting K V S σ) (before after : Threads K V S σ α) : Prop :=
  ∃ thread, before.step? setting thread = some after

def IsDone (threads : Threads K V S σ α) : Prop :=
  ∀ routine ∈ threads.routines, ∃ answer, routine = .done answer

theorem Steps.rest (h : threads.Steps setting after) :
    ∃ (thread : Nat) (routine rest : Routine K V (World S σ) α),
      threads.routines[thread]? = some routine ∧ rest.Rest routine ∧
      after.routines = threads.routines.set thread rest := by
  obtain ⟨thread, hstep⟩ := h
  cases hroutine : threads.routines[thread]? with
  | none => simp [step?, hroutine] at hstep
  | some routine =>
      cases routine with
      | done answer => simp [step?, hroutine] at hstep
      | call request next =>
          exact ⟨thread, _, _, hroutine, .call _, (step?_call hroutine hstep).2.1⟩
      | aside act next => exact ⟨thread, _, _, hroutine, .aside _, (step?_aside hroutine hstep).1⟩

-- A step replaces one of the routines by what is left of it.
theorem wellFounded_steps (setting : Setting K V S σ) :
    WellFounded fun after before : Threads K V S σ α => before.Steps setting after := by
  refine Subrelation.wf ?_ (InvImage.wf (fun threads : Threads K V S σ α =>
    (threads.routines : Multiset (Routine K V (World S σ) α))) Routine.wellFounded_rest.cutExpand)
  intro after before h
  obtain ⟨thread, routine, rest, hroutine, hrest, hafter⟩ := h.rest
  obtain ⟨hlt, rfl⟩ := List.getElem?_eq_some_iff.mp hroutine
  have hbefore : (before.routines : Multiset (Routine K V (World S σ) α)) =
      {before.routines[thread]} + (before.routines.eraseIdx thread : Multiset _) :=
    Multiset.coe_eq_coe.mpr (List.getElem_cons_eraseIdx_perm hlt).symm
  have hnow : (after.routines : Multiset (Routine K V (World S σ) α)) =
      {rest} + (before.routines.eraseIdx thread : Multiset _) := by
    rw [hafter]
    exact Multiset.coe_eq_coe.mpr (List.set_perm_cons_eraseIdx hlt rest)
  simp only [InvImage, hbefore, hnow]
  exact Relation.cutExpand_single_add hrest _

-- The lock is only taken by a thread that is in a save.
theorem Run.held (hkeep : start.Keep setting path) (hfree : start.world.saving = false)
    (h : Run setting start moves threads) (hlocked : threads.world.saving = true) :
    ∃ thread, Move.phase thread moves ≠ .outside := by
  refine h.keeps_invariant (fun moves world => world.saving = true →
    ∃ thread, Move.phase thread moves ≠ .outside) hkeep ?_ ?_ ?_ hlocked
  · intro hlocked
    cases hfree.symm.trans hlocked
  · intro moves threads thread request response after _ hinv _ hserve hturn hlocked
    have hphase := Move.phase_append_self moves thread ⟨request, response⟩ after.map
    generalize hbefore : Move.phase thread moves = phase at hturn hphase
    generalize phase.after request response = next at hturn hphase
    cases hturn with
    | plain response hplain =>
        have hsaving : after.saving = threads.world.saving := by
          refine saving_of_serve hserve ?_ ?_ <;>
          · rintro rfl
            exact hplain
        obtain ⟨holder, hholder⟩ := hinv (hsaving.symm.trans hlocked)
        refine ⟨holder, ?_⟩
        rw [Move.phase_append_other moves]
        · exact hholder
        · rintro rfl
          exact hholder hbefore
    | releases hclosing =>
        obtain ⟨-, rfl⟩ := Prod.mk.inj hserve
        cases hlocked
    | _ => exact ⟨thread, by simp [hphase]⟩
  · intro moves before after hinv huntouched hlocked
    exact hinv (huntouched.saving.symm.trans hlocked)

theorem exists_step {thread : Nat} {routine : Routine K V (World S σ) α}
    (hroutine : threads.routines[thread]? = some routine) (hrest : ∀ answer, routine ≠ .done answer)
    (hfree : ∀ next, routine = .call .acquire next → threads.world.saving = false) :
    ∃ after, threads.step? setting thread = some after := by
  unfold step?
  rw [hroutine]
  cases routine with
  | done answer => exact (hrest answer rfl).elim
  | call request next =>
      have hblocked : request.isBlocked threads.world = false := by
        cases request with
        | acquire => exact hfree next rfl
        | _ => rfl
      simp [hblocked]
  | aside act next => exact ⟨_, rfl⟩

-- Inside a save there is something left to do, and it need not wait.
theorem Run.exists_step_of_inside (hkeep : start.Keep setting path)
    (h : Run setting start moves threads) {thread : Nat}
    (hinside : Move.phase thread moves ≠ .outside) :
    ∃ after, threads.step? setting thread = some after := by
  have hlt : thread < threads.routines.length := by
    by_contra hge
    apply hinside
    have hnone : Move.own thread moves = [] := by
      rw [Move.own, List.map_eq_nil_iff, List.filter_eq_nil_iff]
      intro move hmove
      have hmover := h.thread_lt.2 move hmove
      rw [← h.thread_lt.1] at hmover
      simp only [decide_eq_true_eq]
      omega
    rw [Move.phase, hnone]
    rfl
  have hroutine := List.getElem?_eq_getElem hlt
  obtain ⟨routine, hstart, hfollows⟩ := h.follows hroutine
  have hrest := hfollows.obeys (hkeep routine (List.mem_of_getElem? hstart))
  refine exists_step hroutine ?_ ?_
  · intro answer hdone
    rw [hdone] at hrest
    exact hinside hrest
  · intro next hacquire
    rw [hacquire] at hrest
    exact Store.Phase.Allows.not_isBlocked hrest.1 fun houtside => (hinside houtside).elim

theorem Run.isDone_or_steps (hkeep : start.Keep setting path)
    (hfree : start.world.saving = false) (h : Run setting start moves threads) :
    threads.IsDone ∨ ∃ after, threads.Steps setting after := by
  by_cases hdone : threads.IsDone
  · exact .inl hdone
  right
  cases hlocked : threads.world.saving with
  | true =>
      obtain ⟨holder, hinside⟩ := h.held hkeep hfree hlocked
      obtain ⟨after, hstep⟩ := h.exists_step_of_inside hkeep hinside
      exact ⟨after, holder, hstep⟩
  | false =>
      unfold IsDone at hdone
      push Not at hdone
      obtain ⟨routine, hmem, hrest⟩ := hdone
      obtain ⟨thread, hroutine⟩ := List.getElem?_of_mem hmem
      obtain ⟨after, hstep⟩ := exists_step hroutine hrest fun _ _ => hlocked
      exact ⟨after, thread, hstep⟩

end Threads

end SnapshotStore
