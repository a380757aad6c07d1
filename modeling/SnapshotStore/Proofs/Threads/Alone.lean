import SnapshotStore.Proofs.Threads.Lock

namespace SnapshotStore

open Store (Phase Turn)

variable {K V S σ α : Type}

-- What is done beside the store on the way touches neither the store nor the files.
def Routine.Undisturbed (setting : Setting K V S σ) :
    Routine K V (World S σ) α → World S σ → Prop
  | .done _, _ => True
  | .call request next, world =>
    (next (world.serve setting request).1).Undisturbed setting (world.serve setting request).2
  | .aside act next, world =>
    world.Untouched (act world).2 ∧ (next (act world).1).Undisturbed setting (act world).2

theorem Routine.Returns.undisturbed {routine : Routine K V (World S σ) α}
    (h : routine.Returns (asking K V) ()) (setting : Setting K V S σ) (world : World S σ) :
    routine.Undisturbed setting world := by
  induction routine generalizing world with
  | done answer => exact trivial
  | call request next ih => exact ih _ (h.2 _) _
  | aside act next ih => exact h.1.elim

variable {setting : Setting K V S σ} {segments : Nat} {path : Path} {phase : Phase K V}
  {request : Request K V} {world : World S σ}

theorem Store.Phase.Allows.not_isBlocked (h : phase.Allows segments path request)
    (hfree : phase = .outside → world.saving = false) : request.isBlocked world = false := by
  cases request with
  | acquire =>
      cases phase with
      | outside => exact hfree rfl
      | replacing copied bytes stage => cases stage <;> exact h.elim
      | _ => exact h.elim
  | _ => rfl

-- Outside of saves the lock is free.
theorem Store.Phase.Allows.saving_eq (h : phase.Allows segments path request)
    (hfree : phase = .outside → world.saving = false)
    (hafter : phase.after request (world.serve setting request).1 = .outside) :
    (world.serve setting request).2.saving = false := by
  have hturn := h.turn (world.serve setting request).1
  rw [hafter] at hturn
  generalize hresponse : (world.serve setting request).1 = response at hturn
  cases hturn with
  | plain response hplain =>
      rw [World.serve_saving setting request world]
      · exact hfree rfl
      · rintro rfl
        exact hplain
      · rintro rfl
        exact hplain
  | releases hclosing => rfl

namespace Threads

variable {start : Threads K V S σ α} {moves : List (Move K V S)}

theorem Run.finish {routine : Routine K V (World S σ) α} {post : Phase K V → α → Prop}
    (h : Run setting start moves ⟨[routine], world⟩)
    (hobeys : routine.Obeys (Store.saving K V segments path) post phase)
    (hfree : phase = .outside → world.saving = false)
    (hundisturbed : routine.Undisturbed setting world) :
    ∃ others, Run setting start (moves ++ others)
      ⟨[.done (routine.run (World.serve setting) world).1],
        (routine.run (World.serve setting) world).2⟩ := by
  induction routine generalizing moves world phase with
  | done answer => exact ⟨[], by rwa [List.append_nil]⟩
  | call request next ih =>
      obtain ⟨hallows, hnext⟩ := hobeys
      have hblocked := Phase.Allows.not_isBlocked hallows hfree
      have hstep : (⟨[.call request next], world⟩ : Threads K V S σ α).step? setting 0 =
          some ⟨[next (world.serve setting request).1], (world.serve setting request).2⟩ := by
        simp [step?, hblocked]
      obtain ⟨others, hrun⟩ := ih _ (h.serve rfl hstep) (hnext _)
        (Phase.Allows.saving_eq hallows hfree) hundisturbed
      rw [List.append_assoc] at hrun
      exact ⟨_, hrun⟩
  | aside act next ih =>
      obtain ⟨huntouched, hrest⟩ := hundisturbed
      have hstep : (⟨[.aside act next], world⟩ : Threads K V S σ α).step? setting 0 =
          some ⟨[next (act world).1], (act world).2⟩ := rfl
      exact ih _ (h.beside rfl hstep huntouched) (hobeys.2 _)
        (fun hphase => huntouched.saving.trans (hfree hphase)) hrest

theorem Run.alone {routine : Routine K V (World S σ) α} (hstays : routine.Stays segments path)
    (hfree : world.saving = false) (hundisturbed : routine.Undisturbed setting world) :
    ∃ moves, Run setting ⟨[routine], world⟩ moves
      ⟨[.done (routine.run (World.serve setting) world).1],
        (routine.run (World.serve setting) world).2⟩ :=
  Run.finish .start hstays (fun _ => hfree) hundisturbed

end Threads

end SnapshotStore
