import SnapshotStore.Proofs.Routine.Protocol

namespace SnapshotStore

variable {K V ω α β : Type}

theorem Routine.exchanges_bind (serve : Server K V ω) (routine : Routine K V ω α)
    (next : α → Routine K V ω β) (whole : ω) :
    (routine >>= next).exchanges serve whole = routine.exchanges serve whole ++
      (next (routine.run serve whole).1).exchanges serve (routine.run serve whole).2 := by
  change (routine.bind next).exchanges serve whole = _
  induction routine generalizing whole with
  | done answer => rfl
  | call request rest ih => exact congrArg (List.cons _) (ih _ _)
  | aside act rest ih => exact ih _ _

namespace Action

variable {serve : Server K V ω} {action : Action K V ω α} {next : α → Action K V ω β}
  {whole middle after : ω} {exchanges later : List (Exchange K V)}

structure Ends (serve : Server K V ω) (action : Action K V ω α) (whole : ω)
    (exchanges : List (Exchange K V)) (outcome : Except Failure α) (after : ω) : Prop where
  exec : action.exec serve whole = (outcome, after)
  exchanges : action.run.exchanges serve whole = exchanges

theorem ends_exec (serve : Server K V ω) (action : Action K V ω α) (whole : ω) :
    action.Ends serve whole (action.run.exchanges serve whole) (action.exec serve whole).1
      (action.exec serve whole).2 :=
  ⟨rfl, rfl⟩

theorem ends_pure (answer : α) :
    (pure answer : Action K V ω α).Ends serve whole [] (.ok answer) whole :=
  ⟨rfl, rfl⟩

theorem ends_ask (serve : Server K V ω) (request : Request K V) (whole : ω) :
    (ask request : Action K V ω _).Ends serve whole [⟨request, (serve request whole).1⟩]
      (.ok (serve request whole).1) (serve request whole).2 :=
  ⟨rfl, rfl⟩

theorem ends_ofRoutine (serve : Server K V ω) (routine : Routine K V ω α) (whole : ω) :
    (ofRoutine routine).Ends serve whole (routine.exchanges serve whole)
      (.ok (routine.run serve whole).1) (routine.run serve whole).2 :=
  ⟨exec_ofRoutine serve routine whole,
    (Routine.exchanges_bind serve routine _ whole).trans (List.append_nil _)⟩

theorem Ends.bind {answer : α} {outcome : Except Failure β}
    (h : action.Ends serve whole exchanges (.ok answer) middle)
    (hnext : (next answer).Ends serve middle later outcome after) :
    (action >>= next).Ends serve whole (exchanges ++ later) outcome after := by
  constructor
  · rw [exec_bind, h.exec]
    exact hnext.exec
  · have hrun : action.run.run serve whole = (.ok answer, middle) := h.exec
    rw [ExceptT.run_bind, Routine.exchanges_bind, h.exchanges, hrun]
    exact congrArg (exchanges ++ ·) hnext.exchanges

-- What comes after a failure is not run.
theorem Ends.bind_error {failure : Failure}
    (h : action.Ends serve whole exchanges (.error failure) after) :
    (action >>= next).Ends serve whole exchanges (.error failure) after := by
  constructor
  · rw [exec_bind, h.exec]
  · have hrun : action.run.run serve whole = (.error failure, after) := h.exec
    rw [ExceptT.run_bind, Routine.exchanges_bind, h.exchanges, hrun]
    exact List.append_nil exchanges

theorem Ends.map (f : α → β) {outcome : Except Failure α}
    (h : action.Ends serve whole exchanges outcome after) :
    (f <$> action).Ends serve whole exchanges (outcome.map f) after := by
  rw [map_eq_pure_bind]
  cases outcome with
  | error failure => exact h.bind_error
  | ok answer =>
      have hends : (action >>= fun answer => pure (f answer)).Ends serve whole (exchanges ++ [])
          (.ok (f answer)) after := h.bind (ends_pure (f answer))
      rwa [List.append_nil] at hends

end Action

end SnapshotStore
