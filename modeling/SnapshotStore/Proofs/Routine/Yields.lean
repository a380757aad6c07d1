import SnapshotStore.Proofs.Routine.Ends
import SnapshotStore.Proofs.Routine.Requests

namespace SnapshotStore

variable {K V ω α β : Type}

namespace Routine

abbrev Yields (routine : Routine K V ω α) (exchanges : List (Exchange K V)) (answer : α) : Prop :=
  routine.Follows exchanges (.done answer)

theorem follows_done {answer : α} {exchanges : List (Exchange K V)} {rest : Routine K V ω α}
    (h : (done answer).Follows exchanges rest) : exchanges = [] ∧ rest = .done answer := by
  generalize hfirst : done answer = first at h
  induction h with
  | start => exact ⟨rfl, rfl⟩
  | call response _ ih => cases hfirst.trans (ih hfirst).2.symm
  | aside answer _ ih => cases hfirst.trans (ih hfirst).2.symm

theorem follows_call {request : Request K V} {next : request.Response → Routine K V ω α}
    {exchanges : List (Exchange K V)} {rest : Routine K V ω α}
    (h : (call request next).Follows exchanges rest) :
    (exchanges = [] ∧ rest = .call request next) ∨
      ∃ response others, exchanges = ⟨request, response⟩ :: others ∧
        (next response).Follows others rest := by
  generalize hfirst : call request next = first at h
  induction h with
  | start => exact .inl ⟨rfl, rfl⟩
  | call response _ ih =>
      rcases ih hfirst with ⟨rfl, hrest⟩ | ⟨answered, between, rfl, hfollows⟩
      · cases hfirst.trans hrest.symm
        exact .inr ⟨response, [], rfl, .start _⟩
      · exact .inr ⟨answered, _, rfl, .call response hfollows⟩
  | aside answer _ ih =>
      rcases ih hfirst with ⟨-, hrest⟩ | ⟨answered, between, rfl, hfollows⟩
      · cases hfirst.trans hrest.symm
      · exact .inr ⟨answered, between, rfl, .aside answer hfollows⟩

theorem follows_aside {γ : Type} {act : ω → γ × ω} {next : γ → Routine K V ω α}
    {exchanges : List (Exchange K V)} {rest : Routine K V ω α}
    (h : (aside act next).Follows exchanges rest) :
    (exchanges = [] ∧ rest = .aside act next) ∨ ∃ answer, (next answer).Follows exchanges rest := by
  generalize hfirst : aside act next = first at h
  induction h with
  | start => exact .inl ⟨rfl, rfl⟩
  | call response _ ih =>
      rcases ih hfirst with ⟨-, hrest⟩ | ⟨answer, hfollows⟩
      · cases hfirst.trans hrest.symm
      · exact .inr ⟨answer, .call response hfollows⟩
  | aside given _ ih =>
      rcases ih hfirst with ⟨rfl, hrest⟩ | ⟨answer, hfollows⟩
      · cases hfirst.trans hrest.symm
        exact .inr ⟨given, .start _⟩
      · exact .inr ⟨answer, .aside given hfollows⟩

variable {routine : Routine K V ω α} {next : α → Routine K V ω β}
  {exchanges : List (Exchange K V)}

theorem Yields.of_pure {given answer : α}
    (h : (pure given : Routine K V ω α).Yields exchanges answer) :
    exchanges = [] ∧ answer = given := by
  obtain ⟨hexchanges, hdone⟩ := follows_done h
  exact ⟨hexchanges, done.inj hdone⟩

theorem Yields.of_call {request : Request K V} {rest : request.Response → Routine K V ω α}
    {answer : α} (h : (call request rest).Yields exchanges answer) :
    ∃ response others, exchanges = ⟨request, response⟩ :: others ∧
      (rest response).Yields others answer := by
  rcases follows_call h with ⟨-, hdone⟩ | hyields
  · cases hdone
  · exact hyields

theorem Yields.of_aside {γ : Type} {act : ω → γ × ω} {rest : γ → Routine K V ω α} {answer : α}
    (h : (aside act rest).Yields exchanges answer) :
    ∃ given, (rest given).Yields exchanges answer := by
  rcases follows_aside h with ⟨-, hdone⟩ | hyields
  · cases hdone
  · exact hyields

theorem Yields.of_bind {answer : β} (h : (routine >>= next).Yields exchanges answer) :
    ∃ given first second, exchanges = first ++ second ∧ routine.Yields first given ∧
      (next given).Yields second answer := by
  change (routine.bind next).Yields exchanges answer at h
  induction routine generalizing exchanges with
  | done given => exact ⟨given, [], exchanges, rfl, .start _, h⟩
  | call request rest ih =>
      obtain ⟨response, others, rfl, hothers⟩ := h.of_call
      obtain ⟨given, first, second, rfl, hfirst, hsecond⟩ := ih response hothers
      exact ⟨given, _, second, rfl, .cons hfirst, hsecond⟩
  | aside act rest ih =>
      obtain ⟨answered, hothers⟩ := h.of_aside
      obtain ⟨given, first, second, rfl, hfirst, hsecond⟩ := ih answered hothers
      exact ⟨given, first, second, rfl, (Follows.aside answered (.start _)).trans hfirst, hsecond⟩

theorem Yields.of_map {f : α → β} {answer : β} (h : (f <$> routine).Yields exchanges answer) :
    ∃ given, answer = f given ∧ routine.Yields exchanges given := by
  rw [map_eq_pure_bind] at h
  obtain ⟨given, first, second, rfl, hfirst, hsecond⟩ := h.of_bind
  obtain ⟨rfl, hanswer⟩ := hsecond.of_pure
  rw [List.append_nil]
  exact ⟨given, hanswer, hfirst⟩

-- What a run asks for is allowed, if there is a single phase.
theorem Yields.forall_allowed {protocol : Protocol K V Unit} {answer : α}
    (h : routine.Yields exchanges answer) (hreturns : routine.Returns protocol ()) :
    ∀ exchange ∈ exchanges, protocol.Allows () exchange.request := by
  have hadmits := Follows.admits h hreturns
  clear h
  induction exchanges with
  | nil => exact fun _ hmem => absurd hmem List.not_mem_nil
  | cons exchange rest ih => exact List.forall_mem_cons.mpr ⟨hadmits.1, ih hadmits.2⟩

end Routine

namespace Action

abbrev Yields (action : Action K V ω α) (exchanges : List (Exchange K V))
    (outcome : Except Failure α) : Prop :=
  action.run.Yields exchanges outcome

variable {action : Action K V ω α} {next : α → Action K V ω β} {exchanges : List (Exchange K V)}
  {outcome : Except Failure α}

theorem Ends.yields {serve : Server K V ω} {whole after : ω}
    (h : action.Ends serve whole exchanges outcome after) : action.Yields exchanges outcome := by
  have hfollows := Routine.follows_exchanges serve action.run whole
  rw [h.exchanges] at hfollows
  have hrun : (action.run.run serve whole).1 = outcome := congrArg Prod.fst h.exec
  rwa [hrun] at hfollows

theorem Yields.of_pure {answer : α} (h : (pure answer : Action K V ω α).Yields exchanges outcome) :
    exchanges = [] ∧ outcome = .ok answer :=
  Routine.Yields.of_pure h

theorem Yields.of_raise {failure : Failure}
    (h : (raise failure : Action K V ω α).Yields exchanges outcome) :
    exchanges = [] ∧ outcome = .error failure :=
  Routine.Yields.of_pure h

theorem Yields.of_ofExcept {given : Except Failure α}
    (h : (ofExcept given : Action K V ω α).Yields exchanges outcome) :
    exchanges = [] ∧ outcome = given :=
  Routine.Yields.of_pure h

theorem Yields.of_ofRoutine {routine : Routine K V ω α}
    (h : (ofRoutine routine).Yields exchanges outcome) :
    ∃ answer, outcome = .ok answer ∧ routine.Yields exchanges answer := by
  obtain ⟨answer, first, second, rfl, hfirst, hsecond⟩ := Routine.Yields.of_bind h
  obtain ⟨rfl, houtcome⟩ := hsecond.of_pure
  rw [List.append_nil]
  exact ⟨answer, houtcome, hfirst⟩

theorem Yields.of_aside {act : ω → α × ω}
    (h : (aside act : Action K V ω α).Yields exchanges outcome) : exchanges = [] := by
  obtain ⟨answer, -, hyields⟩ := h.of_ofRoutine
  obtain ⟨given, hgiven⟩ := hyields.of_aside
  exact (Routine.follows_done hgiven).1

-- A failure of the first part is one of the whole.
theorem Yields.of_bind {outcome : Except Failure β}
    (h : (action >>= next).Yields exchanges outcome) :
    (∃ failure, outcome = .error failure ∧ action.Yields exchanges (.error failure)) ∨
      ∃ answer first second, exchanges = first ++ second ∧ action.Yields first (.ok answer) ∧
        (next answer).Yields second outcome := by
  unfold Yields at h
  rw [ExceptT.run_bind] at h
  obtain ⟨given, first, second, rfl, hfirst, hsecond⟩ := h.of_bind
  cases given with
  | error failure =>
      obtain ⟨rfl, houtcome⟩ := Routine.Yields.of_pure hsecond
      rw [List.append_nil]
      exact .inl ⟨failure, houtcome, hfirst⟩
  | ok answer => exact .inr ⟨answer, first, second, rfl, hfirst, hsecond⟩

theorem Yields.of_ofRoutine_bind {routine : Routine K V ω α} {outcome : Except Failure β}
    (h : (ofRoutine routine >>= next).Yields exchanges outcome) :
    ∃ answer first second, exchanges = first ++ second ∧ routine.Yields first answer ∧
      (next answer).Yields second outcome := by
  rcases h.of_bind with ⟨failure, -, hfirst⟩ | ⟨answer, first, second, rfl, hfirst, hsecond⟩
  · obtain ⟨answer, hfails, -⟩ := hfirst.of_ofRoutine
    cases hfails
  · obtain ⟨given, hgiven, hyields⟩ := hfirst.of_ofRoutine
    obtain rfl := Except.ok.inj hgiven
    exact ⟨answer, first, second, rfl, hyields, hsecond⟩

theorem Yields.of_ask_bind {request : Request K V} {next : request.Response → Action K V ω β}
    {outcome : Except Failure β} (h : (ask request >>= next).Yields exchanges outcome) :
    ∃ response rest, exchanges = ⟨request, response⟩ :: rest ∧
      (next response).Yields rest outcome := by
  obtain ⟨response, first, second, rfl, hfirst, hsecond⟩ := h.of_ofRoutine_bind
  obtain ⟨given, others, rfl, hothers⟩ := hfirst.of_call
  obtain ⟨rfl, hresponse⟩ := Routine.Yields.of_pure hothers
  obtain rfl := hresponse
  exact ⟨response, second, rfl, hsecond⟩

theorem Yields.of_map {f : α → β} {outcome : Except Failure β}
    (h : (f <$> action).Yields exchanges outcome) :
    ∃ given, outcome = given.map f ∧ action.Yields exchanges given := by
  rw [map_eq_pure_bind] at h
  rcases h.of_bind with ⟨failure, rfl, hfirst⟩ | ⟨answer, first, second, rfl, hfirst, hsecond⟩
  · exact ⟨.error failure, rfl, hfirst⟩
  · obtain ⟨rfl, houtcome⟩ := hsecond.of_pure
    rw [List.append_nil]
    exact ⟨.ok answer, houtcome, hfirst⟩

theorem Yields.of_exclusively {exclusive : Action K V ω α}
    (h : (exclusively exclusive).Yields exchanges outcome) :
    ∃ inside, exchanges = ⟨.acquire, ()⟩ :: inside ++ [⟨.release, ()⟩] ∧
      exclusive.Yields inside outcome := by
  unfold Yields exclusively at h
  rw [ExceptT.run_mk] at h
  obtain ⟨_, first, second, rfl, hacquire, hrest⟩ := h.of_bind
  obtain ⟨_, others, rfl, hothers⟩ := hacquire.of_call
  obtain ⟨given, inside, last, rfl, hinside, hlast⟩ := hrest.of_bind
  obtain ⟨_, third, fourth, rfl, hrelease, hpure⟩ := hlast.of_bind
  obtain ⟨_, none, rfl, hnone⟩ := hrelease.of_call
  obtain ⟨rfl, -⟩ := Routine.Yields.of_pure hothers
  obtain ⟨rfl, -⟩ := Routine.Yields.of_pure hnone
  obtain ⟨rfl, rfl⟩ := Routine.Yields.of_pure hpure
  exact ⟨inside, rfl, hinside⟩

end Action

end SnapshotStore
