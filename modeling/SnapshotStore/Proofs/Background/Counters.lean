import SnapshotStore.Proofs.Background.Courses
import SnapshotStore.Proofs.Listener.Statistics

namespace SnapshotStore

variable {K V S σ β : Type}

-- The saves that a listener has been told of, in that order, each with the thread that has made it.
def savesTold (position : Nat) (moves : List (Move K V S)) : List (Nat × Except Failure Nat) :=
  moves.flatMap fun move =>
    ((told position [move.exchange]).filterMap Event.saved?).map (move.thread, ·)

-- What is done beside the store leaves something as it is.
def Routine.Spares {ω α γ : Type} (view : ω → γ) : Routine K V ω α → Prop
  | .done _ => True
  | .call _ next => ∀ response, (next response).Spares view
  | .aside act next => (∀ whole, view (act whole).2 = view whole) ∧
      ∀ answer, (next answer).Spares view

theorem Routine.Follows.spares {ω α γ : Type} {view : ω → γ} {routine rest : Routine K V ω α}
    {exchanges : List (Exchange K V)} (h : routine.Follows exchanges rest)
    (hspares : routine.Spares view) : rest.Spares view := by
  induction h with
  | start => exact hspares
  | call response _ ih => exact (ih hspares) response
  | aside answer _ ih => exact (ih hspares).2 answer

theorem Routine.Returns.spares {ω α γ : Type} (view : ω → γ) {routine : Routine K V ω α}
    (h : routine.Returns (asking K V) ()) : routine.Spares view := by
  induction routine with
  | done answer => exact trivial
  | call request next ih => exact fun response => ih response (h.2 response)
  | aside act next ih => exact h.1.elim

theorem told_notify (position listener : Nat) (event : Event K V)
    (outcome : Except Failure Unit) :
    told position [⟨.notify listener event, outcome⟩] =
      if listener = position then [event] else [] := by
  by_cases hposition : listener = position <;> simp [told, hposition]

-- Nobody but a listener writes on the desk.
theorem World.serve_desk (setting : Setting K V S σ) {request : Request K V} (world : World S σ)
    (h : request.IsSilent) : (world.serve setting request).2.desk = world.desk := by
  refine (world.serve_sameBut setting request).desk fun hpart => ?_
  cases request <;> contradiction

-- The listeners from a position on keep the parts of some counters, and the other listeners leave
-- the counters alone.
structure Store.KeepsStats (store : Store K V S σ) (position : Nat) (read : σ → Stats) : Prop where
  listeners : ∃ modify, (∀ part : Stats.Part, store.listeners[position + part.place]? =
      (Stats.listeners (K := K) (V := V) modify)[part.place]?) ∧
    ∀ change desk, read (modify change desk) = change (read desk)
  others : ∀ (other : Nat) (listener : Listener K V σ),
    (∀ part : Stats.Part, other ≠ position + part.place) →
    store.listeners[other]? = some listener →
    ∀ event sight desk, read (listener.notify event sight desk).2 = read desk

namespace Store.KeepsStats

variable {store : Store K V S σ} {position : Nat} {read : σ → Stats}
  {ended : Stats.Part → List (Except Failure Nat)}

theorem exists_listener (h : store.KeepsStats position read) (part : Stats.Part) :
    ∃ modify : (Stats → Stats) → σ → σ, store.listeners[position + part.place]? =
        some (.recording fun event _ => modify (·.note part event)) ∧
      ∀ change desk, read (modify change desk) = change (read desk) := by
  obtain ⟨modify, hlisteners, hread⟩ := h.listeners
  refine ⟨modify, (hlisteners part).trans ?_, hread⟩
  rw [Stats.listeners, List.getElem?_map, part.getElem?_all]
  rfl

theorem notify_part (h : store.KeepsStats position read) (part : Stats.Part) (event : Event K V)
    (world : World S σ) (hcounts : (read world.desk).Counts ended) :
    (read (world.notify store.setting (position + part.place) event).2.desk).Counts
      (Stats.toldAlso ended part event) := by
  obtain ⟨modify, hlistener, hread⟩ := h.exists_listener part
  have hsetting : store.setting.listeners[position + part.place]? = _ := hlistener
  simp only [World.notify, hsetting]
  exact (hread _ _).symm ▸ hcounts.note part event

theorem notify_other (h : store.KeepsStats position read) {listener : Nat}
    (hother : ∀ part : Stats.Part, listener ≠ position + part.place) (event : Event K V)
    (world : World S σ) :
    read (world.notify store.setting listener event).2.desk = read world.desk := by
  unfold World.notify
  split
  · next other hlistener => exact h.others listener other hother hlistener _ _ _
  · rfl

-- What the parts of the counters are told in a request.
theorem toldAlso_eq (ended : Stats.Part → List (Except Failure Nat)) (position : Nat)
    (part : Stats.Part) (event : Event K V) (outcome : Except Failure Unit) :
    Stats.toldAlso ended part event = fun other => ended other ++
      (told (position + other.place) [⟨.notify (position + part.place) event, outcome⟩]).filterMap
        Event.saved? := by
  funext other
  rw [told_notify]
  by_cases hother : other = part
  · subst hother
    rw [Stats.toldAlso, Function.update_self, if_pos rfl]
    cases hevent : event.saved? <;> simp [hevent]
  · have hplace : position + part.place ≠ position + other.place := by
      revert hother
      cases other <;> cases part <;> simp [Stats.Part.place]
    rw [Stats.toldAlso, Function.update_of_ne hother, if_neg hplace, List.filterMap_nil,
      List.append_nil]

theorem serve (h : store.KeepsStats position read) (request : Request K V) (world : World S σ)
    (hcounts : (read world.desk).Counts ended) :
    (read (world.serve store.setting request).2.desk).Counts fun part => ended part ++
      (told (position + part.place)
        [⟨request, (world.serve store.setting request).1⟩]).filterMap Event.saved? := by
  by_cases hsilent : request.IsSilent
  · simp only [hsilent.told_cons]
    rw [World.serve_desk store.setting world hsilent]
    simpa [told] using hcounts
  cases request with
  | notify listener event =>
      by_cases hpart : ∃ part : Stats.Part, listener = position + part.place
      · obtain ⟨part, rfl⟩ := hpart
        have hnotify := h.notify_part part event world hcounts
        rwa [toldAlso_eq ended position part event] at hnotify
      · have hother : ∀ part : Stats.Part, listener ≠ position + part.place :=
          not_exists.mp hpart
        have hsame := h.notify_other hother event world
        simp only [told_notify, if_neg (hother _), List.filterMap_nil, List.append_nil]
        exact hsame.symm ▸ hcounts
  | _ => exact absurd trivial hsilent

end Store.KeepsStats

namespace Staffed

variable {store : Store K V S σ} {first now after : Staffed K V S σ (List (Outcome K V β))}
  {deeds : List (Deed K V S)} {deed : Deed K V S} {position : Nat} {read : σ → Stats}
  {ended : Stats.Part → List (Except Failure Nat)}

-- The saves that a listener is told of in some steps.
def endedSaves (position : Nat) (deeds : List (Deed K V S)) : List (Except Failure Nat) :=
  (savesTold position (Deed.moves deeds)).map Prod.snd

theorem endedSaves_append (deeds later : List (Deed K V S)) :
    endedSaves position (deeds ++ later) =
      endedSaves position deeds ++ endedSaves position later := by
  rw [endedSaves, Deed.moves_append, savesTold, List.flatMap_append, List.map_append]
  rfl

theorem endedSaves_served (position : Nat) (move : Move K V S) :
    endedSaves position [.served move] =
      (told position [move.exchange]).filterMap Event.saved? := by
  simp [endedSaves, savesTold, Deed.moves, Deed.move?, Function.comp_def]

-- What the parts of some counters are told in some steps.
def endedParts (position : Nat) (deeds : List (Deed K V S)) (part : Stats.Part) :
    List (Except Failure Nat) :=
  endedSaves (position + part.place) deeds

theorem endedParts_append (deeds later : List (Deed K V S)) :
    endedParts position (deeds ++ later) =
      fun part => endedParts position deeds part ++ endedParts position later part :=
  funext fun _ => endedSaves_append deeds later

theorem counts_served (h : store.KeepsStats position read) (world : World S σ) (thread : Nat)
    (request : Request K V) (hcounts : (read world.desk).Counts ended) :
    (read (world.serve store.setting request).2.desk).Counts fun part => ended part ++
      endedParts position [.served (world.move store.setting thread request)] part := by
  simp only [endedParts, endedSaves_served]
  exact h.serve request world hcounts

theorem counts_seen (sign : Worker.Sign) {before later : World S σ}
    (hdesk : read later.desk = read before.desk) (hcounts : (read before.desk).Counts ended) :
    (read later.desk).Counts fun part => ended part ++
      endedParts position [(.seen sign : Deed K V S)] part := by
  have hnone : ∀ part, endedParts position [(.seen sign : Deed K V S)] part = [] := fun _ => rfl
  simp only [hnone, List.append_nil]
  exact hdesk.symm ▸ hcounts

theorem Works.counts (h : store.KeepsStats position read) (hworks : now.Works store deed after)
    (hcounts : (read now.world.desk).Counts ended) :
    (read after.world.desk).Counts fun part => ended part ++ endedParts position [deed] part := by
  cases hworks with
  | moves _ _ _ => exact counts_seen _ rfl hcounts
  | begins _ => exact counts_seen _ rfl hcounts
  | asks _ _ _ => exact counts_served h now.world _ _ hcounts
  | ends _ _ => exact counts_seen _ rfl hcounts

theorem Step.counts (h : store.KeepsStats position read) (hstep : Step store now deed after)
    (hspares : ∀ routine ∈ now.routines, routine.Spares fun world => read world.desk)
    (hcounts : (read now.world.desk).Counts ended) :
    (read after.world.desk).Counts fun part => ended part ++ endedParts position [deed] part := by
  cases hstep with
  | serve hcall hstep =>
      obtain ⟨-, -, hworld⟩ := Threads.step?_call hcall hstep
      dsimp only
      rw [hworld]
      exact counts_served h now.world _ _ hcounts
  | beside haside hstep _ _ =>
      obtain ⟨-, hworld⟩ := Threads.step?_aside haside hstep
      have hspared := (hspares _ (List.mem_of_getElem? haside)).1 now.world
      refine counts_seen _ ?_ hcounts
      dsimp only
      rw [hworld]
      exact hspared
  | worker timeIsUp hstep => exact (works_of_workerStep? hstep).counts h hcounts
  | send => exact counts_seen _ rfl hcounts
  | close => exact counts_seen _ rfl hcounts
  | requestStop => exact counts_seen _ rfl hcounts

-- The counters at any moment, if they start at zero.
theorem counts (hlisteners : ∀ listener ∈ store.listeners, listener.NeverFails)
    (hidle : first.worker.phase ≠ .flushing) (h : store.KeepsStats position read)
    (hzero : read first.world.desk = {})
    (hspares : ∀ routine ∈ first.routines, routine.Spares fun world => read world.desk)
    (htrace : Trace (Step store) first deeds now) :
    (read now.world.desk).Counts (endedParts position deeds) := by
  induction htrace with
  | start =>
      rw [hzero]
      exact Stats.counts_start
  | next htrace hstep ih =>
      rw [endedParts_append]
      refine hstep.counts h (fun rest hrest => ?_) ih
      obtain ⟨thread, hthread⟩ := List.mem_iff_getElem?.mp hrest
      obtain ⟨routine, hroutine, hfollows⟩ :=
        (underway hlisteners hidle htrace).follows thread rest hthread
      exact hfollows.spares (hspares routine (List.mem_of_getElem? hroutine))

end Staffed

end SnapshotStore
