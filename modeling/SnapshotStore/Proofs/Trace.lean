import Mathlib.Data.List.Basic

namespace SnapshotStore

universe u v

inductive Trace {α : Type u} {ε : Type v} (Step : α → ε → α → Prop) (start : α) :
    List ε → α → Prop where
  | start : Trace Step start [] start
  | next {events : List ε} {now after : α} {event : ε} : Trace Step start events now →
      Step now event after → Trace Step start (events ++ [event]) after

namespace Trace

variable {α : Type u} {ε : Type v} {Step : α → ε → α → Prop} {start middle last : α}
  {events before later : List ε}

theorem append (h : Trace Step start before middle) (h' : Trace Step middle later last) :
    Trace Step start (before ++ later) last := by
  induction h' with
  | start => rwa [List.append_nil]
  | next _ hstep ih =>
      rw [← List.append_assoc]
      exact .next ih hstep

theorem cut (h : Trace Step start (before ++ later) last) :
    ∃ middle, Trace Step start before middle ∧ Trace Step middle later last := by
  generalize hall : before ++ later = events at h
  induction h generalizing later with
  | start =>
      obtain ⟨rfl, rfl⟩ := List.append_eq_nil_iff.mp hall
      exact ⟨start, .start, .start⟩
  | next h hstep ih =>
      rcases List.eq_nil_or_concat later with rfl | ⟨front, event, rfl⟩
      · rw [List.append_nil] at hall
        subst hall
        exact ⟨_, .next h hstep, .start⟩
      · rw [List.concat_eq_append, ← List.append_assoc] at hall
        obtain ⟨hfront, hevent⟩ := List.append_inj' hall rfl
        obtain rfl := List.singleton_inj.mp hevent
        obtain ⟨middle, hbefore, hlater⟩ := ih hfront
        rw [List.concat_eq_append]
        exact ⟨middle, hbefore, .next hlater hstep⟩

-- The step by which an event has come about.
theorem exists_step {event : ε} (h : Trace Step start (before ++ event :: later) last) :
    ∃ now next, Trace Step start before now ∧ Step now event next ∧
      Trace Step next later last := by
  rw [List.append_cons] at h
  obtain ⟨next, hbefore, hlater⟩ := h.cut
  generalize hall : before ++ [event] = events at hbefore
  cases hbefore with
  | start => simp at hall
  | next h hstep =>
      obtain ⟨rfl, hevent⟩ := List.append_inj' hall rfl
      obtain rfl := List.singleton_inj.mp hevent
      exact ⟨_, next, h, hstep, hlater⟩

theorem invariant {Inv : List ε → α → Prop} (hstart : Inv [] start)
    (hstep : ∀ events now event after, Trace Step start events now → Inv events now →
      Step now event after → Inv (events ++ [event]) after)
    (h : Trace Step start events last) : Inv events last := by
  induction h with
  | start => exact hstart
  | next h hnext ih => exact hstep _ _ _ _ h ih hnext

-- What no step undoes stays.
theorem stable {P : α → Prop} (hstep : ∀ now event after, Step now event after → P now → P after)
    (h : Trace Step start events last) (hstart : P start) : P last := by
  induction h with
  | start => exact hstart
  | next _ hnext ih => exact hstep _ _ _ hnext ih

theorem forall_mem {P : α → Prop} {Q : ε → Prop}
    (hstep : ∀ now event after, Step now event after → P now → P after ∧ Q event)
    (h : Trace Step start events last) (hstart : P start) : ∀ event ∈ events, Q event := by
  induction h with
  | start => exact fun _ hmem => absurd hmem List.not_mem_nil
  | next h hnext ih =>
      have hnow := stable (P := P) (fun _ _ _ hnext hP => (hstep _ _ _ hnext hP).1) h hstart
      intro event hmem
      rcases List.mem_append.mp hmem with hold | hnew
      · exact ih event hold
      · rw [List.mem_singleton.mp hnew]
        exact (hstep _ _ _ hnext hnow).2

end Trace

end SnapshotStore
