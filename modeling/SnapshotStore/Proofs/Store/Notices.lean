import SnapshotStore.Proofs.Routine.Yields
import SnapshotStore.Proofs.Store.Telling

namespace SnapshotStore

variable {K V S σ ω : Type}

-- The listeners at some positions are told of an event, and none of them raises a failure.
def noticesAt (positions : List Nat) (event : Event K V) : List (Exchange K V) :=
  positions.map fun position => ⟨.notify position event, .ok ()⟩

-- Whether a listener has raised a failure.
def Exchange.raises : Exchange K V → Bool
  | ⟨.notify _ _, .error _⟩ => true
  | _ => false

theorem told_noticesAt (position : Nat) (positions : List Nat) (event : Event K V) :
    told position (noticesAt positions event) =
      List.replicate (positions.count position) event := by
  induction positions with
  | nil => rfl
  | cons first rest ih =>
      rw [List.count_cons]
      by_cases hposition : first = position
      · simpa [noticesAt, told, hposition, List.replicate_succ] using ih
      · simpa [noticesAt, told, hposition] using ih

theorem told_noticesAt_range (position n : Nat) (event : Event K V) :
    told position (noticesAt (List.range n) event) = if position < n then [event] else [] := by
  rw [told_noticesAt]
  split
  · next hlt =>
    have hcount : (List.range n).count position = 1 :=
      List.count_eq_one_of_mem List.nodup_range (List.mem_range.mpr hlt)
    rw [hcount]
    rfl
  · next hge =>
    rw [List.count_eq_zero_of_not_mem fun hmem => hge (List.mem_range.mp hmem)]
    rfl

theorem range_eq_append_cons {n position : Nat} {before after : List Nat}
    (h : List.range n = before ++ position :: after) :
    before = List.range position ∧ position < n := by
  have hlength : before.length < (List.range n).length := by simp [h]
  have hget : (List.range n)[before.length]? = some position := by simp [h]
  rw [List.length_range] at hlength
  rw [List.getElem?_range hlength] at hget
  obtain rfl := Option.some.inj hget
  have htake : (List.range n).take before.length = before := by simp [h]
  rw [List.take_range, Nat.min_eq_left (Nat.le_of_lt hlength)] at htake
  exact ⟨htake.symm, hlength⟩

namespace Store

open SnapshotStore.Action

-- No listener has raised a failure.
def Calm (exchanges : List (Exchange K V)) : Prop :=
  ∀ exchange ∈ exchanges, exchange.raises = false

theorem calm_append {first second : List (Exchange K V)} :
    Calm (first ++ second) ↔ Calm first ∧ Calm second :=
  List.forall_mem_append

def notices (store : Store K V S σ) (event : Event K V) : List (Exchange K V) :=
  noticesAt (List.range store.listeners.length) event

theorem told_notices {store : Store K V S σ} {position : Nat}
    (hlt : position < store.listeners.length) (event : Event K V) :
    told position (store.notices event) = [event] := by
  rw [notices, told_noticesAt_range, if_pos hlt]

section

variable (store : Store K V S σ) (event : Event K V) (world : World S σ)

theorem tellFrom_cases (positions : List Nat) :
    (∃ desk, (tellFrom event positions).Ends (World.serve store.setting) world
      (noticesAt positions event) (.ok ()) { world with desk := desk }) ∨
    ∃ before position after failure desk, positions = before ++ position :: after ∧
      (tellFrom event positions).Ends (World.serve store.setting) world
        (noticesAt before event ++ [⟨.notify position event, .error failure⟩]) (.error failure)
        { world with desk := desk } := by
  induction positions generalizing world with
  | nil => exact .inl ⟨world.desk, ends_pure ()⟩
  | cons first rest ih =>
      have hask := ends_ask (World.serve store.setting) (.notify first event) world
      obtain ⟨desk, hdesk⟩ := world.notify_desk store.setting first event
      rw [show (world.serve store.setting (.notify first event)).2 = _ from hdesk] at hask
      generalize hresponse : (world.serve store.setting (.notify first event)).1 = response at hask
      cases response with
      | error failure =>
          refine .inr ⟨[], first, rest, failure, desk, rfl, ?_⟩
          exact hask.bind (Ends.bind_error ⟨rfl, rfl⟩)
      | ok _ =>
          rcases ih { world with desk := desk } with
            ⟨last, hrest⟩ | ⟨before, position, after, failure, last, rfl, hrest⟩
          · exact .inl ⟨last, hask.bind (Ends.bind (ends_pure ()) hrest)⟩
          · have hall : (tellFrom event (first :: (before ++ position :: after))).Ends
                (World.serve store.setting) world _ _ _ :=
              hask.bind (Ends.bind (ends_pure ()) hrest)
            exact .inr ⟨first :: before, position, after, failure, last, rfl, hall⟩

-- The only way in which telling the listeners may fail.
theorem tell_cases :
    (∃ desk, (store.tell event).Ends (World.serve store.setting) world (store.notices event)
      (.ok ()) { world with desk := desk }) ∨
    ∃ position < store.listeners.length, ∃ failure desk,
      (store.tell event).Ends (World.serve store.setting) world
        (noticesAt (List.range position) event ++ [⟨.notify position event, .error failure⟩])
        (.error failure) { world with desk := desk } := by
  rcases store.tellFrom_cases event world (List.range store.listeners.length) with
    hall | ⟨before, position, after, failure, desk, hpositions, hends⟩
  · exact .inl hall
  · obtain ⟨rfl, hlt⟩ := range_eq_append_cons hpositions
    exact .inr ⟨position, hlt, failure, desk, hends⟩

variable {store} (hlisteners : ∀ listener ∈ store.listeners, listener.NeverFails)

include hlisteners

theorem ends_notices :
    ∃ desk, (store.tell event).Ends (World.serve store.setting) world (store.notices event)
      (.ok ()) { world with desk := desk } := by
  rcases store.tell_cases event world with hall | ⟨position, -, failure, desk, hends⟩
  · exact hall
  · obtain ⟨exchanges, after, htell, -⟩ := ends_tell hlisteners event world
    cases (Prod.mk.inj (hends.exec.symm.trans htell.exec)).1

omit event in
theorem raises_serve (request : Request K V) :
    Exchange.raises ⟨request, (world.serve store.setting request).1⟩ = false := by
  cases request with
  | notify position event =>
      obtain ⟨after, hends, -⟩ := ends_notify hlisteners position event world
      have hok : (world.serve store.setting (.notify position event)).1 = .ok () :=
        Except.ok.inj (congrArg Prod.fst hends.exec)
      rw [hok]
      rfl
  | _ => rfl

omit event in
theorem calm_exchanges {α : Type} (routine : Routine K V (World S σ) α) :
    Calm (routine.exchanges (World.serve store.setting) world) := by
  induction routine generalizing world with
  | done answer => exact fun _ hmem => absurd hmem List.not_mem_nil
  | call request next ih =>
      exact List.forall_mem_cons.mpr ⟨raises_serve world hlisteners request, ih _ _⟩
  | aside act next ih => exact ih _ _

end

section

variable {store : Store K V S σ} {event : Event K V} {exchanges : List (Exchange K V)}
  {outcome : Except Failure Unit}

theorem noticesAt_of_yields {positions : List Nat}
    (h : (tellFrom event positions : Action K V ω Unit).Yields exchanges outcome)
    (hcalm : Calm exchanges) : exchanges = noticesAt positions event ∧ outcome = .ok () := by
  induction positions generalizing exchanges with
  | nil => exact h.of_pure
  | cons first rest ih =>
      obtain ⟨response, others, rfl, hothers⟩ := Yields.of_ask_bind h
      obtain ⟨hfirst, hrest⟩ := List.forall_mem_cons.mp hcalm
      cases response with
      | error failure => cases hfirst
      | ok _ =>
          obtain ⟨rfl, rfl⟩ := ih hothers hrest
          exact ⟨rfl, rfl⟩

theorem notices_of_yields (h : (store.tell event : Action K V ω Unit).Yields exchanges outcome)
    (hcalm : Calm exchanges) : exchanges = store.notices event ∧ outcome = .ok () :=
  noticesAt_of_yields h hcalm

end

end Store

end SnapshotStore
