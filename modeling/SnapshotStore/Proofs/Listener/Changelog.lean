import Mathlib.Data.List.Basic
import Mathlib.Logic.Function.Basic
import SnapshotStore.Proofs.Routine.Protocol

namespace SnapshotStore

variable {K V : Type}

namespace Event

section

variable [DecidableEq K]

def replay (bindings : K → Option V) : Event K V → K → Option V
  | .insert key value => Function.update bindings key (some value)
  | .update key _ new => Function.update bindings key (some new)
  | .remove key => Function.update bindings key none
  | .clear => fun _ => none
  | .flush _ => bindings
  | .flushError _ => bindings

def replayAll (bindings : K → Option V) (events : List (Event K V)) : K → Option V :=
  events.foldl replay bindings

theorem replay_ofPut (bindings : K → Option V) (key : K) (previous : Option V) (value : V) :
    (ofPut key previous value).replay bindings = Function.update bindings key (some value) := by
  cases previous <;> rfl

end

-- What an event tells of the bindings to which it comes.
def Fits (bindings : K → Option V) : Event K V → Prop
  | .insert key _ => bindings key = none
  | .update key old _ => bindings key = some old
  | .remove key => (bindings key).isSome
  | .clear => True
  | .flush _ => True
  | .flushError _ => True

theorem fits_ofPut (bindings : K → Option V) (key : K) (value : V) :
    (ofPut key (bindings key) value).Fits bindings := by
  cases h : bindings key <;> exact h

end Event

-- The events lead from some bindings to others, and each is true where it comes.
inductive Changelog [DecidableEq K] :
    (K → Option V) → List (Event K V) → (K → Option V) → Prop where
  | nil (bindings : K → Option V) : Changelog bindings [] bindings
  | cons {bindings after : K → Option V} {event : Event K V} {rest : List (Event K V)} :
      event.Fits bindings → Changelog (event.replay bindings) rest after →
      Changelog bindings (event :: rest) after

namespace Changelog

variable [DecidableEq K] {before middle after : K → Option V} {event : Event K V}
  {events later : List (Event K V)}

theorem single (h : event.Fits before) : Changelog before [event] (event.replay before) :=
  .cons h (.nil _)

theorem append (h : Changelog before events middle) (h' : Changelog middle later after) :
    Changelog before (events ++ later) after := by
  induction h with
  | nil => exact h'
  | cons hfits _ ih => exact .cons hfits (ih h')

theorem replayAll_eq (h : Changelog before events after) :
    Event.replayAll before events = after := by
  induction h with
  | nil => rfl
  | cons _ _ ih => exact ih

theorem fits (h : Changelog before events after) {first : List (Event K V)}
    (hevents : events = first ++ event :: later) :
    event.Fits (Event.replayAll before first) := by
  induction first generalizing before events with
  | nil =>
      subst hevents
      cases h with
      | cons hfits _ => exact hfits
  | cons other first ih =>
      subst hevents
      cases h with
      | cons _ hrest => exact ih hrest rfl

end Changelog

-- The events that the listener at a position is told of.
def told (position : Nat) (exchanges : List (Exchange K V)) : List (Event K V) :=
  exchanges.filterMap fun exchange =>
    match exchange.request with
    | .notify listener event => if listener = position then some event else none
    | _ => none

theorem told_append (position : Nat) (first second : List (Exchange K V)) :
    told position (first ++ second) = told position first ++ told position second :=
  List.filterMap_append

-- So many listeners are told the same, and it leads from some bindings to others.
def Logs [DecidableEq K] (listeners : Nat) (before : K → Option V)
    (exchanges : List (Exchange K V)) (after : K → Option V) : Prop :=
  ∃ events, (∀ position < listeners, told position exchanges = events) ∧
    Changelog before events after

namespace Logs

variable [DecidableEq K] {listeners : Nat} {before middle after : K → Option V}
  {exchanges later : List (Exchange K V)}

theorem silent (h : ∀ position, told position exchanges = []) :
    Logs listeners before exchanges before :=
  ⟨[], fun position _ => h position, .nil before⟩

theorem append (h : Logs listeners before exchanges middle)
    (h' : Logs listeners middle later after) :
    Logs listeners before (exchanges ++ later) after := by
  obtain ⟨first, hfirst, hlog⟩ := h
  obtain ⟨second, hsecond, hlog'⟩ := h'
  refine ⟨first ++ second, fun position hlt => ?_, hlog.append hlog'⟩
  rw [told_append, hfirst position hlt, hsecond position hlt]

end Logs

end SnapshotStore
