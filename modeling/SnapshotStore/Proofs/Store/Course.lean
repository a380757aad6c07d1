import SnapshotStore.Proofs.Store.Announcing
import SnapshotStore.Proofs.Store.Callbacks

namespace SnapshotStore

variable {K V S σ ω α β ρ : Type}

-- What the course of some operations costs: that the policy is evaluated, or that somebody flushes
-- the store; and how the save ends, if there is one.
inductive Effort where
  | evaluation (saved : Option (Except Failure Nat))
  | flush (saved : Except Failure Nat)

namespace Effort

def isEvaluation : Effort → Bool
  | evaluation _ => true
  | flush _ => false

def saved? : Effort → Option (Except Failure Nat)
  | evaluation saved => saved
  | flush saved => some saved

-- How the attempts to save have ended.
def attempts (efforts : List Effort) : List (Except Failure Nat) :=
  efforts.filterMap saved?

end Effort

-- The commands that write whatever they find.
def Command.Writes : Command K V ω β → Prop
  | .insert _ _ => True
  | .remove _ => True
  | .clear => True
  | .extend _ => True
  | _ => False

namespace Store

open SnapshotStore.Action

-- The listeners are told of the changes that are made, and the policy is evaluated after that.
def Finishes (store : Store K V S σ) (ω : Type) (exchanges : List (Exchange K V))
    (saved : Option (Except Failure Nat)) : Prop :=
  ∃ own evaluation events, exchanges = own ++ evaluation ∧
    Tally store.listeners.length own 0 0 events ∧
    (∀ event ∈ events, event.isMutation = true) ∧ store.Evaluation ω evaluation saved

-- The courses that an operation can take, given what it asks for and is answered.
mutual

inductive Course (store : Store K V S σ) :
    Command K V ω β → List (Exchange K V) → Outcome K V β → List Effort → Prop where
  | reads {command : Command K V ω β} {exchanges : List (Exchange K V)}
      {outcome : Outcome K V β} :
      command.Reads → (∀ exchange ∈ exchanges, exchange.request.IsMute) →
      Course store command exchanges outcome []
  | writes {command : Command K V ω β} {exchanges : List (Exchange K V)}
      {saved : Option (Except Failure Nat)} (answer : Answer K V β) :
      command.Writes → store.Finishes ω exchanges saved →
      Course store command exchanges (answered saved answer) [.evaluation saved]
  -- an update of an unbound key
  | updateMissing {key : K} {inner : List (Command K V ω β)} {edit : V → Except Failure V} :
      Course store (.update key inner edit) [⟨.get key, none⟩] (.ok (.updated none)) []
  | updateRaised {key : K} {inner : List (Command K V ω β)} {edit : V → Except Failure V}
      {current : V} {nested : List (Exchange K V)} {outcomes : List (Outcome K V β)}
      {failure : Failure} {efforts : List Effort} :
      Courses store inner nested outcomes efforts → edit current = .error failure →
      Course store (.update key inner edit) (⟨.get key, some current⟩ :: nested) (.error failure)
        efforts
  | updateDone {key : K} {inner : List (Command K V ω β)} {edit : V → Except Failure V}
      {current value : V} {nested exchanges : List (Exchange K V)}
      {outcomes : List (Outcome K V β)} {saved : Option (Except Failure Nat)}
      {efforts : List Effort} :
      Courses store inner nested outcomes efforts → edit current = .ok value →
      store.Finishes ω exchanges saved →
      Course store (.update key inner edit) (⟨.get key, some current⟩ :: (nested ++ exchanges))
        (answered saved (.updated (some outcomes))) (efforts ++ [.evaluation saved])
  | getOrInsertFound {key : K} {value existing : V} :
      Course store (.getOrInsert key value) [⟨.get key, some existing⟩]
        (.ok (.found (some existing))) []
  | getOrInsertMissing {key : K} {value : V} {exchanges : List (Exchange K V)}
      {saved : Option (Except Failure Nat)} :
      store.Finishes ω exchanges saved →
      Course store (.getOrInsert key value) (⟨.get key, none⟩ :: exchanges)
        (answered saved (.found (some value))) [.evaluation saved]
  | getOrInsertWithFound {key : K} {inner : List (Command K V ω β)} {make : Except Failure V}
      {existing : V} :
      Course store (.getOrInsertWith key inner make) [⟨.get key, some existing⟩]
        (.ok (.obtained existing none)) []
  | getOrInsertWithRaised {key : K} {inner : List (Command K V ω β)}
      {nested : List (Exchange K V)} {outcomes : List (Outcome K V β)} {failure : Failure}
      {efforts : List Effort} :
      Courses store inner nested outcomes efforts →
      Course store (.getOrInsertWith key inner (.error failure)) (⟨.get key, none⟩ :: nested)
        (.error failure) efforts
  | getOrInsertWithDone {key : K} {inner : List (Command K V ω β)} {value : V}
      {nested exchanges : List (Exchange K V)} {outcomes : List (Outcome K V β)}
      {saved : Option (Except Failure Nat)} {efforts : List Effort} :
      Courses store inner nested outcomes efforts → store.Finishes ω exchanges saved →
      Course store (.getOrInsertWith key inner (.ok value))
        (⟨.get key, none⟩ :: (nested ++ exchanges))
        (answered saved (.obtained value (some outcomes))) (efforts ++ [.evaluation saved])
  | flush {exchanges : List (Exchange K V)} {saved : Except Failure Nat} :
      store.Attempt ω exchanges saved →
      Course store .flush exchanges (answered (some saved) .nothing) [.flush saved]
  | aside (act : ω → β × ω) (answer : β) :
      Course store (.aside act) [] (.ok (.beside answer)) []

inductive Courses (store : Store K V S σ) :
    List (Command K V ω β) → List (Exchange K V) → List (Outcome K V β) → List Effort → Prop where
  | nil : Courses store [] [] [] []
  | cons {command : Command K V ω β} {rest : List (Command K V ω β)}
      {first others : List (Exchange K V)} {outcome : Outcome K V β}
      {outcomes : List (Outcome K V β)} {efforts more : List Effort} :
      Course store command first outcome efforts → Courses store rest others outcomes more →
      Courses store (command :: rest) (first ++ others) (outcome :: outcomes) (efforts ++ more)

end

variable {store : Store K V S σ} {exchanges : List (Exchange K V)}

theorem finishes_announced {event : Event K V} {change : List (Exchange K V)}
    {outcome : Except Failure Unit} (hmutation : event.isMutation = true)
    (hmute : ∀ exchange ∈ change, exchange.request.IsMute)
    (h : (store.announce event : Action K V ω Unit).Yields exchanges outcome)
    (hcalm : Calm exchanges) :
    ∃ saved, outcome = answered saved () ∧ store.Finishes ω (change ++ exchanges) saved := by
  rcases Yields.of_bind h with ⟨failure, -, htell⟩ | ⟨_, first, evaluation, rfl, htell, hsettle⟩
  · cases (notices_of_yields htell hcalm).2
  · obtain ⟨hfirst, hlast⟩ := calm_append.mp hcalm
    obtain ⟨rfl, -⟩ := notices_of_yields htell hfirst
    obtain ⟨saved, hevaluation, rfl⟩ := evaluation_of_yields hsettle hlast
    refine ⟨saved, rfl, change ++ store.notices event, evaluation, [event], ?_, ?_, ?_, hevaluation⟩
    · rw [List.append_assoc]
    · exact (Tally.mute _ hmute).append (Tally.notices store event)
    · exact List.forall_mem_singleton.mpr hmutation

theorem finishes_settled {change : List (Exchange K V)} {outcome : Except Failure Unit}
    (hmute : ∀ exchange ∈ change, exchange.request.IsMute)
    (h : (store.settle : Action K V ω Unit).Yields exchanges outcome) (hcalm : Calm exchanges) :
    ∃ saved, outcome = answered saved () ∧ store.Finishes ω (change ++ exchanges) saved := by
  obtain ⟨saved, hevaluation, rfl⟩ := evaluation_of_yields h hcalm
  exact ⟨saved, rfl, change, exchanges, [], rfl, Tally.mute _ hmute,
    fun _ hmem => absurd hmem List.not_mem_nil, hevaluation⟩

-- A key is set and that is announced.
theorem finishes_set {key : K} {value : V} {answer : Option V → α} {event : Option V → Event K V}
    {outcome : Except Failure α} (hmutation : ∀ previous, (event previous).isMutation = true)
    (h : (do
      let previous ← ask (.insert key value)
      (fun _ => answer previous) <$> store.announce (event previous) : Action K V ω α).Yields
        exchanges outcome) (hcalm : Calm exchanges) :
    ∃ saved previous, outcome = answered saved (answer previous) ∧
      store.Finishes ω exchanges saved := by
  obtain ⟨previous, others, rfl, hothers⟩ := Yields.of_ask_bind h
  obtain ⟨announced, rfl, hannounce⟩ := hothers.of_map
  obtain ⟨-, hcalm⟩ := List.forall_mem_cons.mp hcalm
  obtain ⟨saved, rfl, hfinishes⟩ := finishes_announced (hmutation previous)
    (Exchange.mute_insert key value previous) hannounce hcalm
  exact ⟨saved, previous, answered_map _ _ _, hfinishes⟩

theorem finishes_insert {key : K} {value : V} {outcome : Except Failure (Option V)}
    (h : (store.insert key value : Action K V ω (Option V)).Yields exchanges outcome)
    (hcalm : Calm exchanges) :
    ∃ saved previous, outcome = answered saved previous ∧ store.Finishes ω exchanges saved := by
  rw [insert_eq] at h
  exact finishes_set (fun previous => Event.isMutation_ofPut key previous value) h hcalm

theorem finishes_remove {key : K} {outcome : Except Failure (Option V)}
    (h : (store.remove key : Action K V ω (Option V)).Yields exchanges outcome)
    (hcalm : Calm exchanges) :
    ∃ saved removed, outcome = answered saved removed ∧ store.Finishes ω exchanges saved := by
  rw [remove_eq] at h
  obtain ⟨removed, others, rfl, hothers⟩ := Yields.of_ask_bind h
  obtain ⟨given, rfl, hgiven⟩ := hothers.of_map
  obtain ⟨-, hrest⟩ := List.forall_mem_cons.mp hcalm
  have hmute := Exchange.mute_remove key removed
  cases removed with
  | none =>
      obtain ⟨saved, rfl, hfinishes⟩ := finishes_settled hmute hgiven hrest
      exact ⟨saved, none, answered_map _ _ _, hfinishes⟩
  | some value =>
      obtain ⟨saved, rfl, hfinishes⟩ := finishes_announced rfl hmute hgiven hrest
      exact ⟨saved, some value, answered_map _ _ _, hfinishes⟩

theorem finishes_clear {outcome : Except Failure Unit}
    (h : (store.clear : Action K V ω Unit).Yields exchanges outcome) (hcalm : Calm exchanges) :
    ∃ saved, outcome = answered saved () ∧ store.Finishes ω exchanges saved := by
  obtain ⟨_, first, others, rfl, hfirst, hothers⟩ := Yields.of_ofRoutine_bind h
  have hmute := hfirst.forall_allowed (Memory.mute_clear store.backend)
  exact finishes_announced rfl hmute hothers (calm_append.mp hcalm).2

theorem put_of_yields {key : K} {value : V} {outcome : Except Failure (Option V)}
    (h : (store.put key value : Action K V ω (Option V)).Yields exchanges outcome)
    (hcalm : Calm exchanges) :
    ∃ previous, outcome = .ok previous ∧
      exchanges = ⟨.insert key value, previous⟩ :: store.notices (.ofPut key previous value) := by
  obtain ⟨previous, others, rfl, hothers⟩ := Yields.of_ask_bind h
  obtain ⟨-, hcalm⟩ := List.forall_mem_cons.mp hcalm
  rcases hothers.of_bind with ⟨failure, -, htell⟩ | ⟨_, first, second, rfl, htell, hpure⟩
  · cases (notices_of_yields htell hcalm).2
  · obtain ⟨rfl, rfl⟩ := hpure.of_pure
    rw [List.append_nil] at hcalm ⊢
    exact ⟨previous, rfl, congrArg (List.cons _) (notices_of_yields htell hcalm).1⟩

theorem puts_of_yields {entries : List (K × V)} {outcome : Except Failure Unit}
    (h : (store.putAll entries : Action K V ω Unit).Yields exchanges outcome)
    (hcalm : Calm exchanges) :
    outcome = .ok () ∧ ∃ events, Tally store.listeners.length exchanges 0 0 events ∧
      ∀ event ∈ events, event.isMutation = true := by
  induction entries generalizing exchanges with
  | nil =>
      obtain ⟨rfl, rfl⟩ := h.of_pure
      exact ⟨rfl, [], Tally.mute _ fun _ hmem => absurd hmem List.not_mem_nil,
        fun _ hmem => absurd hmem List.not_mem_nil⟩
  | cons entry rest ih =>
      rcases Yields.of_bind h with ⟨failure, -, hput⟩ | ⟨_, first, others, rfl, hput, hothers⟩
      · obtain ⟨previous, hok, -⟩ := put_of_yields hput hcalm
        cases hok
      · obtain ⟨hfirst, hlast⟩ := calm_append.mp hcalm
        obtain ⟨previous, -, rfl⟩ := put_of_yields hput hfirst
        obtain ⟨rfl, events, htally, hmutations⟩ := ih hothers hlast
        have hinsert := Exchange.mute_insert entry.1 entry.2 previous
        have hone := (Tally.mute _ hinsert).append
          (Tally.notices store (.ofPut entry.1 previous entry.2))
        exact ⟨rfl, _, hone.append htally,
          List.forall_mem_cons.mpr ⟨Event.isMutation_ofPut _ _ _, hmutations⟩⟩

theorem finishes_extend {entries : List (K × V)} {outcome : Except Failure Unit}
    (h : (store.extend entries : Action K V ω Unit).Yields exchanges outcome)
    (hcalm : Calm exchanges) :
    ∃ saved, outcome = answered saved () ∧ store.Finishes ω exchanges saved := by
  rcases Yields.of_bind h with ⟨failure, -, hputs⟩ | ⟨_, puts, evaluation, rfl, hputs, hsettle⟩
  · cases (puts_of_yields hputs hcalm).1
  · obtain ⟨hfirst, hlast⟩ := calm_append.mp hcalm
    obtain ⟨-, events, htally, hmutations⟩ := puts_of_yields hputs hfirst
    obtain ⟨saved, hevaluation, rfl⟩ := evaluation_of_yields hsettle hlast
    exact ⟨saved, rfl, puts, evaluation, events, rfl, htally, hmutations, hevaluation⟩

theorem callback_of_yields {inner : List (Command K V ω β)} {made : Except Failure V}
    {outcome : Except Failure (V × List (Outcome K V β))}
    (h : (store.callback inner made).Yields exchanges outcome) :
    ∃ outcomes, (store.performAll inner).Yields exchanges outcomes ∧
      outcome = made.map fun value => (value, outcomes) := by
  obtain ⟨outcomes, first, second, rfl, hfirst, hsecond⟩ := Yields.of_ofRoutine_bind h
  have hmade : second = [] ∧ outcome = made.map fun value => (value, outcomes) := by
    cases made with
    | error failure => exact Yields.of_raise hsecond
    | ok value => exact Yields.of_pure hsecond
  rw [hmade.1, List.append_nil]
  exact ⟨outcomes, hfirst, hmade.2⟩

section

variable {key : K} {inner : List (Command K V ω β)}
  (hinner : ∀ nested outcomes, (store.performAll inner).Yields nested outcomes → Calm nested →
    ∃ efforts, store.Courses inner nested outcomes efforts)

include hinner

theorem course_update {edit : V → Except Failure V} {outcome : Outcome K V β}
    (h : (store.perform (.update key inner edit)).Yields exchanges outcome)
    (hcalm : Calm exchanges) :
    ∃ efforts, store.Course (.update key inner edit) exchanges outcome efforts := by
  rw [perform_update] at h
  obtain ⟨given, rfl, hgiven⟩ := h.of_map
  obtain ⟨found, others, rfl, hothers⟩ := Yields.of_ask_bind hgiven
  obtain ⟨-, hlater⟩ := List.forall_mem_cons.mp hcalm
  cases found with
  | none =>
      obtain ⟨rfl, rfl⟩ := hothers.of_pure
      exact ⟨[], .updateMissing⟩
  | some current =>
      rcases hothers.of_bind with
        ⟨failure, rfl, hcallback⟩ | ⟨made, nested, rest, rfl, hcallback, hrest⟩
      · obtain ⟨outcomes, hnested, hraised⟩ := callback_of_yields hcallback
        obtain ⟨efforts, hcourses⟩ := hinner _ _ hnested hlater
        cases hedit : edit current with
        | error raised =>
            rw [hedit] at hraised
            cases hraised
            exact ⟨efforts, .updateRaised hcourses hedit⟩
        | ok value =>
            rw [hedit] at hraised
            cases hraised
      · obtain ⟨hfirst, hlast⟩ := calm_append.mp hlater
        obtain ⟨outcomes, hnested, hmade⟩ := callback_of_yields hcallback
        obtain ⟨efforts, hcourses⟩ := hinner _ _ hnested hfirst
        cases hedit : edit current with
        | error raised =>
            rw [hedit] at hmade
            cases hmade
        | ok value =>
            rw [hedit] at hmade
            obtain rfl := Except.ok.inj hmade
            dsimp only at hrest
            rw [store.replace_eq key value current (some outcomes)] at hrest
            obtain ⟨saved, previous, rfl, hfinishes⟩ := finishes_set (fun _ => rfl) hrest hlast
            rw [answered_map]
            exact ⟨_, .updateDone hcourses hedit hfinishes⟩

theorem course_getOrInsertWith {make : Except Failure V} {outcome : Outcome K V β}
    (h : (store.perform (.getOrInsertWith key inner make)).Yields exchanges outcome)
    (hcalm : Calm exchanges) :
    ∃ efforts, store.Course (.getOrInsertWith key inner make) exchanges outcome efforts := by
  rw [perform_getOrInsertWith] at h
  obtain ⟨given, rfl, hgiven⟩ := h.of_map
  obtain ⟨found, others, rfl, hothers⟩ := Yields.of_ask_bind hgiven
  obtain ⟨-, hlater⟩ := List.forall_mem_cons.mp hcalm
  cases found with
  | some existing =>
      obtain ⟨rfl, rfl⟩ := hothers.of_pure
      exact ⟨[], .getOrInsertWithFound⟩
  | none =>
      rcases hothers.of_bind with
        ⟨failure, rfl, hcallback⟩ | ⟨made, nested, rest, rfl, hcallback, hrest⟩
      · obtain ⟨outcomes, hnested, hraised⟩ := callback_of_yields hcallback
        obtain ⟨efforts, hcourses⟩ := hinner _ _ hnested hlater
        cases make with
        | error raised =>
            cases hraised
            exact ⟨efforts, .getOrInsertWithRaised hcourses⟩
        | ok value => cases hraised
      · obtain ⟨hfirst, hlast⟩ := calm_append.mp hlater
        obtain ⟨outcomes, hnested, hmade⟩ := callback_of_yields hcallback
        obtain ⟨efforts, hcourses⟩ := hinner _ _ hnested hfirst
        cases make with
        | error raised => cases hmade
        | ok value =>
            obtain rfl := Except.ok.inj hmade
            dsimp only at hrest
            rw [store.fill_eq key value (value, some outcomes)] at hrest
            obtain ⟨saved, previous, rfl, hfinishes⟩ := finishes_set
              (fun previous => Event.isMutation_ofPut key previous value) hrest hlast
            rw [answered_map]
            exact ⟨_, .getOrInsertWithDone hcourses hfinishes⟩

end

theorem course_getOrInsert {key : K} {value : V} {outcome : Outcome K V β}
    (h : (store.perform (.getOrInsert key value) : Action K V ω (Answer K V β)).Yields exchanges
      outcome) (hcalm : Calm exchanges) : ∃ efforts,
    store.Course (.getOrInsert key value : Command K V ω β) exchanges outcome efforts := by
  rw [perform] at h
  obtain ⟨given, rfl, hgiven⟩ := h.of_map
  obtain ⟨found, others, rfl, hothers⟩ := Yields.of_ask_bind hgiven
  obtain ⟨-, hlater⟩ := List.forall_mem_cons.mp hcalm
  cases found with
  | some existing =>
      obtain ⟨rfl, rfl⟩ := hothers.of_pure
      exact ⟨[], .getOrInsertFound⟩
  | none =>
      dsimp only at hothers
      rw [store.fill_eq key value value] at hothers
      obtain ⟨saved, previous, rfl, hfinishes⟩ := finishes_set
        (fun previous => Event.isMutation_ofPut key previous value) hothers hlater
      rw [answered_map]
      exact ⟨_, .getOrInsertMissing hfinishes⟩

mutual

theorem course_of_yields {command : Command K V ω β} {exchanges : List (Exchange K V)}
    {outcome : Outcome K V β} (h : (store.perform command).Yields exchanges outcome)
    (hcalm : Calm exchanges) : ∃ efforts, store.Course command exchanges outcome efforts := by
  cases command with
  | insert key value =>
      rw [perform] at h
      obtain ⟨given, rfl, hgiven⟩ := h.of_map
      obtain ⟨saved, previous, rfl, hfinishes⟩ := finishes_insert hgiven hcalm
      rw [answered_map]
      exact ⟨_, .writes _ trivial hfinishes⟩
  | remove key =>
      rw [perform] at h
      obtain ⟨given, rfl, hgiven⟩ := h.of_map
      obtain ⟨saved, removed, rfl, hfinishes⟩ := finishes_remove hgiven hcalm
      rw [answered_map]
      exact ⟨_, .writes _ trivial hfinishes⟩
  | clear =>
      rw [perform] at h
      obtain ⟨given, rfl, hgiven⟩ := h.of_map
      obtain ⟨saved, rfl, hfinishes⟩ := finishes_clear hgiven hcalm
      rw [answered_map]
      exact ⟨_, .writes _ trivial hfinishes⟩
  | extend entries =>
      rw [perform] at h
      obtain ⟨given, rfl, hgiven⟩ := h.of_map
      obtain ⟨saved, rfl, hfinishes⟩ := finishes_extend hgiven hcalm
      rw [answered_map]
      exact ⟨_, .writes _ trivial hfinishes⟩
  | update key inner edit =>
      exact course_update (fun _ _ hnested hcalm => courses_of_yields hnested hcalm) h hcalm
  | getOrInsert key value => exact course_getOrInsert h hcalm
  | getOrInsertWith key inner make =>
      exact course_getOrInsertWith (fun _ _ hnested hcalm => courses_of_yields hnested hcalm) h
        hcalm
  | flush =>
      rw [perform] at h
      obtain ⟨given, rfl, hgiven⟩ := h.of_map
      obtain ⟨saved, hattempt, rfl⟩ := attempt_of_yields hgiven hcalm
      rw [answered_map]
      exact ⟨_, .flush hattempt⟩
  | aside act =>
      rw [perform] at h
      obtain ⟨given, rfl, hgiven⟩ := h.of_map
      obtain ⟨answer, rfl, hanswer⟩ := hgiven.of_ofRoutine
      obtain rfl := hgiven.of_aside
      exact ⟨[], .aside act answer⟩
  | _ => exact ⟨[], .reads trivial (Routine.Yields.forall_allowed h
      (store.returns_perform_of_reads leftByLooks_mute trivial))⟩

theorem courses_of_yields {commands : List (Command K V ω β)} {exchanges : List (Exchange K V)}
    {outcomes : List (Outcome K V β)} (h : (store.performAll commands).Yields exchanges outcomes)
    (hcalm : Calm exchanges) : ∃ efforts, store.Courses commands exchanges outcomes efforts := by
  cases commands with
  | nil =>
      rw [performAll_nil] at h
      obtain ⟨rfl, rfl⟩ := Routine.Yields.of_pure h
      exact ⟨[], .nil⟩
  | cons command rest =>
      rw [performAll_cons] at h
      obtain ⟨outcome, first, others, rfl, hfirst, hothers⟩ := Routine.Yields.of_bind h
      obtain ⟨later, rfl, hlater⟩ := hothers.of_map
      obtain ⟨hcalm, hcalmLater⟩ := calm_append.mp hcalm
      obtain ⟨efforts, hcourse⟩ := course_of_yields hfirst hcalm
      obtain ⟨more, hcourses⟩ := courses_of_yields hlater hcalmLater
      exact ⟨_, .cons hcourse hcourses⟩

end

end Store

end SnapshotStore
