import SnapshotStore.Proofs.Backend.Views
import SnapshotStore.Proofs.Threads.Lock

namespace SnapshotStore

variable {K V S σ α : Type}

def Persistence.Stage.IsOpen : Persistence.Stage → Prop
  | .opened _ _ => True
  | .synced _ => True
  | .spoiled _ => True
  | _ => False

-- Since a time the thread has not written to the map, and the views were taken since then.
structure Recent (thread : Nat) (moves : List (Move K V S)) (start : Nat) (views : List S) :
    Prop where
  start_le : start ≤ moves.length
  quiet : ∀ move ∈ moves.drop start, move.thread = thread → move.exchange.writes = false
  seen : ∀ view ∈ views, ∃ move ∈ moves.drop start, move.map = view

namespace Recent

variable {thread start : Nat} {moves : List (Move K V S)} {move : Move K V S} {views : List S}

theorem now (hmove : move.exchange.writes = false) :
    Recent thread (moves ++ [move]) moves.length [] := by
  refine ⟨by simp, ?_, by simp⟩
  intro m hm _
  rw [List.drop_left, List.mem_singleton] at hm
  rw [hm, hmove]

theorem append (h : Recent thread moves start views)
    (hmove : move.thread = thread → move.exchange.writes = false) :
    Recent thread (moves ++ [move]) start views := by
  refine ⟨?_, ?_, ?_⟩
  · have := h.start_le
    simp
    omega
  · rw [List.drop_append_of_le_length h.start_le]
    intro m hm
    rw [List.mem_append, List.mem_singleton] at hm
    rcases hm with hold | rfl
    · exact h.quiet m hold
    · exact hmove
  · rw [List.drop_append_of_le_length h.start_le]
    intro view hview
    obtain ⟨m, hm, hmap⟩ := h.seen view hview
    exact ⟨m, List.mem_append_left _ hm, hmap⟩

theorem view (h : Recent thread moves start views) (hmove : move.exchange.writes = false) :
    Recent thread (moves ++ [move]) start (views ++ [move.map]) := by
  have happend := h.append fun _ : move.thread = thread => hmove
  refine ⟨happend.start_le, happend.quiet, fun view hview => ?_⟩
  rw [List.mem_append, List.mem_singleton] at hview
  rcases hview with hold | rfl
  · exact happend.seen view hold
  · refine ⟨move, ?_, rfl⟩
    rw [List.drop_append_of_le_length h.start_le]
    exact List.mem_append_right _ (List.mem_singleton_self move)

theorem firstView (hmove : move.exchange.writes = false) :
    Recent thread (moves ++ [move]) moves.length [move.map] := by
  have hnow : Recent thread (moves ++ [move]) moves.length [] := now hmove
  refine ⟨hnow.start_le, hnow.quiet, fun view hview => ⟨move, ?_, ?_⟩⟩
  · rw [List.drop_left]
    exact List.mem_singleton_self move
  · exact (List.mem_singleton.mp hview).symm

end Recent

-- What an attempt of a thread has come to in each phase.
def Attempt.Fits (setting : Setting K V S σ) (thread : Nat) (moves : List (Move K V S))
    (attempt : Attempt S) : Store.Phase K V → Prop
  | .outside => attempt.writing = false
  | .copying count copied => attempt.writing = false ∧ attempt.views.length = count ∧
    copied = setting.backend.assemble attempt.views ∧
    Recent thread moves attempt.start attempt.views
  | .replacing copied bytes stage => (attempt.writing = true → stage.IsOpen) ∧
    attempt.views.length = setting.backend.segments ∧
    copied = setting.backend.assemble attempt.views ∧
    setting.serializer.serialize copied = .ok bytes ∧
    Recent thread moves attempt.start attempt.views
  | .unencoded => attempt.writing = false

theorem Attempt.Fits.append {setting : Setting K V S σ} {thread : Nat}
    {moves : List (Move K V S)} {attempt : Attempt S} {phase : Store.Phase K V}
    (h : attempt.Fits setting thread moves phase) {move : Move K V S}
    (hmove : move.thread = thread → move.exchange.writes = false) :
    attempt.Fits setting thread (moves ++ [move]) phase := by
  cases phase with
  | outside => exact h
  | copying count copied => exact ⟨h.1, h.2.1, h.2.2.1, h.2.2.2.append hmove⟩
  | replacing copied bytes stage =>
      exact ⟨h.1, h.2.1, h.2.2.1, h.2.2.2.1, h.2.2.2.2.append hmove⟩
  | unencoded => exact h

-- What belongs to a save lies within the moves from its start to its end. If nobody has written to
-- the map meanwhile, it shows the map as it was at the end.
structure Save.Sound (segments : Nat) (moves : List (Move K V S)) (save : Save S) : Prop where
  start_le : save.start ≤ save.stop
  stop_lt : save.stop < moves.length
  length : save.views.length = segments
  recent : Recent save.thread (moves.take save.stop) save.start save.views
  steady : (∀ move ∈ (moves.take save.stop).drop save.start, move.exchange.writes = false) →
    ∀ view ∈ save.views, view = save.map

theorem Save.Sound.append {segments : Nat} {moves : List (Move K V S)} {save : Save S}
    (h : save.Sound segments moves) (move : Move K V S) :
    save.Sound segments (moves ++ [move]) := by
  have htake : (moves ++ [move]).take save.stop = moves.take save.stop :=
    List.take_append_of_le_length (Nat.le_of_lt h.stop_lt)
  refine ⟨h.start_le, ?_, h.length, ?_, ?_⟩
  · have := h.stop_lt
    simp
    omega
  · rw [htake]
    exact h.recent
  · rw [htake]
    exact h.steady

theorem Save.Sound.view_mem {segments : Nat} {moves : List (Move K V S)} {save : Save S}
    (h : save.Sound segments moves) {view : S} (hview : view ∈ save.views) :
    ∃ move ∈ moves.drop save.start, move.map = view := by
  obtain ⟨move, hmove, hmap⟩ := h.recent.seen view hview
  have hsublist := (List.take_sublist save.stop moves).drop save.start
  exact ⟨move, hsublist.subset hmove, hmap⟩

namespace Threads

open Store (Turn)

variable {setting : Setting K V S σ} {path : Path} {start threads : Threads K V S σ α}
  {moves : List (Move K V S)}

def AttemptsFit (setting : Setting K V S σ) (moves : List (Move K V S)) (_ : World S σ) : Prop :=
  ∀ thread, ((Ledger.of moves).attempts thread).Fits setting thread moves
    (Move.phase thread moves)

theorem writes_of_stage {bytes : Bytes} {stage next : Persistence.Stage} {exchange : Exchange K V}
    (h : Persistence.Turn path bytes stage exchange next) : exchange.writes = false := by
  cases h <;> rfl

-- An attempt that replaces the file copies nothing more.
theorem note_of_stage {bytes : Bytes} {stage next : Persistence.Stage} {exchange : Exchange K V}
    (h : Persistence.Turn path bytes stage exchange next) {attempt : Attempt S}
    (hopen : attempt.writing = true → stage.IsOpen) (clock thread : Nat) (map : S) :
    (attempt.note clock ⟨thread, exchange, map⟩).start = attempt.start ∧
    (attempt.note clock ⟨thread, exchange, map⟩).views = attempt.views ∧
    ((attempt.note clock ⟨thread, exchange, map⟩).writing = true → next.IsOpen) := by
  cases h with
  | refuses reason => exact ⟨rfl, rfl, hopen⟩
  | renames location => exact ⟨rfl, rfl, fun h => by cases h⟩
  | discards location => exact ⟨rfl, rfl, fun h => by cases h⟩
  | _ => exact ⟨rfl, rfl, fun _ => trivial⟩

-- The step of the thread itself.
theorem fits_step {thread : Nat} {world after : World S σ} {request : Request K V}
    {response : request.Response} {attempt : Attempt S} {phase next : Store.Phase K V}
    (hfits : attempt.Fits setting thread moves phase)
    (hserve : world.serve setting request = (response, after))
    (hturn : Turn setting.backend.segments path phase ⟨request, response⟩ next) :
    (attempt.note moves.length ⟨thread, ⟨request, response⟩, after.map⟩).Fits setting thread
      (moves ++ [⟨thread, ⟨request, response⟩, after.map⟩]) next := by
  cases hturn with
  | plain response hplain =>
      cases request <;> first | exact hplain.elim | exact hfits
  | acquires =>
      exact ⟨rfl, rfl, rfl, .now rfl⟩
  | @copies count copied entries hcount =>
      obtain ⟨hwriting, hlength, hcopied, hrecent⟩ := hfits
      obtain ⟨hentries, hafter⟩ := Prod.mk.inj hserve
      have hcopy : entries = setting.backend.copy count after.map := by rw [← hafter, ← hentries]
      refine ⟨hwriting, ?_, ?_, ?_⟩
      · simp [Attempt.note, hlength]
      · simp only [Attempt.note]
        rw [Backend.assemble_append, hlength, ← hcopied, ← hcopy]
      · simp only [Attempt.note]
        split
        · rename_i hempty
          rw [List.isEmpty_iff.mp hempty]
          exact .firstView rfl
        · exact hrecent.view rfl
  | encodes copied bytes =>
      obtain ⟨hwriting, hlength, hcopied, hrecent⟩ := hfits
      have hbytes : setting.serializer.serialize copied = .ok bytes := by
        have hresponse := (Prod.mk.inj hserve).1
        simp only [World.serialize] at hresponse
        split at hresponse
        · cases hresponse
        · exact hresponse
      refine ⟨fun h => ?_, hlength, hcopied, hbytes, hrecent.append fun _ => rfl⟩
      exact absurd (hwriting.symm.trans h) (by simp)
  | encodeFails copied failure => exact hfits.1
  | replaces copied hstage =>
      obtain ⟨hwriting, hlength, hcopied, hbytes, hrecent⟩ := hfits
      obtain ⟨hstart, hviews, hopen⟩ :=
        note_of_stage hstage hwriting moves.length thread after.map
      refine ⟨hopen, ?_, ?_, hbytes, ?_⟩
      · rw [hviews]
        exact hlength
      · rw [hviews]
        exact hcopied
      · rw [hstart, hviews]
        exact hrecent.append fun _ => writes_of_stage hstage
  | releases hclosing =>
      cases phase with
      | replacing copied bytes stage =>
          have hwriting : attempt.writing = true → stage.IsOpen := hfits.1
          rcases hclosing with rfl | rfl | rfl
          · exact Bool.eq_false_iff.mpr hwriting
          · exact Bool.eq_false_iff.mpr hwriting
          · exact Bool.eq_false_iff.mpr hwriting
      | unencoded => exact hfits
      | _ => exact hclosing.elim

theorem Run.attemptsFit (hkeep : start.Keep setting path) (h : Run setting start moves threads) :
    AttemptsFit setting moves threads.world := by
  refine h.keeps_invariant (AttemptsFit setting) hkeep (fun _ => rfl) ?_ ?_
  · intro moves threads thread request response after _ hinv _ hserve hturn i
    by_cases hthread : thread = i
    · subst hthread
      rw [Ledger.attempts_append_self moves ⟨thread, ⟨request, response⟩, after.map⟩,
        Move.phase_append_self]
      exact fits_step (hinv thread) hserve hturn
    · rw [Ledger.attempts_append_other moves hthread, Move.phase_append_other moves hthread]
      exact (hinv i).append fun hsame => absurd hsame hthread
  · exact fun moves before after hinv _ => hinv

-- At most one thread has the temporary file open.
theorem Run.writing_unique (hkeep : start.Keep setting path) (h : Run setting start moves threads)
    {first second : Nat} (hfirst : ((Ledger.of moves).attempts first).writing = true)
    (hsecond : ((Ledger.of moves).attempts second).writing = true) : first = second := by
  have hinside : ∀ thread, ((Ledger.of moves).attempts thread).writing = true →
      Move.phase thread moves ≠ .outside := by
    intro thread hwriting houtside
    have hfits := h.attemptsFit hkeep thread
    rw [houtside] at hfits
    cases hwriting.symm.trans hfits
  by_contra hne
  have hothers := (h.excludes hkeep first (hinside first hfirst)).2 second (Ne.symm hne)
  exact hinside second hsecond hothers

-- The phases of an attempt that may still become a save.
def IsPending : Store.Phase K V → Prop
  | .copying _ _ => True
  | .replacing _ _ stage => stage ≠ .replaced
  | _ => False

structure SavesSound (setting : Setting K V S σ) (moves : List (Move K V S)) (_ : World S σ) :
    Prop where
  sound : ∀ save ∈ (Ledger.of moves).saves, save.Sound setting.backend.segments moves
  ordered : (Ledger.of moves).saves.Pairwise fun newer older => older.stop < newer.start
  pending : ∀ thread, IsPending (Move.phase thread moves) →
    ∀ save ∈ (Ledger.of moves).saves, save.stop < ((Ledger.of moves).attempts thread).start

-- A move that ends no save and begins no attempt before its time.
theorem SavesSound.append {world after : World S σ} {thread : Nat} {exchange : Exchange K V}
    {map : S} (h : SavesSound setting moves world) (hrenames : exchange.renames = false)
    (hpending : IsPending (Move.phase thread (moves ++ [⟨thread, exchange, map⟩])) →
      IsPending (Move.phase thread moves) ∧ ((Ledger.of moves).attempts thread).start ≤
        (((Ledger.of moves).attempts thread).note moves.length ⟨thread, exchange, map⟩).start ∨
      moves.length =
        (((Ledger.of moves).attempts thread).note moves.length ⟨thread, exchange, map⟩).start) :
    SavesSound setting (moves ++ [⟨thread, exchange, map⟩]) after := by
  have hsaves : (Ledger.of (moves ++ [⟨thread, exchange, map⟩])).saves = (Ledger.of moves).saves :=
    Ledger.saves_append moves hrenames
  refine ⟨?_, ?_, ?_⟩
  · rw [hsaves]
    exact fun save hsave => (h.sound save hsave).append _
  · rw [hsaves]
    exact h.ordered
  · intro i hi save hsave
    rw [hsaves] at hsave
    by_cases hthread : thread = i
    · subst hthread
      rw [Ledger.attempts_append_self moves ⟨thread, exchange, map⟩]
      rcases hpending hi with ⟨hbefore, hle⟩ | hnow
      · exact Nat.lt_of_lt_of_le (h.pending thread hbefore save hsave) hle
      · rw [← hnow]
        exact (h.sound save hsave).stop_lt
    · rw [Move.phase_append_other moves hthread] at hi
      rw [Ledger.attempts_append_other moves hthread]
      exact h.pending i hi save hsave

-- The move by which the file is replaced.
theorem SavesSound.of_renames {world after : World S σ} {thread : Nat} {exchange : Exchange K V}
    {copied : List (K × V)} {bytes : Bytes} {stage : Persistence.Stage}
    (h : SavesSound setting moves world) (hrenames : exchange.renames = true)
    (hexcludes : ∀ other, other ≠ thread → Move.phase other moves = .outside)
    (hbefore : Move.phase thread moves = .replacing copied bytes stage)
    (hstage : stage ≠ .replaced)
    (hphase : Move.phase thread (moves ++ [⟨thread, exchange, world.map⟩]) =
      .replacing copied bytes .replaced)
    (hfits : ((Ledger.of moves).attempts thread).Fits setting thread moves
      (.replacing copied bytes stage)) (hsteady : Steady moves world) :
    SavesSound setting (moves ++ [⟨thread, exchange, world.map⟩]) after := by
  obtain ⟨-, hlength, -, -, hrecent⟩ := hfits
  have hpending := h.pending thread (by rw [hbefore]; exact hstage)
  have hsaves := Ledger.saves_append_of_renames moves ⟨thread, exchange, world.map⟩ hrenames
  refine ⟨?_, ?_, ?_⟩
  · rw [hsaves, List.forall_mem_cons]
    refine ⟨⟨hrecent.start_le, by simp, hlength, ?_, ?_⟩,
      fun save hsave => (h.sound save hsave).append _⟩
    · rw [List.take_left' rfl]
      exact hrecent
    · rw [List.take_left' rfl]
      intro hquiet view hview
      obtain ⟨move, hmove, rfl⟩ := hrecent.seen view hview
      exact hsteady _ hquiet move hmove
  · rw [hsaves, List.pairwise_cons]
    exact ⟨hpending, h.ordered⟩
  · intro i hi
    by_cases hthread : thread = i
    · subst hthread
      rw [hphase] at hi
      exact absurd rfl hi
    · rw [Move.phase_append_other moves hthread, hexcludes i (Ne.symm hthread)] at hi
      exact hi.elim

theorem Run.savesSound (hkeep : start.Keep setting path) (h : Run setting start moves threads) :
    SavesSound setting moves threads.world := by
  refine h.keeps_invariant (SavesSound setting) hkeep
    ⟨by simp [Ledger.of, Ledger.empty], by simp [Ledger.of, Ledger.empty],
      by simp [Ledger.of, Ledger.empty]⟩ ?_ ?_
  · intro moves threads thread request response after hrun hinv _ hserve hturn
    have hphase := Move.phase_append_self moves thread ⟨request, response⟩ after.map
    have hfits := hrun.attemptsFit hkeep thread
    have hexcludes := hrun.excludes hkeep thread
    have hpending := hinv.pending thread
    generalize hbefore : Move.phase thread moves = phase at hturn hphase hfits hexcludes hpending
    generalize phase.after request response = next at hturn hphase
    cases hturn with
    | plain response hplain =>
        refine hinv.append ?_ fun hnext => ?_
        · cases request <;> first | exact hplain.elim | rfl
        · rw [hphase] at hnext
          exact hnext.elim
    | acquires => exact hinv.append rfl fun _ => .inr rfl
    | copies copied entries hcount =>
        refine hinv.append rfl fun _ => ?_
        simp only [Attempt.note]
        split
        · exact .inr rfl
        · exact .inl ⟨by rw [hbefore]; trivial, Nat.le_refl _⟩
    | encodes copied bytes =>
        exact hinv.append rfl fun _ => .inl ⟨by rw [hbefore]; trivial, Nat.le_refl _⟩
    | encodeFails copied failure =>
        refine hinv.append rfl fun hnext => ?_
        rw [hphase] at hnext
        exact hnext.elim
    | releases hclosing =>
        refine hinv.append rfl fun hnext => ?_
        rw [hphase] at hnext
        exact hnext.elim
    | @replaces copied bytes stage next _ hstage =>
        have hopen : stage ≠ .replaced := by
          rintro rfl
          cases hstage
        cases hrenames : Exchange.renames ⟨request, response⟩ with
        | true =>
            obtain rfl := hstage.eq_replaced_iff.mpr (.inr hrenames)
            have hmap := map_of_serve hserve (writes_of_stage hstage)
            rw [hmap] at hphase ⊢
            exact hinv.of_renames hrenames (hexcludes (by simp)).2 hbefore hopen hphase hfits
              (hrun.steady hkeep)
        | false =>
            obtain ⟨hstart, -, -⟩ := note_of_stage hstage hfits.1 moves.length thread after.map
            exact hinv.append hrenames fun _ =>
              .inl ⟨by rw [hbefore]; exact hopen, Nat.le_of_eq hstart.symm⟩
  · exact fun moves before after hinv _ => ⟨hinv.sound, hinv.ordered, hinv.pending⟩

end Threads

end SnapshotStore
