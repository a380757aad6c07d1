import SnapshotStore.Proofs.Backend.Laws
import SnapshotStore.Proofs.Store.Commands
import SnapshotStore.Proofs.Threads.Ledger

namespace SnapshotStore.Threads

open Store (Turn)

variable {K V S σ α : Type} {setting : Setting K V S σ} {path : Path}
  {start threads : Threads K V S σ α} {moves : List (Move K V S)}

def Keep (setting : Setting K V S σ) (path : Path) (start : Threads K V S σ α) : Prop :=
  ∀ routine ∈ start.routines, routine.Stays setting.backend.segments path

-- What has to be shown of something to hold at every moment of a run of such threads.
theorem Run.keeps_invariant (Inv : List (Move K V S) → World S σ → Prop)
    (hkeep : start.Keep setting path) (hstart : Inv [] start.world)
    (hserve : ∀ moves (threads : Threads K V S σ α) thread request response after,
      Run setting start moves threads → Inv moves threads.world →
      request.isBlocked threads.world = false →
      threads.world.serve setting request = (response, after) →
      Turn setting.backend.segments path (Move.phase thread moves) ⟨request, response⟩
        ((Move.phase thread moves).after request response) →
      Inv (moves ++ [⟨thread, ⟨request, response⟩, after.map⟩]) after)
    (hbeside : ∀ moves before after, Inv moves before → World.Untouched before after →
      Inv moves after)
    (h : Run setting start moves threads) : Inv moves threads.world := by
  refine h.invariant hkeep hstart ?_ hbeside
  intro moves threads thread request hrun hinv hblocked hallows
  exact hserve moves threads thread request _ _ hrun hinv hblocked rfl
    (Store.Phase.Allows.turn hallows _)

theorem map_of_serve {world after : World S σ} {request : Request K V}
    {response : request.Response} (hserve : world.serve setting request = (response, after))
    (hwrites : Exchange.writes ⟨request, response⟩ = false) : after.map = world.map := by
  have hmap := World.serve_map setting request world
  rw [hserve] at hmap
  exact hmap hwrites

theorem saving_of_serve {world after : World S σ} {request : Request K V}
    {response : request.Response} (hserve : world.serve setting request = (response, after))
    (hacquire : request ≠ .acquire) (hrelease : request ≠ .release) :
    after.saving = world.saving := by
  have hsaving := World.serve_saving setting request world hacquire hrelease
  rwa [hserve] at hsaving

-- Who is in a save has the lock, and all others are outside of saves.
def Excludes (moves : List (Move K V S)) (world : World S σ) : Prop :=
  ∀ thread, Move.phase thread moves ≠ .outside → world.saving = true ∧
    ∀ other, other ≠ thread → Move.phase other moves = .outside

theorem Excludes.of_same {world after : World S σ} {thread : Nat} {exchange : Exchange K V}
    {map : S} (h : Excludes moves world) (hsaving : after.saving = world.saving)
    (hphase : Move.phase thread (moves ++ [⟨thread, exchange, map⟩]) ≠ .outside →
      Move.phase thread moves ≠ .outside) :
    Excludes (moves ++ [⟨thread, exchange, map⟩]) after := by
  intro i hi
  have hbefore : Move.phase i moves ≠ .outside := by
    by_cases hthread : thread = i
    · subst hthread
      exact hphase hi
    · rwa [Move.phase_append_other moves hthread] at hi
  obtain ⟨hlocked, hothers⟩ := h i hbefore
  refine ⟨hsaving.trans hlocked, fun j hj => ?_⟩
  by_cases hthread : thread = j
  · subst hthread
    by_contra hinside
    exact hphase hinside (hothers thread hj)
  · rw [Move.phase_append_other moves hthread]
    exact hothers j hj

theorem Excludes.of_acquire {world after : World S σ} {thread : Nat} {exchange : Exchange K V}
    {map : S} (h : Excludes moves world) (hfree : world.saving = false)
    (hlocked : after.saving = true) :
    Excludes (moves ++ [⟨thread, exchange, map⟩]) after := by
  have hall : ∀ i, Move.phase i moves = .outside := by
    intro i
    by_contra hinside
    have htaken := (h i hinside).1
    rw [hfree] at htaken
    cases htaken
  intro i hi
  have hthread : thread = i := by
    by_contra hother
    rw [Move.phase_append_other moves hother] at hi
    exact hi (hall i)
  refine ⟨hlocked, fun j hj => ?_⟩
  rw [Move.phase_append_other moves fun hj' => hj (hj'.symm.trans hthread)]
  exact hall j

-- The thread that releases the lock was the only one in a save.
theorem Excludes.of_release {world after : World S σ} {thread : Nat} {exchange : Exchange K V}
    {map : S} (h : Excludes moves world) (hinside : Move.phase thread moves ≠ .outside)
    (houtside : Move.phase thread (moves ++ [⟨thread, exchange, map⟩]) = .outside) :
    Excludes (moves ++ [⟨thread, exchange, map⟩]) after := by
  obtain ⟨-, hothers⟩ := h thread hinside
  intro i hi
  by_cases hthread : thread = i
  · subst hthread
    exact absurd houtside hi
  · rw [Move.phase_append_other moves hthread] at hi
    exact absurd (hothers i (Ne.symm hthread)) hi

theorem Run.excludes (hkeep : start.Keep setting path) (h : Run setting start moves threads) :
    Excludes moves threads.world := by
  refine h.keeps_invariant Excludes hkeep (fun thread hthread => absurd rfl hthread) ?_ ?_
  · intro moves threads thread request response after _ hinv hblocked hserve hturn
    have hphase := Move.phase_append_self moves thread ⟨request, response⟩ after.map
    generalize hbefore : Move.phase thread moves = phase at hturn hphase
    generalize phase.after request response = next at hturn hphase
    cases hturn with
    | plain response hplain =>
        refine hinv.of_same (saving_of_serve hserve ?_ ?_) fun hinside => absurd hphase hinside
        · rintro rfl
          exact hplain
        · rintro rfl
          exact hplain
    | acquires =>
        obtain ⟨-, rfl⟩ := Prod.mk.inj hserve
        exact hinv.of_acquire hblocked rfl
    | copies copied entries hcount =>
        exact hinv.of_same (saving_of_serve hserve (by simp) (by simp))
          fun _ => by simp [hbefore]
    | encodes copied bytes =>
        exact hinv.of_same (saving_of_serve hserve (by simp) (by simp))
          fun _ => by simp [hbefore]
    | encodeFails copied failure =>
        exact hinv.of_same (saving_of_serve hserve (by simp) (by simp))
          fun _ => by simp [hbefore]
    | replaces copied hstage =>
        refine hinv.of_same (saving_of_serve hserve ?_ ?_) fun _ => by simp [hbefore]
        · rintro rfl
          cases hstage
        · rintro rfl
          cases hstage
    | releases hclosing =>
        refine hinv.of_release ?_ hphase
        rintro houtside
        rw [← hbefore, houtside] at hclosing
        exact hclosing
  · intro moves before after hinv huntouched thread hthread
    rw [huntouched.saving]
    exact hinv thread hthread

-- The map is what it was at every move since the last one that wrote to it.
def Steady (moves : List (Move K V S)) (world : World S σ) : Prop :=
  ∀ n, (∀ move ∈ moves.drop n, move.exchange.writes = false) →
    ∀ move ∈ moves.drop n, move.map = world.map

theorem Run.steady (hkeep : start.Keep setting path) (h : Run setting start moves threads) :
    Steady moves threads.world := by
  refine h.keeps_invariant Steady hkeep ?_ ?_ ?_
  · intro n _ move hmove
    simp at hmove
  · intro moves threads thread request response after _ hinv _ hserve _ n hquiet move hmove
    by_cases hn : n ≤ moves.length
    · rw [List.drop_append_of_le_length hn] at hquiet hmove
      rw [List.mem_append] at hmove
      rcases hmove with hold | hnew
      · have hlast := hquiet _ (List.mem_append_right _ (List.mem_singleton_self _))
        rw [map_of_serve hserve hlast]
        exact hinv n (fun move hmove => hquiet move (List.mem_append_left _ hmove)) move hold
      · rw [List.mem_singleton.mp hnew]
    · rw [List.drop_eq_nil_of_le (by simp; omega)] at hmove
      cases hmove
  · intro moves before after hinv huntouched n hquiet move hmove
    rw [huntouched.map]
    exact hinv n hquiet move hmove

def AllValid [DecidableEq K] (laws : setting.backend.Laws) (moves : List (Move K V S))
    (world : World S σ) : Prop :=
  laws.Valid world.map ∧ ∀ move ∈ moves, laws.Valid move.map

theorem valid_serve [DecidableEq K] (laws : setting.backend.Laws) {world : World S σ}
    (request : Request K V) (hvalid : laws.Valid world.map)
    (hwipe : ∀ segment, request = .wipe segment → segment < setting.backend.segments) :
    laws.Valid (world.serve setting request).2.map := by
  cases request with
  | insert key value => exact laws.valid_insert key value hvalid
  | remove key => exact laws.valid_remove key hvalid
  | wipe segment =>
      simp only [World.serve, World.wipe]
      split
      · rename_i bulk hbulk
        exact laws.valid_wipe hbulk hvalid (hwipe segment rfl)
      · exact hvalid
  | _ =>
      rw [World.serve_map setting _ world rfl]
      exact hvalid

theorem Run.allValid [DecidableEq K] (laws : setting.backend.Laws)
    (hkeep : start.Keep setting path) (hstart : laws.Valid start.world.map)
    (h : Run setting start moves threads) : AllValid laws moves threads.world := by
  refine h.keeps_invariant (AllValid laws) hkeep ⟨hstart, by simp⟩ ?_ ?_
  · intro moves threads thread request response after _ hinv _ hserve hturn
    have hafter : laws.Valid after.map := by
      have hvalid := valid_serve laws request hinv.1 ?_
      · rwa [hserve] at hvalid
      · rintro segment rfl
        generalize Move.phase thread moves = phase at hturn
        generalize phase.after (Request.wipe segment) response = next at hturn
        cases hturn with
        | plain response hplain => exact hplain
        | replaces copied hstage => cases hstage
    refine ⟨hafter, fun move hmove => ?_⟩
    rw [List.mem_append, List.mem_singleton] at hmove
    rcases hmove with hold | rfl
    · exact hinv.2 move hold
    · exact hafter
  · intro moves before after hinv huntouched
    rw [AllValid, huntouched.map]
    exact hinv

end SnapshotStore.Threads
