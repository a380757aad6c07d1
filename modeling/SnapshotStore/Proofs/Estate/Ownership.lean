import Mathlib.Logic.Equiv.Basic
import SnapshotStore.Proofs.Estate.Evolution
import SnapshotStore.Proofs.Estate.Opening

namespace SnapshotStore.Estate

variable {K V S σ : Type}

def Holds (estate : Estate K V S σ) (position worker : Nat) (store : Option Nat) : Prop :=
  estate.handle? position = some ⟨store, some worker⟩

variable {estate before after : Estate K V S σ} {position other source target worker : Nat}
  {store : Option Nat} {handle : Handle}

theorem lt_of_handle? (h : estate.handle? position = some handle) :
    position < estate.handles.length := by
  by_contra hge
  simp [handle?, List.getElem?_eq_none (Nat.not_lt.mp hge)] at h

theorem handle?_setHandle_self (h : estate.handle? position = some handle)
    (content : Option Handle) : (estate.setHandle position content).handle? position = content := by
  simp [handle?, setHandle, List.getElem?_set_self (lt_of_handle? h)]

theorem handle?_setHandle_ne (hne : other ≠ position) (content : Option Handle) :
    (estate.setHandle position content).handle? other = estate.handle? other := by
  simp [handle?, setHandle, List.getElem?_set_ne (Ne.symm hne)]

theorem handle?_congr (h : after.handles = before.handles) (position : Nat) :
    after.handle? position = before.handle? position := by
  rw [handle?, h, handle?]

theorem handle?_length (estate : Estate K V S σ) : estate.handle? estate.handles.length = none := by
  simp [handle?]

theorem handle?_push {content : Option Handle}
    (h : after.handles = before.handles ++ [content]) (position : Nat) :
    after.handle? position =
      if position = before.handles.length then content else before.handle? position := by
  rw [handle?, h, handle?, List.getElem?_append]
  rcases Nat.lt_trichotomy position before.handles.length with hlt | rfl | hgt
  · simp [hlt, Nat.ne_of_lt hlt]
  · simp
  · simp [Nat.not_lt_of_gt hgt, Nat.ne_of_gt hgt, Nat.sub_ne_zero_of_lt hgt]

-- A handle has taken over what another one had.
structure Hands (before : Estate K V S σ) (source target : Nat) (after : Estate K V S σ) :
    Prop where
  taken : after.handle? target = before.handle? source
  emptied : after.handle? source = some ⟨none, none⟩
  others (position : Nat) : position ≠ source → position ≠ target →
    after.handle? position = before.handle? position
  same : after = { before with handles := after.handles }

theorem Hands.holds_iff (h : before.Hands source target after)
    (hfree : ∀ worker store, ¬before.Holds target worker store) :
    after.Holds position worker store ↔
      before.Holds (Equiv.swap source target position) worker store := by
  unfold Holds
  by_cases hsource : position = source
  · subst hsource
    rw [Equiv.swap_apply_left, h.emptied]
    exact iff_of_false (by simp) (hfree worker store)
  by_cases htarget : position = target
  · subst htarget
    rw [Equiv.swap_apply_right, h.taken]
  · rw [Equiv.swap_apply_of_ne_of_ne hsource htarget, h.others position hsource htarget]

theorem hands_move (hlive : estate.handle? source = some handle) :
    estate.Hands source estate.handles.length (estate.move source).2 := by
  have hlt := lt_of_handle? hlive
  have hlength : (estate.setHandle source (some ⟨none, none⟩)).handles.length =
      estate.handles.length := List.length_set ..
  have hhandles : (estate.move source).2.handles =
    (estate.setHandle source (some ⟨none, none⟩)).handles ++ [_] := rfl
  have hpush := handle?_push hhandles
  rw [hlength] at hpush
  refine ⟨?_, ?_, fun position hsource htarget => ?_, rfl⟩
  · rw [hpush, if_pos rfl, hlive]
    rfl
  · rw [hpush, if_neg (Nat.ne_of_lt hlt)]
    exact handle?_setHandle_self hlive _
  · rw [hpush, if_neg htarget]
    exact handle?_setHandle_ne hsource _

variable {builder : Builder K V σ} {backend : Backend K V S} {serializer : Bool → Serializer K V}
  {entries : List (K × V)}

theorem handles_opened : (estate.opened builder backend serializer entries).handles =
    estate.handles ++
      [some ⟨some estate.cells.length, builder.freshWorker.map fun _ => estate.posts.length⟩] :=
  rfl

theorem holds_opened_iff : (estate.opened builder backend serializer entries).Holds position worker
    store ↔ estate.Holds position worker store ∨ position = estate.handles.length ∧
      builder.policy.isBackground = true ∧ worker = estate.posts.length ∧
      store = some estate.cells.length := by
  unfold Holds
  rw [handle?_push handles_opened]
  by_cases hlast : position = estate.handles.length
  · subst hlast
    rw [if_pos rfl, handle?_length, Builder.freshWorker]
    cases builder.policy.isBackground <;> simp [eq_comm, and_comm]
  · simp [hlast]

theorem cells_opened : (estate.opened builder backend serializer entries).cells =
    estate.cells ++ [{
      store := builder.freshStore backend (serializer builder.pretty)
      map := backend.load entries }] :=
  rfl

theorem cell_opened :
    (estate.opened builder backend serializer entries).cells[estate.cells.length]? = some {
      store := builder.freshStore backend (serializer builder.pretty)
      map := backend.load entries } :=
  List.getElem?_concat_length

theorem posts_opened : (estate.opened builder backend serializer entries).posts =
    estate.posts ++ (builder.freshWorker.map fun worker => ⟨worker, estate.cells.length⟩).toList :=
  rfl

-- The worker of a fresh store, if there is one.
theorem post_opened (hbackground : builder.policy.isBackground = true) :
    (estate.opened builder backend serializer entries).posts[estate.posts.length]? =
      some ⟨{ interval := builder.policy.interval, ownsChannel := false },
        estate.cells.length⟩ := by
  simp [posts_opened, Builder.freshWorker, hbackground]

theorem post_of_opened {post : Post}
    (h : (estate.opened builder backend serializer entries).posts[worker]? = some post) :
    estate.posts[worker]? = some post ∨ worker = estate.posts.length ∧
      builder.policy.isBackground = true ∧ post.store = estate.cells.length := by
  rw [posts_opened, List.getElem?_append] at h
  split at h
  · exact .inl h
  · next hge =>
      have hmem := List.mem_of_getElem? h
      cases hbackground : builder.policy.isBackground with
      | false => simp [Builder.freshWorker, hbackground] at hmem
      | true =>
          have hlt := (List.getElem?_eq_some_iff.mp h).1
          simp only [Builder.freshWorker, hbackground, if_true, Option.map_some, Option.toList_some,
            List.mem_singleton, List.length_singleton] at hmem hlt
          exact .inr ⟨by omega, rfl, congrArg Post.store hmem⟩

theorem close_of_holds (h : estate.Holds position worker store) :
    estate.close position =
      (estate.stopWorker worker).setHandle position (some ⟨store, none⟩) := by
  rw [Holds] at h
  rw [close, h]

theorem close_of_free (h : ∀ worker store, ¬estate.Holds position worker store) :
    estate.close position = estate := by
  rw [close]
  split
  · next store worker hhandle => exact (h worker store hhandle).elim
  · rfl

section

variable [DecidableEq K]

theorem handle?_close (h : estate.handle? position = some handle) :
    (estate.close position).handle? position = some ⟨handle.store, none⟩ := by
  obtain ⟨store, _ | worker⟩ := handle
  · rw [close_of_free, h]
    intro worker store hholds
    cases h.symm.trans hholds
  · rw [close_of_holds h]
    exact handle?_setHandle_self
      ((handle?_congr (estate.evolves_stopWorker worker).handles position).trans h) _

theorem handle?_close_ne (hne : other ≠ position) :
    (estate.close position).handle? other = estate.handle? other := by
  by_cases hfree : ∀ worker store, ¬estate.Holds position worker store
  · rw [close_of_free hfree]
  · push Not at hfree
    obtain ⟨worker, store, hholds⟩ := hfree
    rw [close_of_holds hholds, handle?_setHandle_ne hne]
    exact handle?_congr (estate.evolves_stopWorker worker).handles other

theorem not_holds_close (estate : Estate K V S σ) (position worker : Nat) (store : Option Nat) :
    ¬(estate.close position).Holds position worker store := by
  intro hholds
  cases hhandle : estate.handle? position with
  | none =>
      rw [close_of_free] at hholds
      · cases hhandle.symm.trans hholds
      · intro worker store hholds
        cases hhandle.symm.trans hholds
  | some handle => cases (handle?_close hhandle).symm.trans hholds

-- Once it has been closed, there is nothing left to close.
theorem close_close (estate : Estate K V S σ) (position : Nat) :
    (estate.close position).close position = estate.close position :=
  close_of_free (estate.not_holds_close position)

-- The worker of the target is gone before the target is given another store.
theorem hands_assign {content : Handle} (hne : target ≠ source)
    (htarget : estate.handle? target = some handle)
    (hsource : estate.handle? source = some content) :
    (estate.close target).Hands source target (estate.assign target source) := by
  have hclosed : (estate.close target).handle? target = some ⟨handle.store, none⟩ :=
    handle?_close htarget
  have hkept : (estate.close target).handle? source = some content :=
    (handle?_close_ne (Ne.symm hne)).trans hsource
  simp only [assign, if_neg hne, hkept, Option.getD_some]
  refine ⟨?_, ?_, fun position hsource htarget => ?_, rfl⟩
  · rw [handle?_setHandle_ne hne, handle?_setHandle_self hclosed, hkept]
  · exact handle?_setHandle_self ((handle?_setHandle_ne (Ne.symm hne) _).trans hkept) _
  · rw [handle?_setHandle_ne hsource, handle?_setHandle_ne htarget]

-- What is there stays where it is, and nothing is undone.
structure Extends (before after : Estate K V S σ) : Prop where
  cell {position : Nat} {cell : Cell K V S σ} : before.cells[position]? = some cell →
    ∃ later, after.cells[position]? = some later ∧ cell.Becomes later
  post {position : Nat} {post : Post} : before.posts[position]? = some post →
    ∃ later, after.posts[position]? = some later ∧ post.Becomes later

theorem Extends.refl (estate : Estate K V S σ) : estate.Extends estate :=
  ⟨fun h => ⟨_, h, .refl _⟩, fun h => ⟨_, h, .refl _⟩⟩

theorem Extends.trans {middle : Estate K V S σ} (h : before.Extends middle)
    (h' : middle.Extends after) : before.Extends after := by
  refine ⟨fun hcell => ?_, fun hpost => ?_⟩
  · obtain ⟨cell, hcell, hfirst⟩ := h.cell hcell
    obtain ⟨later, hlater, hsecond⟩ := h'.cell hcell
    exact ⟨later, hlater, hfirst.trans hsecond⟩
  · obtain ⟨post, hpost, hfirst⟩ := h.post hpost
    obtain ⟨later, hlater, hsecond⟩ := h'.post hpost
    exact ⟨later, hlater, hfirst.trans hsecond⟩

theorem Evolves.extends (h : before.Evolves after) : before.Extends after :=
  ⟨h.cell, h.post⟩

theorem extends_handles {handles : List (Option Handle)} (h : before.Extends after) :
    before.Extends { after with handles := handles } :=
  ⟨h.cell, h.post⟩

theorem extends_close (estate : Estate K V S σ) (position : Nat) :
    estate.Extends (estate.close position) := by
  rw [close]
  split
  · next store worker hhandle => exact extends_handles (estate.evolves_stopWorker worker).extends
  · exact .refl estate

theorem Hands.extends (h : before.Hands source target after) : before.Extends after := by
  rw [h.same]
  exact extends_handles (.refl before)

theorem extends_opened (estate : Estate K V S σ) :
    estate.Extends (estate.opened builder backend serializer entries) := by
  refine ⟨fun {position} cell hcell => ⟨cell, ?_, .refl cell⟩,
    fun {position} post hpost => ⟨post, ?_, .refl post⟩⟩
  · rw [cells_opened, List.getElem?_append_left (List.getElem?_eq_some_iff.mp hcell).1, hcell]
  · rw [posts_opened, List.getElem?_append_left (List.getElem?_eq_some_iff.mp hpost).1, hpost]

structure Sound (estate : Estate K V S σ) : Prop where
  -- a handle keeps the store that its worker saves
  owner {position worker : Nat} {store : Option Nat} : estate.Holds position worker store →
    ∃ post, estate.posts[worker]? = some post ∧ store = some post.store
  unique {position other worker : Nat} {store store' : Option Nat} :
    estate.Holds position worker store → estate.Holds other worker store' → position = other
  owned {worker : Nat} {post : Post} : estate.posts[worker]? = some post →
    post.IsGone ∨ ∃ position store, estate.Holds position worker store
  -- no store has two workers
  single {worker worker' : Nat} {post post' : Post} : estate.posts[worker]? = some post →
    estate.posts[worker']? = some post' → post.store = post'.store → worker = worker'
  background {worker : Nat} {post : Post} : estate.posts[worker]? = some post →
    ∃ cell, estate.cells[post.store]? = some cell ∧ cell.store.policy.isBackground = true
  valid {position : Nat} {cell : Cell K V S σ} : estate.cells[position]? = some cell →
    ∃ laws : cell.store.backend.Laws, laws.Valid cell.map

theorem sound_empty (files : FileTree) (mishaps : Nat → Mishap) (desk : σ) :
    (⟨files, mishaps, desk, [], [], []⟩ : Estate K V S σ).Sound := by
  constructor <;> simp [Holds, handle?]

namespace Sound

theorem evolves (h : before.Sound) (hevolves : before.Evolves after) : after.Sound := by
  have hholds : ∀ {position worker store}, after.Holds position worker store →
      before.Holds position worker store := fun hholds =>
    (handle?_congr hevolves.handles _).symm.trans hholds
  constructor
  case owner =>
    intro position worker store hafter
    obtain ⟨post, hpost, hstore⟩ := h.owner (hholds hafter)
    obtain ⟨later, hlater, hbecomes⟩ := hevolves.post hpost
    exact ⟨later, hlater, hbecomes.store ▸ hstore⟩
  case unique =>
    exact fun hafter hafter' => h.unique (hholds hafter) (hholds hafter')
  case owned =>
    intro worker later hlater
    obtain ⟨post, hpost, hbecomes⟩ := hevolves.post_before hlater
    rcases h.owned hpost with hgone | ⟨position, store, hbefore⟩
    · exact .inl (hbecomes.eq_of_gone hgone ▸ hgone)
    · exact .inr ⟨position, store, (handle?_congr hevolves.handles _).trans hbefore⟩
  case single =>
    intro worker worker' later later' hlater hlater' hsame
    obtain ⟨post, hpost, hbecomes⟩ := hevolves.post_before hlater
    obtain ⟨post', hpost', hbecomes'⟩ := hevolves.post_before hlater'
    exact h.single hpost hpost' (hbecomes.store.symm.trans (hsame.trans hbecomes'.store))
  case background =>
    intro worker later hlater
    obtain ⟨post, hpost, hbecomes⟩ := hevolves.post_before hlater
    obtain ⟨cell, hcell, hbackground⟩ := h.background hpost
    obtain ⟨cell', hcell', hcells⟩ := hevolves.cell hcell
    exact ⟨cell', hbecomes.store ▸ hcell', hcells.store ▸ hbackground⟩
  case valid =>
    intro position later hlater
    obtain ⟨cell, hcell, hbecomes⟩ := hevolves.cell_before hlater
    obtain ⟨laws, hvalid⟩ := h.valid hcell
    obtain ⟨store, map, channel, saving, saves⟩ := later
    obtain rfl : store = cell.store := hbecomes.store
    exact ⟨laws, hbecomes.valid laws hvalid⟩

-- A handle may let go of a worker that is gone.
theorem release (h : estate.Sound) (hlive : estate.handle? position = some handle)
    {content : Option Handle} (hempty : ∀ worker store, content ≠ some ⟨store, some worker⟩)
    (hgone : ∀ worker store, estate.Holds position worker store →
      ∃ post, estate.posts[worker]? = some post ∧ post.IsGone) :
    (estate.setHandle position content).Sound := by
  have hholds : ∀ {other worker store},
      (estate.setHandle position content).Holds other worker store →
        estate.Holds other worker store := by
    intro other worker store hafter
    by_cases hsame : other = position
    · subst hsame
      exact (hempty worker store ((handle?_setHandle_self hlive content).symm.trans hafter)).elim
    · exact (handle?_setHandle_ne hsame content).symm.trans hafter
  refine ⟨fun hafter => h.owner (hholds hafter),
    fun hafter hafter' => h.unique (hholds hafter) (hholds hafter'), fun hpost => ?_,
    h.single, h.background, h.valid⟩
  rcases h.owned hpost with hgone | ⟨other, store, hbefore⟩
  · exact .inl hgone
  by_cases hsame : other = position
  · subst hsame
    obtain ⟨post', hpost', hgone⟩ := hgone _ _ hbefore
    obtain rfl := Option.some.inj (hpost.symm.trans hpost')
    exact .inl hgone
  · exact .inr ⟨other, store, (handle?_setHandle_ne hsame content).trans hbefore⟩

-- What becomes of the worker that a handle holds when the handle is closed.
theorem close_gone (h : estate.Sound) (hholds : estate.Holds position worker store) :
    ∃ post, (estate.close position).posts[worker]? = some post ∧ post.IsGone ∧
      store = some post.store ∧ ∃ cell, (estate.close position).cells[post.store]? = some cell ∧
        cell.channel.closed = true := by
  obtain ⟨post, hpost, rfl⟩ := h.owner hholds
  obtain ⟨cell, hcell, -⟩ := h.background hpost
  obtain ⟨⟨gone, hgone, hisGone, hstore⟩, hclosed⟩ := stopWorker_gone hpost hcell
  rw [close_of_holds hholds]
  rw [← hstore] at hclosed
  exact ⟨gone, hgone, hisGone, congrArg some hstore.symm, hclosed⟩

theorem close (h : estate.Sound) (position : Nat) : (estate.close position).Sound := by
  by_cases hfree : ∀ worker store, ¬estate.Holds position worker store
  · rwa [close_of_free hfree]
  · push Not at hfree
    obtain ⟨worker, store, hholds⟩ := hfree
    obtain ⟨gone, hgone, hisGone, -⟩ := h.close_gone hholds
    rw [close_of_holds hholds] at hgone ⊢
    have hsame := handle?_congr (estate.evolves_stopWorker worker).handles position
    refine (h.evolves (estate.evolves_stopWorker worker)).release (hsame.trans hholds)
      (fun worker store => by simp) fun worker' store' hholds' => ?_
    cases hholds.symm.trans (hsame.symm.trans hholds')
    exact ⟨gone, hgone, hisGone⟩

theorem destroy (h : estate.Sound) (hlive : estate.handle? position = some handle) :
    (estate.destroy position).Sound :=
  (h.close position).release (handle?_close hlive) (fun worker store => by simp)
    fun worker store hholds => (not_holds_close _ _ _ _ hholds).elim

end Sound

theorem Hands.sound (h : before.Hands source target after) (hsound : before.Sound)
    (hfree : ∀ worker store, ¬before.Holds target worker store) : after.Sound := by
  have hcells : after.cells = before.cells := by rw [h.same]
  have hposts : after.posts = before.posts := by rw [h.same]
  refine ⟨fun hafter => ?_, fun hafter hafter' => ?_, fun hpost => ?_,
    fun hpost hpost' => hsound.single (hposts ▸ hpost) (hposts ▸ hpost'), fun hpost => ?_,
    fun hcell => hsound.valid (hcells ▸ hcell)⟩
  · rw [hposts]
    exact hsound.owner ((h.holds_iff hfree).mp hafter)
  · exact (Equiv.swap source target).injective
      (hsound.unique ((h.holds_iff hfree).mp hafter) ((h.holds_iff hfree).mp hafter'))
  · rcases hsound.owned (hposts ▸ hpost) with hgone | ⟨position, store, hbefore⟩
    · exact .inl hgone
    · refine .inr ⟨Equiv.swap source target position, store, (h.holds_iff hfree).mpr ?_⟩
      rwa [Equiv.swap_apply_self]
  · rw [hcells]
    exact hsound.background (hposts ▸ hpost)

namespace Sound

theorem move (h : estate.Sound) (hlive : estate.handle? source = some handle) :
    (estate.move source).2.Sound := by
  refine (hands_move hlive).sound h fun worker store hholds => ?_
  cases estate.handle?_length.symm.trans hholds

theorem assign {content : Handle} (h : estate.Sound)
    (htarget : estate.handle? target = some handle)
    (hsource : estate.handle? source = some content) : (estate.assign target source).Sound := by
  by_cases hne : target = source
  · rwa [Estate.assign, if_pos hne]
  · exact (hands_assign hne htarget hsource).sound (h.close target)
      (estate.not_holds_close target)

end Sound

namespace Sound

theorem not_holds_fresh (h : estate.Sound) (position : Nat) (store : Option Nat) :
    ¬estate.Holds position estate.posts.length store := by
  intro hholds
  obtain ⟨post, hpost, -⟩ := h.owner hholds
  exact (List.getElem?_eq_some_iff.mp hpost).1.ne rfl

theorem store_ne_fresh (h : estate.Sound) {post : Post}
    (hpost : estate.posts[worker]? = some post) : post.store ≠ estate.cells.length := by
  obtain ⟨cell, hcell, -⟩ := h.background hpost
  exact (List.getElem?_eq_some_iff.mp hcell).1.ne

theorem opened (h : estate.Sound) (laws : backend.Laws) :
    (estate.opened builder backend serializer entries).Sound := by
  have hextends : estate.Extends (estate.opened builder backend serializer entries) :=
    extends_opened estate
  constructor
  case owner =>
    intro position worker store hholds
    rcases holds_opened_iff.mp hholds with hbefore | ⟨-, hbackground, rfl, rfl⟩
    · obtain ⟨post, hpost, hstore⟩ := h.owner hbefore
      obtain ⟨later, hlater, hbecomes⟩ := hextends.post hpost
      exact ⟨later, hlater, hbecomes.store ▸ hstore⟩
    · exact ⟨_, post_opened hbackground, rfl⟩
  case unique =>
    intro position other worker store store' hholds hholds'
    rcases holds_opened_iff.mp hholds with hbefore | ⟨rfl, -, rfl, -⟩
    · rcases holds_opened_iff.mp hholds' with hbefore' | ⟨-, -, rfl, -⟩
      · exact h.unique hbefore hbefore'
      · exact (h.not_holds_fresh position store hbefore).elim
    · rcases holds_opened_iff.mp hholds' with hbefore' | ⟨hother, -⟩
      · exact (h.not_holds_fresh other store' hbefore').elim
      · exact hother.symm
  case owned =>
    intro worker post hpost
    rcases post_of_opened hpost with hbefore | ⟨rfl, hbackground, -⟩
    · rcases h.owned hbefore with hgone | ⟨position, store, hholds⟩
      · exact .inl hgone
      · exact .inr ⟨position, store, holds_opened_iff.mpr (.inl hholds)⟩
    · exact .inr ⟨_, _, holds_opened_iff.mpr (.inr ⟨rfl, hbackground, rfl, rfl⟩)⟩
  case single =>
    intro worker worker' post post' hpost hpost' hsame
    rcases post_of_opened hpost with hbefore | ⟨rfl, -, hstore⟩
    · rcases post_of_opened hpost' with hbefore' | ⟨rfl, -, hstore'⟩
      · exact h.single hbefore hbefore' hsame
      · exact (h.store_ne_fresh hbefore (hsame.trans hstore')).elim
    · rcases post_of_opened hpost' with hbefore' | ⟨rfl, -, -⟩
      · exact (h.store_ne_fresh hbefore' (hsame.symm.trans hstore)).elim
      · rfl
  case background =>
    intro worker post hpost
    rcases post_of_opened hpost with hbefore | ⟨rfl, hbackground, hstore⟩
    · obtain ⟨cell, hcell, hbackground⟩ := h.background hbefore
      obtain ⟨later, hlater, hbecomes⟩ := hextends.cell hcell
      exact ⟨later, hlater, hbecomes.store ▸ hbackground⟩
    · exact ⟨_, hstore ▸ cell_opened, hbackground⟩
  case valid =>
    intro position cell hcell
    rw [cells_opened, List.getElem?_append] at hcell
    split at hcell
    · exact h.valid hcell
    · obtain rfl := List.mem_singleton.mp (List.mem_of_getElem? hcell)
      exact ⟨laws, laws.valid_load entries⟩

end Sound

end

end SnapshotStore.Estate
