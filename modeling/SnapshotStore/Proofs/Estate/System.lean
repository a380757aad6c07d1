import SnapshotStore.Proofs.Estate.Ownership
import SnapshotStore.Proofs.Trace

namespace SnapshotStore

variable {K V S σ : Type}

-- What is seen of a step.
inductive Act (K V : Type) where
  | opened (handle store : Nat) (worker : Option Nat)
  | moved (source : Nat)
  | assigned (target source : Nat)
  | closed (handle : Nat)
  | destroyed (handle : Nat)
  | stopRequested (worker : Nat)
  | served (store : Nat) (exchange : Exchange K V)
  | stepped (worker : Nat) (sign : Worker.Sign)
  | beside

-- What takes a handle's worker away.
inductive Act.GivesUp (handle : Nat) : Act K V → Prop where
  | closed : GivesUp handle (.closed handle)
  | destroyed : GivesUp handle (.destroyed handle)
  | assigned {source : Nat} : handle ≠ source → GivesUp handle (.assigned handle source)

namespace Estate

variable [DecidableEq K]

-- One step of those who have the handles, of those who share a store, or of a worker's thread. A
-- request may come from anyone, be it from an operation, from a callback within one or from the
-- flush of a worker, and others may come in between any two of them. A stop that is waited for
-- begins with a request, and in what follows the worker may do what it still has to do.
inductive Step : Estate K V S σ → Act K V → Estate K V S σ → Prop where
  | opened {now after : Estate K V S σ} {builder : Builder K V σ} {backend : Backend K V S}
      {serializer : Bool → Serializer K V} {handle store : Nat} {worker : Option Nat}
      (laws : backend.Laws) : now.openStore builder backend serializer = .ok (handle, after) →
      after.handle? handle = some ⟨some store, worker⟩ →
      Step now (.opened handle store worker) after
  | moved {now : Estate K V S σ} {source : Nat} {handle : Handle} :
      now.handle? source = some handle → Step now (.moved source) (now.move source).2
  | assigned {now : Estate K V S σ} {target source : Nat} {handle content : Handle} :
      now.handle? target = some handle → now.handle? source = some content →
      Step now (.assigned target source) (now.assign target source)
  | closed {now : Estate K V S σ} {position : Nat} {handle : Handle} :
      now.handle? position = some handle → Step now (.closed position) (now.close position)
  | destroyed {now : Estate K V S σ} {position : Nat} {handle : Handle} :
      now.handle? position = some handle → Step now (.destroyed position) (now.destroy position)
  | stopRequested {now : Estate K V S σ} {position worker : Nat} {store : Option Nat}
      {post : Post} : now.Holds position worker store → now.posts[worker]? = some post →
      Step now (.stopRequested worker) (now.requestStop worker post)
  | served {now : Estate K V S σ} {store : Nat} {cell : Cell K V S σ} {request : Request K V} :
      now.cells[store]? = some cell →
      (∀ segment, request = .wipe segment → segment < cell.store.backend.segments) →
      Step now (.served store ⟨request, (now.serve store cell request).1⟩)
        (now.serve store cell request).2
  | stepped {now : Estate K V S σ} {position : Nat} {post : Post} {worker : Worker}
      {channel : Nudge.Channel} (timeIsUp : Bool) : now.posts[position]? = some post →
      post.worker.step? (now.channelOf post.store) timeIsUp = some (worker, channel) →
      Step now (.stepped position (post.worker.sign (now.channelOf post.store)))
        ((now.setWorker position worker).setChannel post.store channel)
  | flushed {now : Estate K V S σ} {position : Nat} {post : Post}
      (outcome : Except Failure Unit) : now.posts[position]? = some post →
      post.worker.phase = .flushing →
      Step now (.stepped position (.flushEnded outcome.isOk))
        (now.setWorker position (post.worker.finish outcome))
  | beside (now : Estate K V S σ) (files : FileTree) (mishaps : Nat → Mishap) (desk : σ) :
      Step now .beside { now with files := files, mishaps := mishaps, desk := desk }

variable {now next after : Estate K V S σ} {act : Act K V} {position worker : Nat}
  {store : Option Nat}

theorem evolves_serve {cell : Cell K V S σ} {request : Request K V}
    (hcell : now.cells[position]? = some cell)
    (hwipe : ∀ segment, request = .wipe segment → segment < cell.store.backend.segments) :
    now.Evolves (now.serve position cell request).2 := by
  have hserve : (now.serve position cell request).2 = now.absorb position cell
      ((now.world cell).serve cell.store.setting request).2 := by
    simp [serve, hcell]
  obtain ⟨accepted, hchannel⟩ := World.serve_channel cell.store.setting request (now.world cell)
  rw [hserve]
  refine evolves_absorb hcell (fun hclosed => ?_) fun laws hvalid => ?_
  · rw [hchannel]
    exact hclosed
  · exact Store.valid_serve laws request hvalid hwipe

omit [DecidableEq K] in
theorem channelOf_setWorker (now : Estate K V S σ) (position : Nat) (worker : Worker)
    (store : Nat) : (now.setWorker position worker).channelOf store = now.channelOf store :=
  rfl

theorem evolves_step {post : Post} {worker : Worker} {channel : Nudge.Channel} {timeIsUp : Bool}
    (hpost : now.posts[position]? = some post)
    (hstep : post.worker.step? (now.channelOf post.store) timeIsUp = some (worker, channel)) :
    now.Evolves ((now.setWorker position worker).setChannel post.store channel) := by
  have hkeeps := (Worker.moves_of_step? hstep).keeps
  refine (evolves_setWorker hpost (becomes_of_keeps hkeeps)).trans (evolves_setChannel ?_)
  rw [channelOf_setWorker]
  exact hkeeps.closed.trans

theorem evolves_finish {post : Post} (hpost : now.posts[position]? = some post)
    (hphase : post.worker.phase = .flushing) (outcome : Except Failure Unit) :
    now.Evolves (now.setWorker position (post.worker.finish outcome)) := by
  refine evolves_setWorker hpost ⟨rfl, fun hstop => ?_, fun hexited => ?_⟩
  · exact (Worker.finish_stopRequested outcome).trans hstop
  · cases hphase.symm.trans hexited

theorem evolves_beside (now : Estate K V S σ) (files : FileTree) (mishaps : Nat → Mishap)
    (desk : σ) : now.Evolves { now with files := files, mishaps := mishaps, desk := desk } :=
  ⟨rfl, fun _ => rel_refl .refl _, fun _ => rel_refl .refl _⟩

omit [DecidableEq K] in
theorem opened_of_openStore {builder : Builder K V σ} {backend : Backend K V S}
    {serializer : Bool → Serializer K V} {handle : Nat}
    (h : now.openStore builder backend serializer = .ok (handle, after)) :
    handle = now.handles.length ∧
      ∃ entries, after = now.opened builder backend serializer entries := by
  rw [openStore_eq] at h
  cases hentries : builder.entries? (serializer builder.pretty) now.files with
  | error failure =>
      rw [hentries] at h
      cases h
  | ok entries =>
      rw [hentries] at h
      obtain ⟨rfl, rfl⟩ := Prod.mk.inj (Except.ok.inj h)
      exact ⟨rfl, entries, rfl⟩

-- No step takes away or undoes anything that there has been.
theorem Step.extends (h : Step now act after) : now.Extends after := by
  cases h with
  | opened laws hopen hhandle =>
      obtain ⟨-, entries, rfl⟩ := opened_of_openStore hopen
      exact extends_opened now
  | moved hlive => exact (hands_move hlive).extends
  | @assigned target source handle content htarget hsource =>
      by_cases hne : target = source
      · rw [assign, if_pos hne]
        exact .refl now
      · exact (now.extends_close target).trans (hands_assign hne htarget hsource).extends
  | closed hlive => exact now.extends_close _
  | destroyed hlive => exact extends_handles (now.extends_close _)
  | stopRequested hholds hpost => exact (evolves_requestStop hpost).extends
  | served hcell hwipe => exact (evolves_serve hcell hwipe).extends
  | stepped timeIsUp hpost hstep => exact (evolves_step hpost hstep).extends
  | flushed outcome hpost hphase => exact (evolves_finish hpost hphase outcome).extends
  | beside files mishaps desk => exact (now.evolves_beside files mishaps desk).extends

theorem Step.sound (h : Step now act after) (hsound : now.Sound) : after.Sound := by
  cases h with
  | opened laws hopen hhandle =>
      obtain ⟨-, entries, rfl⟩ := opened_of_openStore hopen
      exact hsound.opened laws
  | moved hlive => exact hsound.move hlive
  | assigned htarget hsource => exact hsound.assign htarget hsource
  | closed hlive => exact hsound.close _
  | destroyed hlive => exact hsound.destroy hlive
  | stopRequested hholds hpost => exact hsound.evolves (evolves_requestStop hpost)
  | served hcell hwipe => exact hsound.evolves (evolves_serve hcell hwipe)
  | stepped timeIsUp hpost hstep => exact hsound.evolves (evolves_step hpost hstep)
  | flushed outcome hpost hphase => exact hsound.evolves (evolves_finish hpost hphase outcome)
  | beside files mishaps desk => exact hsound.evolves (now.evolves_beside files mishaps desk)

-- What is so when a handle has been given up that held a worker.
structure Gone (now : Estate K V S σ) (worker store : Nat) : Prop where
  post : ∃ post, now.posts[worker]? = some post ∧ post.IsGone ∧ post.store = store
  cell : ∃ cell, now.cells[store]? = some cell ∧ cell.channel.closed = true

theorem Sound.gone_close {store : Option Nat} (h : now.Sound)
    (hholds : now.Holds position worker store) :
    ∃ known, store = some known ∧ (now.close position).Gone worker known := by
  obtain ⟨post, hpost, hgone, rfl, hcell⟩ := h.close_gone hholds
  exact ⟨post.store, rfl, ⟨post, hpost, hgone, rfl⟩, hcell⟩

omit [DecidableEq K] in
theorem Gone.handles {known : Nat} {handles : List (Option Handle)} (h : now.Gone worker known) :
    ({ now with handles := handles } : Estate K V S σ).Gone worker known :=
  ⟨h.post, h.cell⟩

theorem Step.gone {known : Nat} (h : Step now act after) (hsound : now.Sound)
    (hholds : now.Holds position worker (some known)) (hgives : act.GivesUp position) :
    after.Gone worker known := by
  obtain ⟨known', hknown, hgone⟩ := hsound.gone_close hholds
  obtain rfl := Option.some.inj hknown
  cases hgives with
  | closed =>
      cases h with
      | closed hlive => exact hgone
  | destroyed =>
      cases h with
      | destroyed hlive => exact hgone.handles
  | assigned hne =>
      cases h with
      | assigned htarget hsource =>
          rw [(hands_assign hne htarget hsource).same]
          exact hgone.handles

theorem Step.stays_gone {known : Nat} (h : Step now act after) (hgone : now.Gone worker known) :
    after.Gone worker known ∧ (∀ sign, act ≠ .stepped worker sign) ∧
      act ≠ .served known ⟨.nudge, true⟩ := by
  obtain ⟨⟨post, hpost, hisGone, hstore⟩, cell, hcell, hclosed⟩ := hgone
  obtain ⟨post', hpost', hposts⟩ := h.extends.post hpost
  obtain rfl := hposts.eq_of_gone hisGone
  obtain ⟨later, hlater, hcells⟩ := h.extends.cell hcell
  refine ⟨⟨⟨post', hpost', hisGone, hstore⟩, later, hlater, hcells.closed hclosed⟩, ?_, ?_⟩
  · rintro sign rfl
    cases h with
    | stepped timeIsUp hpost₂ hstep =>
        obtain rfl := Option.some.inj (hpost.symm.trans hpost₂)
        simp [Worker.step?, hisGone.2] at hstep
    | flushed outcome hpost₂ hphase =>
        obtain rfl := Option.some.inj (hpost.symm.trans hpost₂)
        cases hphase.symm.trans hisGone.2
  · intro hact
    cases h with
    | @served store cell₂ request hcell₂ hwipe =>
        obtain ⟨rfl, hexchange⟩ := Act.served.inj hact
        obtain rfl := Option.some.inj (hcell.symm.trans hcell₂)
        obtain ⟨rfl, hresponse⟩ := Exchange.mk.inj hexchange
        simp [serve, hcell, World.serve, world, Nudge.Channel.trySend_fst, hclosed] at hresponse
    | _ => cases hact

theorem gone_of_trace {known : Nat} {last : Estate K V S σ} {acts : List (Act K V)}
    (h : Trace Step now acts last) (hgone : now.Gone worker known) :
    last.Gone worker known ∧ (∀ sign, .stepped worker sign ∉ acts) ∧
      .served known ⟨.nudge, true⟩ ∉ acts := by
  have hlast := h.stable (fun _ _ _ hstep hgone => (hstep.stays_gone hgone).1) hgone
  have hacts := h.forall_mem (fun _ _ _ hstep hgone => hstep.stays_gone hgone) hgone
  exact ⟨hlast, fun sign hmem => (hacts _ hmem).1 sign rfl, fun hmem => (hacts _ hmem).2 rfl⟩

theorem posts_close (now : Estate K V S σ) (position other : Nat) :
    Option.Rel Post.Becomes now.posts[other]? (now.close position).posts[other]? := by
  rw [close]
  split
  · next store worker hhandle => exact (now.evolves_stopWorker worker).posts other
  · exact rel_refl .refl _

-- Only opening a store starts a worker.
theorem Step.posts (h : Step now act after)
    (hact : ∀ handle store worker, act ≠ .opened handle store worker) (position : Nat) :
    Option.Rel Post.Becomes now.posts[position]? after.posts[position]? := by
  cases h with
  | opened laws hopen hhandle => exact (hact _ _ _ rfl).elim
  | moved hlive => exact rel_refl .refl _
  | @assigned target source handle content htarget hsource =>
      by_cases hne : target = source
      · rw [assign, if_pos hne]
        exact rel_refl .refl _
      · rw [(hands_assign hne htarget hsource).same]
        exact now.posts_close target position
  | closed hlive => exact now.posts_close _ position
  | destroyed hlive => exact now.posts_close _ position
  | stopRequested hholds hpost => exact (evolves_requestStop hpost).posts position
  | served hcell hwipe => exact (evolves_serve hcell hwipe).posts position
  | stepped timeIsUp hpost hstep => exact (evolves_step hpost hstep).posts position
  | flushed outcome hpost hphase => exact (evolves_finish hpost hphase outcome).posts position
  | beside files mishaps desk => exact (now.evolves_beside files mishaps desk).posts position

def Saves (estate : Estate K V S σ) (worker store : Nat) : Prop :=
  ∃ post, estate.posts[worker]? = some post ∧ post.store = store

theorem saves_opened_iff {builder : Builder K V σ} {backend : Backend K V S}
    {serializer : Bool → Serializer K V} {entries : List (K × V)} {store known : Nat}
    {started : Option Nat}
    (hhandle : (now.opened builder backend serializer entries).handle? now.handles.length =
      some ⟨some known, started⟩) :
    (now.opened builder backend serializer entries).Saves worker store ↔ now.Saves worker store ∨
      ∃ handle, (.opened now.handles.length known started : Act K V) =
        .opened handle store (some worker) := by
  rw [handle?_push handles_opened, if_pos rfl] at hhandle
  cases hhandle
  constructor
  · rintro ⟨post, hpost, hstore⟩
    rcases post_of_opened hpost with hbefore | ⟨rfl, hbackground, hnew⟩
    · exact .inl ⟨post, hbefore, hstore⟩
    · exact .inr ⟨now.handles.length, by simp [Builder.freshWorker, hbackground, ← hstore, hnew]⟩
  · rintro (⟨post, hpost, hstore⟩ | ⟨handle, hopened⟩)
    · obtain ⟨later, hlater, hbecomes⟩ := (extends_opened now).post hpost
      exact ⟨later, hlater, hbecomes.store.trans hstore⟩
    · obtain ⟨-, rfl, hstarted⟩ := Act.opened.inj hopened
      cases hbackground : builder.policy.isBackground with
      | false => simp [Builder.freshWorker, hbackground] at hstarted
      | true =>
          obtain rfl : now.posts.length = worker := by
            simpa [Builder.freshWorker, hbackground] using hstarted
          exact ⟨_, post_opened hbackground, rfl⟩

theorem Step.saves_iff {store : Nat} (h : Step now act after) :
    after.Saves worker store ↔ now.Saves worker store ∨
      ∃ handle, act = .opened handle store (some worker) := by
  by_cases hact : ∀ handle store worker, act ≠ .opened handle store worker
  · have hposts := h.posts hact worker
    have hnone : ¬∃ handle, act = .opened handle store (some worker) :=
      fun ⟨handle, hopened⟩ => hact _ _ _ hopened
    rw [or_iff_left hnone]
    constructor
    · rintro ⟨later, hlater, hstore⟩
      obtain ⟨post, hpost, hbecomes⟩ := exists_of_rel_right hposts hlater
      exact ⟨post, hpost, hbecomes.store.symm.trans hstore⟩
    · rintro ⟨post, hpost, hstore⟩
      obtain ⟨later, hlater, hbecomes⟩ := exists_of_rel hposts hpost
      exact ⟨later, hlater, hbecomes.store.trans hstore⟩
  · push Not at hact
    obtain ⟨handle, known, started, rfl⟩ := hact
    cases h with
    | opened laws hopen hhandle =>
        obtain ⟨rfl, entries, rfl⟩ := opened_of_openStore hopen
        exact saves_opened_iff hhandle

theorem sound_of_trace {start last : Estate K V S σ} {acts : List (Act K V)}
    (h : Trace Step start acts last) (hstart : start.Sound) : last.Sound :=
  h.stable (fun _ _ _ hstep => hstep.sound) hstart

theorem extends_of_trace {start last : Estate K V S σ} {acts : List (Act K V)}
    (h : Trace Step start acts last) : start.Extends last := by
  have hstep : ∀ now act after, Step now act after → start.Extends now → start.Extends after :=
    fun _ _ _ hstep hextends => hextends.trans hstep.extends
  exact h.stable hstep (.refl start)

-- The workers are those that have come with a store, and each of them saves the store that it has
-- come with.
theorem saves_iff_of_trace {start last : Estate K V S σ} {acts : List (Act K V)} {store : Nat}
    (hstart : start.posts = []) (h : Trace Step start acts last) :
    last.Saves worker store ↔ ∃ handle, .opened handle store (some worker) ∈ acts := by
  induction h with
  | start => simp [Saves, hstart]
  | next _ hstep ih =>
      rw [hstep.saves_iff, ih]
      simp only [List.mem_append, List.mem_singleton, exists_or, eq_comm]

end Estate

end SnapshotStore
