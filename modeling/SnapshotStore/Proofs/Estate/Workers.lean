import SnapshotStore.Proofs.Estate.Turns
import SnapshotStore.Proofs.Store.Concurrent
import SnapshotStore.Proofs.Store.SavedFile

namespace SnapshotStore.Estate

variable {K V S σ : Type} {estate : Estate K V S σ} {cell : Cell K V S σ} {worker store : Nat}

theorem perform_eq (hcell : estate.cells[store]? = some cell) {α : Type}
    (routine : Routine K V (World S σ) α) :
    estate.perform store routine =
      some ((routine.run (World.serve cell.store.setting) (estate.world cell)).1,
        estate.absorb store cell
          (routine.run (World.serve cell.store.setting) (estate.world cell)).2) := by
  simp [perform, hcell]

section

variable [DecidableEq K]

-- Changes go on as ever, no nudge is accepted, and what fails is the callback.
def StillChanges (estate : Estate K V S σ) (store : Nat) (cell : Cell K V S σ) : Prop :=
  (∀ listener ∈ cell.store.listeners, listener.NeverFails) →
  ∀ {β : Type} (command : Command K V (World S σ) β), command.Changes → command.Respects →
    ∃ outcome after changed,
      estate.perform store (cell.store.perform command).run = some (outcome, after) ∧
      after.cells[store]? = some changed ∧ changed.store = cell.store ∧
      cell.store.backend.bindings changed.map =
        command.effect (cell.store.backend.bindings cell.map) ∧
      outcome.map (fun _ => ()) = command.ending (cell.store.backend.bindings cell.map) ∧
      ((cell.store.perform command).run.exchanges (World.serve cell.store.setting)
        (estate.world cell)).all Exchange.isMuted = true

theorem Gone.stillChanges (h : estate.Gone worker store) (hsound : estate.Sound)
    (hcell : estate.cells[store]? = some cell) : estate.StillChanges store cell := by
  obtain ⟨⟨post, hpost, -, rfl⟩, cell', hcell', hclosed⟩ := h
  obtain rfl := Option.some.inj (hcell.symm.trans hcell')
  obtain ⟨cell', hcell', hbackground⟩ := hsound.background hpost
  obtain rfl := Option.some.inj (hcell.symm.trans hcell')
  obtain ⟨laws, hvalid⟩ := hsound.valid hcell
  intro hlisteners β command hchanges hrespects
  obtain ⟨milliseconds, hpolicy⟩ : ∃ milliseconds,
      cell.store.policy = .background milliseconds := by
    revert hbackground
    cases cell.store.policy <;> simp [FlushPolicy.isBackground, FlushPolicy.kind]
  have hshut : Store.Shut laws (cell.store.backend.bindings cell.map) (estate.world cell) :=
    ⟨hvalid, rfl, hclosed⟩
  obtain ⟨hmuted, bindings, hafter, heffect, hending⟩ :=
    Store.fares_perform hlisteners hpolicy command hrespects hshut
  exact ⟨_, _, _, perform_eq hcell _, cells_absorb hcell _, rfl,
    hafter.bindings.trans heffect, hending hchanges, hmuted⟩

end

-- A flush comes to what a save by itself would, and puts the entries of the map into the file.
def StillSaves (estate : Estate K V S σ) (store : Nat) (cell : Cell K V S σ) : Prop :=
  ∀ written saved, (cell.store.persistence.saveFrom cell.store.backend).exec
      (World.serve cell.store.setting) (estate.world cell) = (.ok written, saved) →
    ∃ outcome after bytes, estate.perform store cell.store.flush.run = some (outcome, after) ∧
      after.files = saved.files ∧
      cell.store.persistence.serializer.serialize (cell.store.backend.snapshot cell.map) =
        .ok bytes ∧
      (estate.files.Clear cell.store.path →
        (∃ entry, estate.files.entryOf cell.store.path = .ok entry ∧
          after.files.node? entry = some (.file bytes)) ∧
        (¬estate.files.LeadsOverItself cell.store.path →
          after.files.look cell.store.path = .ok (some (.file bytes)))) ∧
      ((∀ listener ∈ cell.store.listeners, listener.NeverFails) → outcome = .ok ())

theorem stillSaves (hcell : estate.cells[store]? = some cell) : estate.StillSaves store cell := by
  intro written saved hsave
  have hfitsSave := @Persistence.fits_saveFrom K V S σ cell.store.setting
  obtain ⟨bytes, hbytes, hfits⟩ := hfitsSave hsave
  obtain ⟨hfiles, houtcome⟩ := Store.exec_flush_of_save hsave
  refine ⟨_, _, bytes, perform_eq hcell _, hfiles, hbytes, fun hclear => ⟨?_, fun hopen => ?_⟩,
    houtcome⟩
  · obtain ⟨entry, hentry, hnode⟩ := (hfits hclear).node?_replaced
    refine ⟨entry, hentry, ?_⟩
    rw [← hfiles] at hnode
    exact hnode
  · have hlook := (hfits hclear).look_replaced hclear hopen
    rw [← hfiles] at hlook
    exact hlook

variable [DecidableEq K]

theorem Sound.held_or_gone {post : Post} (h : estate.Sound)
    (hpost : estate.posts[worker]? = some post) :
    (∃ position, estate.Holds position worker (some post.store) ∧
      ∀ other store, estate.Holds other worker store → other = position) ∨
    post.IsGone ∧ ∀ position store, ¬estate.Holds position worker store := by
  by_cases hheld : ∃ position store, estate.Holds position worker store
  · obtain ⟨position, store, hholds⟩ := hheld
    obtain ⟨post', hpost', rfl⟩ := h.owner hholds
    obtain rfl := Option.some.inj (hpost.symm.trans hpost')
    exact .inl ⟨position, hholds, fun other store' hother => h.unique hother hholds⟩
  · refine .inr ⟨(h.owned hpost).resolve_right hheld, fun position store hholds => ?_⟩
    exact hheld ⟨position, store, hholds⟩

-- Anything that happens from the time when nothing has been opened.
theorem workers_have_one_owner {files : FileTree} {mishaps : Nat → Mishap} {desk : σ}
    {acts : List (Act K V)} {last : Estate K V S σ}
    (h : Trace Step ⟨files, mishaps, desk, [], [], []⟩ acts last) :
    -- a worker that has been started with a store
    (∀ first store worker, .opened first store (some worker) ∈ acts →
      ∃ post, last.posts[worker]? = some post ∧ post.store = store ∧
        ((∃ position, last.Holds position worker (some store) ∧
            ∀ other store', last.Holds other worker store' → other = position) ∨
          post.IsGone ∧ ∀ position store', ¬last.Holds position worker store')) ∧
    (∀ first first' store worker worker', .opened first store (some worker) ∈ acts →
      .opened first' store (some worker') ∈ acts → worker = worker') ∧
    -- a handle that has a worker
    (∀ position worker store, last.Holds position worker store →
      ∃ first known cell, .opened first known (some worker) ∈ acts ∧ store = some known ∧
        last.cells[known]? = some cell ∧ cell.store.policy.isBackground = true) ∧
    (∀ position, (last.close position).close position = last.close position) ∧
    -- the worker of the target is gone while the target still has its store
    (∀ position, last.assign position position = last) ∧
    (∀ target source handle content, target ≠ source → last.handle? target = some handle →
      last.handle? source = some content →
      (∀ worker store, last.Holds target worker (some store) →
        (last.close target).Gone worker store) ∧
      (last.close target).handle? target = some ⟨handle.store, none⟩ ∧
      (last.close target).Hands source target (last.assign target source)) ∧
    -- a handle that is given up, and whatever happens after that
    (∀ position worker store act next later final, last.Holds position worker (some store) →
      act.GivesUp position → Step last act next → Trace Step next later final →
      (∀ sign, .stepped worker sign ∉ later) ∧ .served store ⟨.nudge, true⟩ ∉ later ∧
      ∃ post cell, next.posts[worker]? = some post ∧ final.posts[worker]? = some post ∧
        post.IsGone ∧ final.cells[store]? = some cell ∧ final.StillChanges store cell ∧
        final.StillSaves store cell) := by
  have hsound : last.Sound := sound_of_trace h (sound_empty files mishaps desk)
  have hsaves : ∀ {worker store}, last.Saves worker store ↔ _ := saves_iff_of_trace rfl h
  refine ⟨?_, ?_, ?_, last.close_close, ?_, ?_, ?_⟩
  · intro first store worker hopened
    obtain ⟨post, hpost, rfl⟩ := hsaves.mpr ⟨first, hopened⟩
    exact ⟨post, hpost, rfl, hsound.held_or_gone hpost⟩
  · intro first first' store worker worker' hopened hopened'
    obtain ⟨post, hpost, hstore⟩ := hsaves.mpr ⟨first, hopened⟩
    obtain ⟨post', hpost', hstore'⟩ := hsaves.mpr ⟨first', hopened'⟩
    exact hsound.single hpost hpost' (hstore.trans hstore'.symm)
  · intro position worker store hholds
    obtain ⟨post, hpost, rfl⟩ := hsound.owner hholds
    obtain ⟨cell, hcell, hbackground⟩ := hsound.background hpost
    obtain ⟨first, hopened⟩ := hsaves.mp ⟨post, hpost, rfl⟩
    exact ⟨first, post.store, cell, hopened, rfl, hcell, hbackground⟩
  · exact fun position => if_pos rfl
  · intro target source handle content hne htarget hsource
    refine ⟨fun worker store hholds => ?_, handle?_close htarget, hands_assign hne htarget hsource⟩
    obtain ⟨known, hknown, hgone⟩ := hsound.gone_close hholds
    exact Option.some.inj hknown ▸ hgone
  · intro position worker store act next later final hholds hgives hstep hlater
    have hnext := hstep.gone hsound hholds hgives
    obtain ⟨hfinal, hstepped, hserved⟩ := gone_of_trace hlater hnext
    have hsoundFinal := sound_of_trace hlater (hstep.sound hsound)
    obtain ⟨post, hpost, hgone, rfl⟩ := hnext.post
    obtain ⟨post', hpost', hbecomes⟩ := (extends_of_trace hlater).post hpost
    obtain rfl := hbecomes.eq_of_gone hgone
    obtain ⟨cell, hcell, -⟩ := hfinal.cell
    exact ⟨hstepped, hserved, post', cell, hpost, hpost', hgone, hcell,
      hfinal.stillChanges hsoundFinal hcell, stillSaves hcell⟩

-- Two stores that are saved in the background.
abbrev Twin := Estate UInt8 UInt8 (Shards UInt8 UInt8 2 1) Unit

def everyMinute (path : Path) : Builder UInt8 UInt8 Unit :=
  { path := path, policy := .background 60000 }

def vacant : Twin where
  files := ⟨.ofEntries [], [], []⟩
  mishaps _ := .none
  desk := ()

def firstOpened : Twin :=
  vacant.opened (everyMinute ⟨"a"⟩) Store.twoShards.backend (fun _ => .pairs) []

def bothOpened : Twin :=
  firstOpened.opened (everyMinute ⟨"b"⟩) Store.twoShards.backend (fun _ => .pairs) []

-- The second handle is assigned over the first one.
def passedOn : Twin :=
  bothOpened.settle.assign 0 1

def firstStore : Store UInt8 UInt8 (Shards UInt8 UInt8 2 1) Unit :=
  (everyMinute ⟨"a"⟩).freshStore Store.twoShards.backend .pairs

def deserted : Cell UInt8 UInt8 (Shards UInt8 UInt8 2 1) Unit where
  store := firstStore
  map := firstStore.backend.empty
  channel := ⟨false, false, true⟩

theorem trace_bothOpened : ∃ acts, Trace Step vacant
    ([.opened 0 0 (some 0), .opened 1 1 (some 1)] ++ acts) bothOpened.settle := by
  have laws := Backend.shardedLaws (K := UInt8) (V := UInt8) 2 1 UInt8.toNat
  have hfirst : vacant.openStore (everyMinute ⟨"a"⟩) Store.twoShards.backend (fun _ => .pairs) =
      .ok (0, firstOpened) := rfl
  have hsecond : firstOpened.openStore (everyMinute ⟨"b"⟩) Store.twoShards.backend
      (fun _ => .pairs) = .ok (1, bothOpened) := rfl
  have hopened : Trace Step vacant [.opened 0 0 (some 0), .opened 1 1 (some 1)] bothOpened :=
    (Trace.start.next (.opened laws hfirst rfl)).next (.opened laws hsecond rfl)
  obtain ⟨acts, hsettle⟩ := (sound_of_trace hopened (sound_empty _ _ _)).trace_settle
  exact ⟨acts, hopened.append hsettle⟩

def laterBound : Twin :=
  (passedOn.serve 0 deserted (.insert 7 9)).2

def increment : Command UInt8 UInt8 (World (Shards UInt8 UInt8 2 1) Unit) Unit :=
  .update 7 [] fun value => .ok (value + 1)

-- The first store is shared by someone who goes on using it.
theorem workers_have_one_owner_passedOn : ∃ acts,
    Trace Step vacant ([.opened 0 0 (some 0), .opened 1 1 (some 1)] ++ acts) bothOpened.settle ∧
    Step bothOpened.settle (.assigned 0 1) passedOn ∧
    passedOn.handles = [some ⟨some 1, some 1⟩, some ⟨none, none⟩] ∧
    Trace Step passedOn [.served 0 ⟨.insert 7 9, none⟩] laterBound ∧
    (∃ post, laterBound.posts[0]? = some post ∧ post.IsGone) ∧
    (∃ outcome after changed,
      laterBound.perform 0 (firstStore.perform increment).run = some (outcome, after) ∧
      after.cells[0]? = some changed ∧ firstStore.backend.bindings changed.map 7 = some 10 ∧
      outcome.map (fun _ => ()) = .ok ()) ∧
    ∃ after, laterBound.perform 0 firstStore.flush.run = some (.ok (), after) ∧
      after.files.look ⟨"a"⟩ = .ok (some (.file [7, 9])) := by
  obtain ⟨acts, htrace⟩ := trace_bothOpened
  have hgiven : Step bothOpened.settle (.assigned 0 1) passedOn := .assigned rfl rfl
  have hdeserted : passedOn.cells[0]? = some deserted := rfl
  have hserved : Step passedOn (.served 0 ⟨.insert 7 9, none⟩) laterBound :=
    .served hdeserted fun _ => nofun
  have hlater := Trace.start.next hserved
  obtain ⟨-, -, -, -, -, -, hgone⟩ := workers_have_one_owner htrace
  obtain ⟨-, -, post, cell, -, hpost, hisGone, hcell, hchanges, hsaves⟩ :=
    hgone 0 0 0 _ _ _ _ rfl (.assigned (by decide)) hgiven hlater
  obtain rfl : { deserted with map := (firstStore.backend.insert 7 9 deserted.map).2 } = cell :=
    Option.some.inj hcell
  refine ⟨acts, htrace, hgiven, rfl, hlater, ⟨post, hpost, hisGone⟩, ?_, ?_⟩
  · obtain ⟨outcome, after, changed, hperform, hchanged, -, heffect, hending, -⟩ :=
      hchanges nofun increment trivial trivial
    exact ⟨outcome, after, changed, hperform, hchanged, congrFun heffect 7, hending⟩
  · have hclear : laterBound.files.Clear ⟨"a"⟩ :=
      FileTree.clear_of_resolve ["a.json.tmp"] (.missing [] "a") rfl (FileTree.isPlain_of_none rfl)
        rfl (by decide)
    have hopen : ¬laterBound.files.LeadsOverItself ⟨"a"⟩ := by
      rintro ⟨entry, hentry, hne⟩
      obtain rfl : ["a"] = entry := Except.ok.inj hentry
      exact hne rfl
    obtain ⟨outcome, after, bytes, hflush, -, hbytes, hfile, hends⟩ := hsaves 1 _ rfl
    obtain rfl : [7, 9] = bytes := Except.ok.inj hbytes
    obtain rfl := hends nofun
    exact ⟨after, hflush, (hfile hclear).2 hopen⟩

end SnapshotStore.Estate
