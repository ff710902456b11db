import VectorIndex.Proofs.Search.Recovery
import VectorIndex.Proofs.Store.Publishing
import VectorIndex.Search.Service

/-!
# Watching an index

A watcher compares the time of the metadata file with the time that it had at the last load, and the
two are looked at one after the other while others publish. No published index is missed, since a
time that was noted too early is never the time of the file again. There is one exception: the time
that a watcher starts with is taken after its handle was loaded, so an index published in between is
missed until the next one.
-/

namespace VectorIndex

open IndexProgram (Amid OnlyReads amid_adapt amid_bind amid_ofExcept amid_pure amid_readFile
  onlyReads_adapt onlyReads_bind onlyReads_fetch onlyReads_ofExcept onlyReads_readFile)
open Published (Changes Dated Later)

variable {path : Path} {before after : Published}

/-! ## Loading while others publish -/

namespace QueryEngine

/-- The engine is the index that the metadata in these bytes describe. -/
structure Realizes (engine : QueryEngine) (contents : Bytes) : Prop where
  metadata : Metadata.ofBytes (Path.join engine.root Metadata.fileName) contents =
    .ok engine.metadata
  valid : engine.metadata.validate = .ok ()
  codebook : checkCodebook engine.metadata engine.codebook = .ok ()
  data : checkData engine.metadata engine.data = .ok ()
  codes : checkCodes engine.codebook.quantizer 0
    (Posting.split engine.metadata.codeSize engine.data) = .ok ()

theorem amid_readData {source : Path} {metadata : Metadata} {data : Bytes}
    (hamid : Amid path (readData source metadata) before data after) :
    checkData metadata data = .ok () := by
  unfold readData at hamid
  by_cases hvectors : metadata.vectorCount = 0
  · rw [if_pos hvectors] at hamid
    obtain ⟨_, _, hthrow, -⟩ := amid_bind hamid
    exact absurd hthrow.pure.1 nofun
  · rw [if_neg hvectors] at hamid
    obtain ⟨_, _, -, hamid₁⟩ := amid_bind hamid
    obtain ⟨found, _, -, hamid₂⟩ := amid_bind hamid₁
    cases found with
    | directory =>
      dsimp only at hamid₂
      split at hamid₂
      · exact absurd hamid₂.pure.1 nofun
      · exact absurd hamid₂.pure.1 nofun
    | file contents =>
      obtain ⟨_, _, hcheck, hamid₃⟩ := amid_bind hamid₂
      obtain ⟨rfl, -⟩ := amid_pure hamid₃
      exact Result.mapError_ok.mp (amid_ofExcept hcheck).1

theorem readData_onlyReads (source : Path) (metadata : Metadata) :
    OnlyReads (readData source metadata) := by
  unfold readData
  by_cases hvectors : metadata.vectorCount = 0
  · rw [if_pos hvectors]
    trivial
  · rw [if_neg hvectors]
    refine onlyReads_bind (onlyReads_fetch source) fun _ ↦
      onlyReads_bind (onlyReads_ofExcept _) fun found ↦ ?_
    cases found with
    | file contents => exact onlyReads_bind (onlyReads_ofExcept _) fun _ ↦ trivial
    | directory =>
      dsimp only
      split
      · trivial
      · trivial

theorem loadCodebook_onlyReads (source : Path) : OnlyReads (Codebook.load source) :=
  onlyReads_bind (onlyReads_readFile source) fun _ ↦ onlyReads_ofExcept _

theorem loadMetadata_onlyReads (source : Path) : OnlyReads (Metadata.load source) :=
  onlyReads_bind (onlyReads_readFile source) fun _ ↦ onlyReads_ofExcept _

theorem load_onlyReads (directory : Path) (probes : Nat) : OnlyReads (load directory probes) :=
  onlyReads_bind (onlyReads_adapt (loadMetadata_onlyReads _)) fun _ ↦
    onlyReads_bind (onlyReads_ofExcept _) fun _ ↦
      onlyReads_bind (onlyReads_adapt (loadCodebook_onlyReads _)) fun _ ↦
        onlyReads_bind (onlyReads_ofExcept _) fun _ ↦
          onlyReads_bind (readData_onlyReads _ _) fun _ ↦
            onlyReads_bind (onlyReads_ofExcept _) fun _ ↦ trivial

theorem amid_loadMetadata {source : Path} {metadata : Metadata}
    (hamid : Amid path (Metadata.load source) before metadata after) :
    ∃ at_ contents, Later path before at_ ∧ Later path at_ after ∧
      at_.tree.read source = .ok contents ∧ Metadata.ofBytes source contents = .ok metadata := by
  obtain ⟨contents, between, hread, hparse⟩ := amid_bind hamid
  obtain ⟨at_, hbefore, hbetween, hcontents⟩ := amid_readFile hread
  obtain ⟨hmetadata, hafter⟩ := amid_ofExcept hparse
  exact ⟨at_, contents, hbefore, hbetween.trans hafter, hcontents, hmetadata⟩

/-- However the directory changes meanwhile, what is loaded is the index of the metadata that were
there at one moment. -/
theorem amid_load {directory : Path} {probes : Nat} {engine : QueryEngine}
    (hamid : Amid path (load directory probes) before engine after) :
    ∃ at_ contents, Later path before at_ ∧ Later path at_ after ∧
      at_.tree.read (Path.join directory Metadata.fileName) = .ok contents ∧
      engine.root = directory ∧ engine.Realizes contents := by
  obtain ⟨metadata, _, hmetadata, hamid₁⟩ := amid_bind hamid
  obtain ⟨_, _, hvalid, hamid₂⟩ := amid_bind hamid₁
  obtain ⟨codebook, _, hcodebook, hamid₃⟩ := amid_bind hamid₂
  obtain ⟨_, _, hagrees, hamid₄⟩ := amid_bind hamid₃
  obtain ⟨data, _, hdata, hamid₅⟩ := amid_bind hamid₄
  obtain ⟨_, _, hcodes, hamid₆⟩ := amid_bind hamid₅
  obtain ⟨rfl, hlast⟩ := amid_pure hamid₆
  obtain ⟨_, hmetadata, hfirst⟩ := amid_adapt hmetadata
  obtain ⟨at_, contents, hbefore, hfound, hread, hparsed⟩ := amid_loadMetadata hmetadata
  obtain ⟨hvalid, hsecond⟩ := amid_ofExcept hvalid
  have hthird := (onlyReads_adapt (loadCodebook_onlyReads _)).later hcodebook
  obtain ⟨hagrees, hfourth⟩ := amid_ofExcept hagrees
  have hfifth := (readData_onlyReads _ _).later hdata
  obtain ⟨hcodes, hsixth⟩ := amid_ofExcept hcodes
  refine ⟨at_, contents, hbefore, ?_, hread, rfl, hparsed, Result.mapError_ok.mp hvalid,
    Result.mapError_ok.mp hagrees, amid_readData hdata, Result.mapError_ok.mp hcodes⟩
  exact hfound.trans (hfirst.trans (hsecond.trans (hthird.trans (hfourth.trans (hfifth.trans
    (hsixth.trans hlast))))))

end QueryEngine

/-! ## What a poll does -/

namespace IndexWatcher

variable {watcher : IndexWatcher} {handle : IndexHandle}

/-- What a poll can come to while others publish. -/
inductive Polled (path : Path) (watcher : IndexWatcher) (handle : IndexHandle)
    (before after : Published) : Except IndexError Bool → IndexWatcher → IndexHandle → Prop
  | kept {looked : Published} (hbefore : Later path before looked)
    (hafter : Later path looked after)
    (hsame : looked.tree.modified? watcher.metadataPath = none ∨
      looked.tree.modified? watcher.metadataPath = watcher.lastModified) :
    Polled path watcher handle before after (.ok false) watcher handle
  | failed {error : IndexError} (hlater : Later path before after) :
    Polled path watcher handle before after (.error error) watcher handle
  | reloaded {looked loaded : Published} {modified : Moment} {renewed : IndexHandle}
    (hbefore : Later path before looked)
    (hmodified : looked.tree.modified? watcher.metadataPath = some modified)
    (hnoted : watcher.lastModified ≠ some modified)
    (hload : Amid path (QueryEngine.load handle.current.root handle.current.probes) looked
      renewed.current loaded) (hafter : Later path loaded after) :
    Polled path watcher handle before after (.ok true)
      { watcher with lastModified := some modified } renewed

theorem reload_onlyReads (handle : IndexHandle) : OnlyReads handle.reload :=
  onlyReads_bind (QueryEngine.load_onlyReads _ _) fun _ ↦ trivial

theorem polled_of_amid {result : Except IndexError Bool} {noting : IndexWatcher}
    {renewed : IndexHandle}
    (hamid : (watcher.poll handle).Amid path before (result, noting, renewed) after) :
    Polled path watcher handle before after result noting renewed := by
  obtain ⟨looked, hbefore, hrest⟩ := StoreProgram.Amid.reads (fun _ ↦ rfl) hamid
  simp only [StoreProgram.bind] at hrest
  cases hmodified : looked.tree.modified? watcher.metadataPath with
  | none =>
    rw [show (looked.tree.answer (.modified watcher.metadataPath)).1 = none from hmodified] at hrest
    obtain ⟨hresult, hafter⟩ := hrest.pure
    cases hresult
    exact .kept hbefore hafter (.inl hmodified)
  | some modified =>
    rw [show (looked.tree.answer (.modified watcher.metadataPath)).1 = some modified from
      hmodified] at hrest
    dsimp only at hrest
    split at hrest
    · next hnoted =>
      obtain ⟨hresult, hafter⟩ := hrest.pure
      cases hresult
      exact .kept hbefore hafter (.inr (hmodified.trans hnoted.symm))
    · next hnoted =>
      obtain ⟨outcome, between, hreload, hend⟩ := hrest.bind
      cases outcome with
      | ok reloaded =>
        obtain ⟨hresult, hafter⟩ := hend.pure
        cases hresult
        obtain ⟨engine, loaded, hload, hmade⟩ := amid_bind hreload
        obtain ⟨rfl, hbetween⟩ := amid_pure hmade
        exact .reloaded hbefore hmodified hnoted hload (hbetween.trans hafter)
      | error error =>
        obtain ⟨hresult, hafter⟩ := hend.pure
        cases hresult
        exact .failed (hbefore.trans (((reload_onlyReads handle).later hreload).trans hafter))

/-- After a poll without an error the noted time is the one that the metadata had at its start. -/
theorem Polled.noted {changed : Bool} {noting : IndexWatcher} {renewed : IndexHandle}
    (hpolled : Polled path watcher handle before after (.ok changed) noting renewed) :
    ∃ looked, Later path before looked ∧ Later path looked after ∧
      (looked.tree.modified? watcher.metadataPath = none ∨
        looked.tree.modified? watcher.metadataPath = noting.lastModified) := by
  cases hpolled with
  | kept hbefore hafter hsame => exact ⟨_, hbefore, hafter, hsame⟩
  | reloaded hbefore hmodified hnoted hload hafter =>
    have hloaded := (QueryEngine.load_onlyReads _ _).later hload
    exact ⟨_, hbefore, hloaded.trans hafter, .inr hmodified⟩

theorem poll_onlyReads (watcher : IndexWatcher) (handle : IndexHandle) :
    (watcher.poll handle).OnlyReads := by
  refine ⟨fun _ ↦ rfl, fun answer ↦ ?_⟩
  simp only [StoreProgram.bind]
  cases answer with
  | none => trivial
  | some modified =>
    dsimp only
    split
    · trivial
    · refine StoreProgram.OnlyReads.bind (reload_onlyReads handle) fun outcome ↦ ?_
      cases outcome <;> trivial

/-- A poll that finds another time takes what it loads. -/
theorem run_poll_of_ne {tree : Tree} {modified : Moment} {engine : QueryEngine}
    (hmodified : tree.modified? watcher.metadataPath = some modified)
    (hnoted : watcher.lastModified ≠ some modified)
    (hload : (QueryEngine.load handle.current.root handle.current.probes).runOn tree =
      (.ok engine, tree)) :
    (watcher.poll handle).run tree =
      ((.ok true, { watcher with lastModified := some modified }, ⟨engine⟩), tree) := by
  have hreload : StoreProgram.run handle.reload.attempt tree = (.ok ⟨engine⟩, tree) := by
    rw [IndexProgram.run_attempt, IndexHandle.reload, IndexProgram.runOn_bind, hload]
    rfl
  unfold poll
  rw [StoreProgram.run_bind, StoreProgram.run_perform]
  rw [show (tree.answer (.modified watcher.metadataPath)).1 = some modified from hmodified]
  dsimp only
  rw [if_neg hnoted]
  show (handle.reload.attempt >>= _).run tree = _
  rw [StoreProgram.run_bind, hreload]
  rfl

end IndexWatcher

/-! ## Serving -/

/-- A directory that others publish to, and what serves it. -/
structure Serving where
  now : Published
  watcher : IndexWatcher
  handle : IndexHandle

/-- Where the metadata of a directory are. -/
def metadataOf (directory : Path) : Path := Path.join directory Metadata.fileName

namespace Serving

variable {directory : Path} {probes : Nat} {serving created last : Serving} {start now : Published}

/-- What may happen next: a change by others, or a poll. -/
inductive Step (directory : Path) : Serving → Serving → Prop
  | changes {serving : Serving} {now : Published}
    (hchange : Changes (metadataOf directory) serving.now now) :
    Step directory serving { serving with now }
  | polls {serving last : Serving} {result : Except IndexError Bool}
    (hamid : (serving.watcher.poll serving.handle).Amid (metadataOf directory) serving.now
      (result, last.watcher, last.handle) last.now) : Step directory serving last

/-- Any number of changes and polls. -/
def Run (directory : Path) : Serving → Serving → Prop := Relation.ReflTransGen (Step directory)

/-- A handle is opened, and then its watcher is made. -/
def Opens (directory : Path) (probes : Nat) (start : Published) (created : Serving) : Prop :=
  ∃ opened, Amid (metadataOf directory) (IndexHandle.open directory probes) start created.handle
      opened ∧
    (IndexWatcher.ofHandle created.handle).Amid (metadataOf directory) opened created.watcher
      created.now

/-- What holds of everything that serves a directory. -/
structure Watches (directory : Path) (serving : Serving) : Prop where
  root : serving.handle.current.root = directory
  path : serving.watcher.metadataPath = metadataOf directory
  there : ∃ contents modified, serving.now.tree.lookup (metadataOf directory) =
    .ok (.file contents modified)
  dated : serving.now.Dated (metadataOf directory)
  noted : ∀ modified, serving.watcher.lastModified = some modified →
    modified ∈ serving.now.moments

/-- While the metadata have the time that the watcher has noted, the handle holds their index. -/
def IsCurrent (directory : Path) (serving : Serving) : Prop :=
  ∀ contents modified, serving.watcher.lastModified = some modified →
    serving.now.tree.lookup (metadataOf directory) = .ok (.file contents modified) →
      serving.handle.current.Realizes contents

theorem Watches.later (hwatches : serving.Watches directory)
    (hlater : Later (metadataOf directory) serving.now now) :
    Watches directory { serving with now } where
  root := hwatches.root
  path := hwatches.path
  there := hlater.exists_file hwatches.there
  dated := hlater.dated hwatches.dated
  noted modified hmodified := hlater.suffix.mem (hwatches.noted modified hmodified)

/-- A publish makes the noted time one of the past, and then nothing is asked of the handle. -/
theorem Watches.isCurrent (hwatches : serving.Watches directory)
    (hlater : Later (metadataOf directory) serving.now now)
    (hcurrent : serving.IsCurrent directory ∨ now.moments ≠ serving.now.moments) :
    IsCurrent directory { serving with now } := by
  intro contents modified hnoted hfile
  have hquiet := hlater.moments_eq (hwatches.noted modified hnoted)
    (Tree.modified?_of_lookup hfile)
  have hsame := hlater.lookup_eq hquiet
  exact hcurrent.resolve_right (not_not_intro hquiet) contents modified hnoted
    (hsame.symm.trans hfile)

/-- An index that was loaded after the time was noted is the one of that time, unless that time has
passed. -/
theorem Watches.reloaded {looked loaded : Published} {renewed : IndexHandle} {modified : Moment}
    (hwatches : serving.Watches directory)
    (hlooked : Later (metadataOf directory) serving.now looked)
    (hmodified : looked.tree.modified? (metadataOf directory) = some modified)
    (hload : Amid (metadataOf directory) (QueryEngine.load directory probes) looked renewed.current
      loaded) (hafter : Later (metadataOf directory) loaded now) :
    Watches directory ⟨now, { serving.watcher with lastModified := some modified }, renewed⟩ ∧
      IsCurrent directory
        ⟨now, { serving.watcher with lastModified := some modified }, renewed⟩ := by
  obtain ⟨at_, contents, hbefore, hloaded, hread, hroot, hrealizes⟩ := QueryEngine.amid_load hload
  have hlast := hloaded.trans hafter
  have hseen := hlooked.dated hwatches.dated modified hmodified
  have hnow := hwatches.later (hlooked.trans (hbefore.trans hlast))
  refine ⟨⟨hroot, hnow.path, hnow.there, hnow.dated, ?_⟩, ?_⟩
  · intro noted hnoted
    obtain rfl := Option.some.inj hnoted
    exact (hbefore.trans hlast).suffix.mem hseen
  · intro found noted hnoted hfile
    obtain rfl := Option.some.inj hnoted
    have hquiet := (hbefore.trans hlast).moments_eq hseen (Tree.modified?_of_lookup hfile)
    have hearlier := hbefore.moments_between hlast hquiet
    have hsame := hlast.lookup_eq (hquiet.trans hearlier.symm)
    obtain ⟨_, hcontents⟩ := Tree.read_ok.mp hread
    cases hcontents.symm.trans (hsame.symm.trans hfile)
    exact hrealizes

/-- What a step keeps, and that a step during which others publish makes the handle current. -/
theorem Watches.step (hwatches : serving.Watches directory)
    (hstep : Step directory serving last) :
    last.Watches directory ∧ Later (metadataOf directory) serving.now last.now ∧
      (serving.IsCurrent directory ∨ last.now.moments ≠ serving.now.moments →
        last.IsCurrent directory) := by
  cases hstep with
  | changes hchange =>
    have hlater := (Later.refl _).head hchange
    exact ⟨hwatches.later hlater, hlater, hwatches.isCurrent hlater⟩
  | polls hamid =>
    obtain ⟨now, watcher, handle⟩ := last
    have hpolled := IndexWatcher.polled_of_amid hamid
    cases hpolled with
    | kept hbefore hafter =>
      have hlater := hbefore.trans hafter
      exact ⟨hwatches.later hlater, hlater, hwatches.isCurrent hlater⟩
    | failed hlater => exact ⟨hwatches.later hlater, hlater, hwatches.isCurrent hlater⟩
    | reloaded hbefore hmodified hnoted hload hafter =>
      rw [hwatches.path] at hmodified
      rw [hwatches.root] at hload
      obtain ⟨hrenewed, hcurrent⟩ := hwatches.reloaded hbefore hmodified hload hafter
      have hloaded := (QueryEngine.load_onlyReads _ _).later hload
      exact ⟨hrenewed, hbefore.trans (hloaded.trans hafter), fun _ ↦ hcurrent⟩

theorem Watches.run (hwatches : created.Watches directory) (hrun : Run directory created serving) :
    serving.Watches directory ∧ Later (metadataOf directory) created.now serving.now ∧
      (created.IsCurrent directory ∨ serving.now.moments ≠ created.now.moments →
        serving.IsCurrent directory) := by
  induction hrun with
  | refl => exact ⟨hwatches, .refl _, fun hcurrent ↦ hcurrent.resolve_right (not_not_intro rfl)⟩
  | @tail between last _ hstep ih =>
    obtain ⟨hbetween, hearlier, hcurrent⟩ := ih
    obtain ⟨hlast, hlater, hrenewed⟩ := hbetween.step hstep
    refine ⟨hlast, hearlier.trans hlater, fun hcases ↦ ?_⟩
    -- A publish was either before the last step or during it.
    by_cases hquiet : last.now.moments = between.now.moments
    · exact hrenewed (.inl (hcurrent (hquiet ▸ hcases)))
    · exact hrenewed (.inr hquiet)

/-- While nothing is published and the metadata have the time that the watcher has noted, no poll
changes anything, whichever index the handle holds: an index published after the handle was loaded
and before the watcher was made is missed until the next publish. -/
theorem Watches.idle (hwatches : created.Watches directory)
    (hnoted : created.now.tree.modified? (metadataOf directory) = created.watcher.lastModified)
    (hrun : Run directory created serving) (hquiet : serving.now.moments = created.now.moments) :
    serving.watcher = created.watcher ∧ serving.handle = created.handle := by
  induction hrun with
  | refl => exact ⟨rfl, rfl⟩
  | @tail between last hearlier hstep ih =>
    obtain ⟨hbetween, hbefore, -⟩ := hwatches.run hearlier
    obtain ⟨-, hlater, -⟩ := hbetween.step hstep
    obtain ⟨hwatcher, hhandle⟩ := ih (hbefore.moments_between hlater hquiet)
    cases hstep with
    | changes hchange => exact ⟨hwatcher, hhandle⟩
    | polls hamid =>
      obtain ⟨now, watcher, handle⟩ := last
      cases IndexWatcher.polled_of_amid hamid with
      | kept hlooked hafter => exact ⟨hwatcher, hhandle⟩
      | failed hduring => exact ⟨hwatcher, hhandle⟩
      | @reloaded looked loaded modified renewed hlooked hmodified hother hload hafter =>
        -- The poll has looked at a file that nobody has published since the watcher was made.
        have hrest := ((QueryEngine.load_onlyReads _ _).later hload).trans hafter
        have hsame := (hbefore.trans hlooked).lookup_eq
          ((hbefore.trans hlooked).moments_between hrest hquiet)
        rw [hbetween.path, Tree.modified?_congr hsame, hnoted, ← hwatcher] at hmodified
        exact absurd hmodified hother

/-- The time that the watcher starts with is that of the index of the handle, unless there was a
publish meanwhile. -/
theorem Opens.watches (hdated : start.Dated (metadataOf directory))
    (hopens : Opens directory probes start created) :
    created.Watches directory ∧
      (created.now.moments = start.moments → created.IsCurrent directory) := by
  obtain ⟨opened, hopened, hwatcher⟩ := hopens
  obtain ⟨engine, loaded, hload, hmade⟩ := amid_bind hopened
  obtain ⟨hhandle, hopening⟩ := amid_pure hmade
  obtain ⟨at_, contents, hbefore, hloaded, hread, hroot, hrealizes⟩ := QueryEngine.amid_load hload
  obtain ⟨looked, hlooking, hrest⟩ := StoreProgram.Amid.reads (fun _ ↦ rfl) hwatcher
  obtain ⟨hnoted, hafter⟩ := hrest.pure
  obtain ⟨now, watcher, handle⟩ := created
  obtain rfl : handle = ⟨engine⟩ := hhandle
  obtain ⟨modified, hfile⟩ := Tree.read_ok.mp hread
  have hlater := hloaded.trans (hopening.trans (hlooking.trans hafter))
  have hlooked := (hbefore.trans (hloaded.trans (hopening.trans hlooking))).dated hdated
  subst hroot
  refine ⟨⟨rfl, ?_, ?_, ?_, ?_⟩, ?_⟩
  · exact congrArg IndexWatcher.metadataPath hnoted
  · exact hlater.exists_file ⟨contents, modified, hfile⟩
  · exact (hbefore.trans hlater).dated hdated
  · intro noted hsame
    exact hafter.suffix.mem (hlooked noted
      ((congrArg IndexWatcher.lastModified hnoted).symm.trans hsame))
  · intro hquiet found noted hsame hfound
    have hearlier := hbefore.moments_between hlater hquiet
    have hkept := hlater.lookup_eq (hquiet.trans hearlier.symm)
    cases hfile.symm.trans (hkept.symm.trans hfound)
    exact hrealizes

/-- **No published index is missed.** A directory is opened and watched while others publish to it,
each time with a new time of modification. Once a poll has returned without an error, the handle
holds the index of the metadata on disk until something is published after the start of the poll.
This is so from the beginning when nothing was published while the handle was opened and its watcher
made, and in any case from the first publish after that. -/
theorem current_of_poll (hdated : start.Dated (metadataOf directory))
    (hopens : Opens directory probes start created) (hrun : Run directory created serving)
    {changed : Bool} (hpoll : (serving.watcher.poll serving.handle).Amid (metadataOf directory)
      serving.now (.ok changed, last.watcher, last.handle) last.now)
    (hlater : Later (metadataOf directory) last.now now)
    (hquiet : now.moments = serving.now.moments)
    (htimely : created.now.moments = start.moments ∨
      serving.now.moments ≠ created.now.moments) :
    ∃ contents, now.tree.read (metadataOf directory) = .ok contents ∧
      last.handle.current.root = directory ∧ last.handle.current.Realizes contents := by
  obtain ⟨hcreated, hopened⟩ := hopens.watches hdated
  obtain ⟨hwatches, -, hcurrent⟩ := hcreated.run hrun
  have hserving := hcurrent (htimely.imp_left hopened)
  obtain ⟨hlast, hduring, hkept⟩ := hwatches.step (.polls hpoll)
  have hnow := hlast.later hlater
  obtain ⟨contents, modified, hfile⟩ := hnow.there
  refine ⟨contents, Tree.read_ok.mpr ⟨modified, hfile⟩, hlast.root, ?_⟩
  -- What the poll looked at is what there is now.
  obtain ⟨looked, hbefore, hafter, hsame⟩ := (IndexWatcher.polled_of_amid hpoll).noted
  have hrest := hafter.trans hlater
  have hearlier := hbefore.moments_between hrest hquiet
  have hlooked := hrest.lookup_eq (hquiet.trans hearlier.symm)
  have hmodified := Tree.modified?_of_lookup (hlooked.symm.trans hfile)
  rw [hwatches.path, hmodified] at hsame
  have hnoted := (hsame.resolve_left (Option.some_ne_none modified)).symm
  exact hlast.isCurrent hlater (.inl (hkept (.inl hserving))) contents modified hnoted hfile

/-- The small index with its metadata published once more. -/
theorem exists_small_republished : ∃ first second engine contents modified,
    (QueryEngine.load "index" 4).runOn first = (.ok engine, first) ∧
    (QueryEngine.load "index" 4).runOn second = (.ok engine, second) ∧
    first.lookup (metadataOf "index") = .ok (.file contents modified) ∧
    second.lookup (metadataOf "index") = .ok (.file contents (modified + 1)) := by
  obtain ⟨first, segments, createdAt, -, -, -, hload⟩ := QueryEngine.exists_small_engine
  have hnamed : (QueryEngine.ofMerge ⟨"index", SegmentMerger.smallCodebook⟩ segments createdAt
    4).IsNamed := rfl
  generalize QueryEngine.ofMerge _ segments createdAt 4 = engine at hload hnamed
  obtain ⟨-, hroot, hprobes, hverified⟩ := QueryEngine.load_ok.mp hload
  obtain ⟨hdirectory, ⟨contents, hcontents, -⟩, -, -⟩ := hverified.files hnamed.isName
  rw [hroot] at hdirectory hcontents
  obtain ⟨modified, hfind⟩ := Tree.files_eq_some.mp hcontents
  let second := first.set (Location.ofDirectory "index" ++ [Metadata.fileName])
    (.file contents (modified + 1))
  have hbecomes : first.Becomes second first.files :=
    Files.put_of_eq hcontents ▸ Tree.becomes_set_file (by rw [hfind]; exact nofun) contents
      (modified + 1)
  have hagain : engine.Verified second :=
    hverified.of_files hnamed.isName (hroot ▸ hbecomes.directories _ hdirectory) fun name _ ↦
      congrFun hbecomes.files_eq _
  have hpath := Location.ofPath_join "index" Metadata.isName_fileName
  have hslash := Path.endsWithSlash_join "index" Metadata.isName_fileName
  refine ⟨first, second, engine, contents, modified, hload,
    QueryEngine.load_ok.mpr ⟨rfl, hroot, hprobes, hagain⟩, ?_, ?_⟩
  · refine (Tree.lookup_eq_ok hpath).mpr ⟨(Tree.above_name _ _).mpr hdirectory, hfind, ?_⟩
    exact fun h ↦ absurd (hslash.symm.trans h) nofun
  · refine (Tree.lookup_eq_ok hpath).mpr ⟨(Tree.above_name _ _).mpr
      (hbecomes.directories _ hdirectory), ?_, fun h ↦ absurd (hslash.symm.trans h) nofun⟩
    rw [Tree.find?_set _ _ (by simp), if_pos rfl]

/-- The small index is opened and published once more, and the next poll finds it. -/
theorem current_of_poll_small : ∃ (serving last : Serving) (contents : Bytes),
    (serving.watcher.poll serving.handle).Amid (metadataOf "index") serving.now
      (.ok true, last.watcher, last.handle) last.now ∧
    last.now.tree.read (metadataOf "index") = .ok contents ∧
      last.handle.current.Realizes contents := by
  obtain ⟨first, second, engine, contents, modified, hfirst, hsecond, hbefore, hafter⟩ :=
    exists_small_republished
  have hfresh : modified + 1 ≠ modified := Int.ne_of_gt (Int.lt_succ modified)
  have hmodified := Tree.modified?_of_lookup hbefore
  obtain ⟨-, hroot, hprobes, -⟩ := QueryEngine.load_ok.mp hfirst
  let created : Serving := ⟨⟨first, [modified]⟩, ⟨metadataOf "index", modified⟩, ⟨engine⟩⟩
  let serving : Serving := { created with now := ⟨second, [modified + 1, modified]⟩ }
  let last : Serving := { serving with watcher := ⟨metadataOf "index", some (modified + 1)⟩ }
  have hdated : created.now.Dated (metadataOf "index") := by
    intro noted hnoted
    obtain rfl := Option.some.inj (hmodified.symm.trans hnoted)
    exact List.mem_singleton_self _
  have hopens : Opens "index" 4 created.now created := by
    have hopened : ((IndexHandle.open "index" 4).runOn first).1 = .ok ⟨engine⟩ := by
      rw [IndexHandle.open, IndexProgram.runOn_bind, hfirst]
      rfl
    have hmade : ((IndexWatcher.ofHandle ⟨engine⟩).run first).1 = created.watcher := by
      show IndexWatcher.mk (Path.join engine.root Metadata.fileName)
        (first.modified? (Path.join engine.root Metadata.fileName)) = _
      rw [hroot]
      exact congrArg _ hmodified
    have hopen : OnlyReads (IndexHandle.open "index" 4) :=
      onlyReads_bind (QueryEngine.load_onlyReads _ _) fun _ ↦ trivial
    have hnew : (IndexWatcher.ofHandle ⟨engine⟩).OnlyReads := ⟨fun _ ↦ rfl, fun _ ↦ trivial⟩
    exact ⟨created.now, hopen.amid hopened, hnew.amid hmade⟩
  have hpoll : (serving.watcher.poll serving.handle).Amid (metadataOf "index") serving.now
      (.ok true, last.watcher, last.handle) last.now := by
    have hload : (QueryEngine.load engine.root engine.probes).runOn second =
        (.ok engine, second) := by
      rw [hroot, hprobes]
      exact hsecond
    have hrun : (serving.watcher.poll ⟨engine⟩).run second =
        ((.ok true, last.watcher, last.handle), second) :=
      IndexWatcher.run_poll_of_ne (Tree.modified?_of_lookup hafter)
        (fun hsame ↦ hfresh (Option.some.inj hsame).symm) hload
    exact (IndexWatcher.poll_onlyReads _ _).amid (congrArg Prod.fst hrun)
  have hchange : Changes (metadataOf "index") created.now serving.now :=
    .publishes hafter (mt List.mem_singleton.mp hfresh)
  obtain ⟨found, hread, -, hrealizes⟩ := current_of_poll hdated hopens
    (.single (.changes hchange)) hpoll (.refl _) rfl (.inl rfl)
  exact ⟨serving, last, found, hpoll, hread, hrealizes⟩

end Serving
end VectorIndex
