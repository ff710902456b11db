import Mathlib.Data.Set.Operations
import VectorIndex.Proofs.Postings.Conduct
import VectorIndex.Proofs.Search.Watching
import VectorIndex.Proofs.Store.Crowd

/-!
# Loading among builds

Any number of builds save codebooks, publish files and merge segments in one directory. The loader
opens the metadata, the codebook and the data one after the other, so each may come from another
build. The metadata of a merge tell the digest of its data and the fingerprint of its codebook, and
the loader checks both: what it returns is the work of one merge.
-/

namespace VectorIndex

open IndexProgram (Conducts Finds conducts_bind conducts_imp conducts_pure finds_adapt finds_bind
  finds_fetch finds_imp finds_ofExcept finds_pure finds_readFile finds_throw)

/-! ## What the loader opens -/

namespace QueryEngine

variable {found : Path → Bytes → Prop}

theorem readData_finds (path : Path) (metadata : Metadata) :
    Finds found (fun data ↦ found path data ∧ checkData metadata data = .ok ())
      (readData path metadata) := by
  unfold readData
  by_cases hvectors : metadata.vectorCount = 0
  · rw [if_pos hvectors]
    exact finds_bind (finds_throw _)
  · rw [if_neg hvectors]
    apply finds_bind
    apply finds_imp (finds_fetch path)
    intro answer hfound
    apply finds_bind
    apply finds_ofExcept
    intro source hsource
    obtain rfl := Result.mapError_ok.mp hsource
    cases source with
    | directory =>
      dsimp only
      split
      · exact finds_throw _
      · exact finds_throw _
    | file data =>
      apply finds_bind
      apply finds_ofExcept
      intro _ hcheck
      exact finds_pure ⟨hfound data rfl, Result.mapError_ok.mp hcheck⟩

/-- What is loaded was parsed from three files, and passes every check. -/
theorem load_finds (directory : Path) (probes : Nat) :
    Finds found (fun engine ↦ ∃ contents file,
      found (Path.join directory Metadata.fileName) contents ∧
      found (Path.join directory Layout.codebookFile) file ∧
      found (Path.join directory engine.metadata.dataFile) engine.data ∧
      Codebook.ofBytes file = .ok engine.codebook ∧ engine.Realizes contents)
      (load directory probes) := by
  unfold load Metadata.load Codebook.load
  apply finds_bind
  apply finds_adapt
  apply finds_bind
  apply finds_imp (finds_readFile _)
  intro contents hcontents
  apply finds_ofExcept
  intro metadata hmetadata
  apply finds_bind
  apply finds_ofExcept
  intro _ hvalid
  apply finds_bind
  apply finds_adapt
  apply finds_bind
  apply finds_imp (finds_readFile _)
  intro file hfile
  apply finds_ofExcept
  intro codebook hcodebook
  apply finds_bind
  apply finds_ofExcept
  intro _ hagrees
  apply finds_bind
  apply finds_imp (readData_finds _ _)
  rintro data ⟨hdata, hdescribed⟩
  apply finds_bind
  apply finds_ofExcept
  intro _ hcodes
  refine finds_pure ⟨contents, file, hcontents, hfile, hdata, Result.mapError_ok.mp hcodebook, ?_⟩
  exact ⟨hmetadata, Result.mapError_ok.mp hvalid, Result.mapError_ok.mp hagrees, hdescribed,
    Result.mapError_ok.mp hcodes⟩

end QueryEngine

/-! ## Builds -/

/-- What a build does in the directory of an index: it saves a codebook, publishes a file that is
none of metadata, or merges segments with a codebook that some file holds. -/
inductive Build where
  | saves (codebook : Codebook)
  | publishes (name : String) (contents : Bytes) (hname : Path.IsName name)
    (hhead : name.toList.head? ≠ some '.') (hother : name ≠ Metadata.fileName)
  | merges (file : Bytes) (codebook : Codebook) (hfile : Codebook.ofBytes file = .ok codebook)
    (order : List PartitionIndex)

namespace Build

variable {root : Path} {may : Action → Bool} {events : List Event} {build : Build}

def program (root : Path) : Build → IndexProgram Unit
  | saves codebook => codebook.save (Path.join root Layout.codebookFile)
  | publishes name contents _ _ _ => publishFile (Path.join root name) contents
  | merges _ codebook _ order => do
    let _ ← SegmentMerger.mergeInOrder ⟨root, codebook⟩ order
    return ()

/-- What a build publishes under a name: metadata only as a merge does. -/
def Admits (root : Path) (build : Build) (events : List Event) (name : String)
    (contents : Bytes) : Prop :=
  match build with
  | saves _ => name ≠ Metadata.fileName
  | publishes _ _ _ _ _ => name ≠ Metadata.fileName
  | merges _ codebook _ _ => SegmentMerger.Admits ⟨root, codebook⟩ events name contents

theorem Admits.mono {few many : List Event} {name : String} {contents : Bytes}
    (hadmits : build.Admits root few name contents) (hmany : few <:+ many) :
    build.Admits root many name contents := by
  cases build with
  | saves codebook => exact hadmits
  | publishes => exact hadmits
  | merges file codebook hfile order => exact fun hname ↦ (hadmits hname).mono hmany

theorem program_conducts (root : Path) (build : Build) :
    Conducts root may (build.Admits root) (fun _ _ ↦ True) (fun _ ↦ True) (build.program root)
      events := by
  cases build with
  | saves codebook =>
    exact publishFile_conducts Layout.isName_codebookFile (by decide)
      fun _ ↦ show Layout.codebookFile ≠ Metadata.fileName by decide
  | publishes name contents hname hhead hother =>
    exact publishFile_conducts hname hhead fun _ ↦ hother
  | merges file codebook hfile order =>
    apply conducts_bind
    apply conducts_imp (SegmentMerger.mergeInOrder_conducts ⟨root, codebook⟩ hfile order) _
      fun _ h ↦ h
    exact fun _ _ _ ↦ conducts_pure trivial

/-- Metadata come from a merge. -/
theorem exists_of_admits {contents : Bytes}
    (hadmits : build.Admits root events Metadata.fileName contents) :
    ∃ file codebook hfile order, build = merges file codebook hfile order ∧
      SegmentMerger.Announces ⟨root, codebook⟩ events contents := by
  cases build with
  | saves codebook => exact absurd rfl hadmits
  | publishes => exact absurd rfl hadmits
  | merges file codebook hfile order =>
    exact ⟨file, codebook, hfile, order, rfl, hadmits rfl⟩

end Build

/-! ## One merge -/

/-- The names of the three kinds of files that the loader opens. -/
def Layout.IsIndexName (name : String) : Prop :=
  name = Metadata.fileName ∨ name = codebookFile ∨ isDataName name = true

theorem Layout.IsIndexName.head {name : String} (hname : IsIndexName name) :
    name.toList.head? ≠ some '.' := by
  rcases hname with rfl | rfl | hdata
  · decide
  · decide
  · rw [head_of_isDataName hdata]
    decide

namespace Crowd

/-- The builds before any of them has done anything. -/
def ofBuilds (root : Path) (builds : Nat → Build) (tree : Tree) : Crowd (Except IndexError Unit) :=
  start (fun i ↦ ((builds i).program root).run) tree

/-- The strings whose digests the loader compares: the data that were published, and the payloads
of the codebooks that were published or merged with. -/
inductive Digested (root : Path) (builds : Nat → Build) (crowd : Crowd (Except IndexError Unit)) :
    Bytes → Prop
  | data {i : Nat} {name : String} {data : Bytes} (hname : Layout.isDataName name = true)
    (hwrote : Wrote (crowd.events i) (Path.join root name) data) : Digested root builds crowd data
  | saved {i : Nat} {file : Bytes}
    (hwrote : Wrote (crowd.events i) (Path.join root Layout.codebookFile) file) :
    Digested root builds crowd (file.drop Codebook.headerSize)
  | used {i : Nat} {file : Bytes} {codebook : Codebook} {hfile : Codebook.ofBytes file = .ok codebook}
    {order : List PartitionIndex} (hbuild : builds i = .merges file codebook hfile order) :
    Digested root builds crowd (file.drop Codebook.headerSize)

/-- Whatever the loader opens among the builds was published by one of them. -/
theorem published_of_load {root : Path} {may : Action → Bool} {builds : Nat → Build} {tree : Tree}
    (hempty : ∀ name, Layout.IsIndexName name →
      tree.files (Location.ofDirectory root ++ [name]) = none)
    {probes : Nat} {engine : QueryEngine} {last : Crowd (Except IndexError Unit)}
    (hload : Reads root may (ofBuilds root builds tree) (QueryEngine.load root probes).run
      (.ok engine) last) :
    ∃ contents file,
      (∃ i, Wrote (last.events i) (Path.join root Metadata.fileName) contents ∧
        (builds i).Admits root (last.events i) Metadata.fileName contents) ∧
      (∃ i, Wrote (last.events i) (Path.join root Layout.codebookFile) file) ∧
      (Path.IsName engine.metadata.dataFile → Layout.isDataName engine.metadata.dataFile = true →
        ∃ i, Wrote (last.events i) (Path.join root engine.metadata.dataFile) engine.data) ∧
      Codebook.ofBytes file = .ok engine.codebook ∧ engine.Realizes contents := by
  have horder : InOrder root may (fun i ↦ (builds i).Admits root) Layout.IsIndexName
      (ofBuilds root builds tree) := by
    refine inOrder_start (fun i ↦ ?_) hempty
    exact StoreProgram.Conducts.imp ((builds i).program_conducts root) fun _ _ _ ↦ trivial
  obtain ⟨contents, file, hcontents, hfile, hdata, hrest⟩ := horder.finds
    (fun name hname ↦ hname.head) (fun i few many name contents hmany hadmits ↦ hadmits.mono hmany)
    hload (QueryEngine.load_finds root probes) engine rfl
  refine ⟨contents, file, hcontents _ Metadata.isName_fileName (.inl rfl) rfl, ?_, ?_, hrest⟩
  · obtain ⟨i, hwrote, -⟩ := hfile _ Layout.isName_codebookFile (.inr (.inl rfl)) rfl
    exact ⟨i, hwrote⟩
  · intro hname hkind
    obtain ⟨i, hwrote, -⟩ := hdata _ hname (.inr (.inr hkind)) rfl
    exact ⟨i, hwrote⟩

/-- However the reads of the loader fall between the actions of any number of builds, what it
returns is the work of one merge: its metadata, its data and the codebook that it merged with. -/
theorem one_merge_of_load {root : Path} {may : Action → Bool} {builds : Nat → Build} {tree : Tree}
    (hempty : ∀ name, Layout.IsIndexName name →
      tree.files (Location.ofDirectory root ++ [name]) = none)
    {probes : Nat} {engine : QueryEngine} {last : Crowd (Except IndexError Unit)}
    (hload : Reads root may (ofBuilds root builds tree) (QueryEngine.load root probes).run
      (.ok engine) last)
    (hsize : ∀ bytes, last.Digested root builds bytes → bytes.length < 0x10000000000000000)
    (hdigests : Set.InjOn Fingerprint.of {bytes | last.Digested root builds bytes}) :
    ∃ i file codebook hfile order, builds i = .merges file codebook hfile order ∧
      engine.codebook = codebook ∧
      Wrote (last.events i) (Path.join root Metadata.fileName) engine.metadata.toBytes ∧
      Wrote (last.events i) (Path.join root engine.metadata.dataFile) engine.data := by
  obtain ⟨contents, found, ⟨i, hwrote, hadmits⟩, ⟨j, hsaved⟩, hopened, hfound, hrealizes⟩ :=
    published_of_load hempty hload
  obtain ⟨file, codebook, hfile, order, hbuild, metadata, data, rfl, hfits, hname, hchecksum,
    hfingerprint, hdata⟩ := Build.exists_of_admits hadmits
  have hkind : Layout.isDataName metadata.dataFile = true := by
    rw [hname]
    exact Layout.isDataName_dataFileName _
  -- the metadata are read back as they were announced
  have hsame : engine.metadata = metadata := by
    have hparsed := hrealizes.metadata
    rw [Metadata.ofBytes_toBytes (hfits (hsize _ (.data hkind hdata)))] at hparsed
    exact (Except.ok.inj hparsed).symm
  obtain ⟨k, hopened⟩ := hopened (by rw [hsame, hname]; exact Metadata.isName_dataFileName _)
    (hsame ▸ hkind)
  have hchecks := (QueryEngine.checkData_eq_ok.mp hrealizes.data).2
  have hagrees := (QueryEngine.checkCodebook_eq_ok.mp hrealizes.codebook).1
  rw [hsame] at hopened hchecks hagrees
  -- the digest tells the data, and the fingerprint tells the payload of the codebook
  have hbytes : engine.data = data :=
    hdigests (.data hkind hopened) (.data hkind hdata) (hchecks.trans hchecksum)
  have hin := Codebook.isIn_of_ofBytes hfound
  have husedin := Codebook.isIn_of_ofBytes hfile
  have hpayload : found.drop Codebook.headerSize = file.drop Codebook.headerSize := by
    apply hdigests (.saved hsaved) (.used hbuild)
    rw [← hin.fingerprint, ← husedin.fingerprint, hagrees, hfingerprint]
  refine ⟨i, file, codebook, hfile, order, hbuild, hin.unique husedin hpayload, ?_, ?_⟩
  · rw [hsame]
    exact hwrote
  · rw [hsame, hbytes]
    exact hdata

/-! ### A codebook that is saved before its merge -/

/-- The small codebook with its fingerprint written out. -/
def smallCodebook : Codebook :=
  { SegmentMerger.smallCodebook with
    fingerprint := ⟨[60, 250, 105, 2, 217, 64, 112, 112, 12, 246, 21, 252, 59, 235, 4, 55, 33, 148,
      102, 203, 101, 178, 134, 243, 0, 222, 59, 145, 177, 3, 171, 186], rfl⟩ }

theorem ofBytes_smallCodebook : Codebook.ofBytes smallCodebook.toBytes = .ok smallCodebook := by
  decide +kernel

def smallBuilds : Nat → Build
  | 0 => .saves smallCodebook
  | _ => .merges smallCodebook.toBytes smallCodebook ofBytes_smallCodebook [0]

/-- A posting in each cell. -/
def smallDraft : SegmentDraft :=
  ((SegmentDraft.start 0 0 smallCodebook).push 1 ⟨0, [1]⟩).push 0 ⟨1, [0]⟩

def smallStart : Tree :=
  ⟨[(["index"], .directory), (["index", "segment_0.seg"], .file smallDraft.toBytes 0)], 0⟩

def smallSaved : Crowd (Except IndexError Unit) := (ofBuilds "index" smallBuilds smallStart).ran 0

def smallMerged : Crowd (Except IndexError Unit) := smallSaved.ran 1

/-- What is merged undisturbed can be loaded. -/
theorem exists_load_of_ran {root : Path} {crowd : Crowd (Except IndexError Unit)} {i count : Nat}
    {file : Bytes} {codebook : Codebook} {hfile : Codebook.ofBytes file = .ok codebook}
    (hleft : crowd.left i =
      ((Build.merges file codebook hfile (List.range (count % 0x100000000))).program root).run)
    {bytes : Bytes} (hread : crowd.tree.read (Path.join root Layout.codebookFile) = .ok bytes)
    (hbytes : Codebook.ofBytes bytes = .ok codebook) {metadata : Metadata} {changed : Tree}
    (hmerge : (SegmentMerger.merge ⟨root, codebook⟩ count).runOn crowd.tree =
      (.ok metadata, changed))
    (hopens : SegmentMerger.OpensExactly ⟨root, codebook⟩ crowd.tree (count % 0x100000000))
    (hvectors : 0 < metadata.vectorCount) (probes : Nat) :
    ∃ engine, (QueryEngine.load root probes).runOn (crowd.ran i).tree =
      (.ok engine, (crowd.ran i).tree) := by
  have hprogram : ((Build.merges file codebook hfile
      (List.range (count % 0x100000000))).program root).runOn crowd.tree = (.ok (), changed) :=
    IndexProgram.runOn_bind_ok.mpr ⟨metadata, changed, hmerge, rfl⟩
  have htree : (crowd.ran i).tree = changed := by
    show ((crowd.left i).run crowd.tree).2 = _
    rw [hleft]
    exact congrArg Prod.snd hprogram
  have hcodebook : (Codebook.load (Path.join root Layout.codebookFile)).runOn crowd.tree =
      (.ok codebook, crowd.tree) := Codebook.load_ok.mpr ⟨rfl, bytes, hread, hbytes⟩
  obtain ⟨-, _, -, -, hload⟩ := QueryEngine.load_merge hcodebook hmerge hopens hvectors
  obtain ⟨engine, hengine, -⟩ := hload probes
  exact ⟨engine, htree ▸ hengine⟩

theorem exists_load_small : ∃ engine,
    (QueryEngine.load "index" 4).runOn smallMerged.tree = (.ok engine, smallMerged.tree) := by
  have hread : (smallSaved.tree.answer (.fetch (Path.join "index" Layout.codebookFile))).1 =
      .ok (.file smallCodebook.toBytes) := by
    decide
  have hsegment : (smallSaved.tree.answer (.fetch (segmentPath "index" 0))).1 =
      .ok (.file smallDraft.toBytes) := by
    decide +kernel
  have hhosts : smallSaved.tree.Hosts (SegmentMerger.mk "index" smallCodebook).directory :=
    Tree.hosts_of_entries (by decide)
  obtain ⟨createdAt, changed, hmerge, -⟩ := SegmentMerger.exists_sole_merge hhosts
    (Tree.fetch_eq_ok.mp hsegment) (by decide +kernel) (by decide +kernel) (by decide +kernel)
  have hrun : (SegmentMerger.merge ⟨"index", smallCodebook⟩ 1).runOn smallSaved.tree =
      (.ok _, changed) := hmerge
  have hcount : 0 < SegmentMerger.totalCount
      [.fromBytes (segmentPath "index" 0) smallDraft.toBytes] := by
    decide +kernel
  have hleft : smallSaved.left 1 = ((smallBuilds 1).program "index").run := left_ran (by decide)
  exact exists_load_of_ran hleft (Tree.fetch_eq_ok.mp hread) ofBytes_smallCodebook hrun
    (SegmentMerger.opensExactly_of_all (by decide +kernel)) hcount 4

/-- The data and the payload that the builds have published. -/
def smallStrings : List Bytes :=
  [[1, 0, 0, 0, 0, 0, 0, 0, 0, 0, 0, 0, 0, 0, 0, 0, 0, 1],
    smallCodebook.toBytes.drop Codebook.headerSize]

/-- What is digested of a published file. -/
def digestedOf : Path × Bytes → List Bytes
  | (path, contents) =>
    if Metadata.dataSuffix.toList.isSuffixOf path.toList then [contents]
    else if path = Path.join "index" Layout.codebookFile then [contents.drop Codebook.headerSize]
    else []

theorem writes_of_two {β : Type} {crowd : Crowd β} (hrest : ∀ i, crowd.events (i + 2) = [])
    {i : Nat} {path : Path} {contents : Bytes} (hwrote : Wrote (crowd.events i) path contents) :
    (path, contents) ∈ writesOf (crowd.events 1) ++ writesOf (crowd.events 0) := by
  match i with
  | 0 => exact List.mem_append_right _ hwrote
  | 1 => exact List.mem_append_left _ hwrote
  | i + 2 =>
    rw [hrest i] at hwrote
    cases hwrote

theorem digested_small : (writesOf (smallMerged.events 1) ++
    writesOf (smallMerged.events 0)).flatMap digestedOf = smallStrings := by
  decide +kernel

theorem mem_smallStrings {bytes : Bytes}
    (hdigested : smallMerged.Digested "index" smallBuilds bytes) : bytes ∈ smallStrings := by
  have hrest : ∀ i, smallMerged.events (i + 2) = [] := by
    intro i
    rw [smallMerged, smallSaved, events_ran (by omega), events_ran (by omega)]
    rfl
  cases hdigested with
  | data hname hwrote =>
    rw [← digested_small]
    refine List.mem_flatMap.mpr ⟨_, writes_of_two hrest hwrote, ?_⟩
    rw [Layout.isDataName, Bool.and_eq_true, List.isSuffixOf_iff_suffix] at hname
    rw [digestedOf, if_pos (List.isSuffixOf_iff_suffix.mpr
      (hname.2.trans (Path.suffix_join "index" _)))]
    exact List.mem_singleton_self _
  | saved hwrote =>
    rw [← digested_small]
    refine List.mem_flatMap.mpr ⟨_, writes_of_two hrest hwrote, ?_⟩
    rw [digestedOf, if_neg (by decide), if_pos rfl]
    exact List.mem_singleton_self _
  | @used i file codebook hfile order hbuild =>
    have hfile : file = smallCodebook.toBytes := by
      cases i with
      | zero => cases hbuild
      | succ i => exact (Build.merges.inj hbuild).1.symm
    rw [hfile]
    exact List.mem_cons_of_mem _ List.mem_cons_self

/-- The index of the saved codebook and of its merge is loaded. -/
theorem one_merge_of_load_small : ∃ last engine,
    Reads "index" (fun _ ↦ false) (ofBuilds "index" smallBuilds smallStart)
      (QueryEngine.load "index" 4).run (.ok engine) last ∧
    ∃ i file codebook hfile order, smallBuilds i = .merges file codebook hfile order ∧
      engine.codebook = codebook ∧
      Wrote (last.events i) (Path.join "index" Metadata.fileName) engine.metadata.toBytes ∧
      Wrote (last.events i) (Path.join "index" engine.metadata.dataFile) engine.data := by
  obtain ⟨engine, hengine⟩ := exists_load_small
  have hload : Reads "index" (fun _ ↦ false) (ofBuilds "index" smallBuilds smallStart)
      (QueryEngine.load "index" 4).run (.ok engine) smallMerged := by
    have hreads : Reads "index" (fun _ ↦ false) smallMerged (QueryEngine.load "index" 4).run
        ((QueryEngine.load "index" 4).runOn smallMerged.tree).1 smallMerged :=
      Reads.of_run (QueryEngine.load_onlyReads "index" 4)
    rw [hengine] at hreads
    exact hreads.of_ran.of_ran
  have hempty : ∀ name, Layout.IsIndexName name →
      smallStart.files (Location.ofDirectory "index" ++ [name]) = none := by
    intro name hname
    have hother : "segment_0.seg" ≠ name := by
      rintro rfl
      rcases hname with hname | hname | hname <;> exact absurd hname (by decide)
    have hplace : Location.ofDirectory "index" = ["index"] := by decide
    apply Tree.files_of_none
    rw [hplace]
    simp [Tree.find?, smallStart, hother]
  have hsize : ∀ bytes ∈ smallStrings, bytes.length < 0x10000000000000000 := by
    decide +kernel
  have hnodup : (smallStrings.map Fingerprint.of).Nodup := by
    decide +kernel
  refine ⟨smallMerged, engine, hload, one_merge_of_load hempty hload ?_ ?_⟩
  · exact fun bytes hbytes ↦ hsize bytes (mem_smallStrings hbytes)
  · intro first hfirst second hsecond heq
    exact List.inj_on_of_nodup_map hnodup (mem_smallStrings hfirst) (mem_smallStrings hsecond) heq

end Crowd
end VectorIndex
