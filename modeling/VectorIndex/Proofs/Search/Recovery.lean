import VectorIndex.Proofs.Postings.Interruption
import VectorIndex.Proofs.Search.Load
import VectorIndex.Proofs.Store.Readers

/-!
# Loading beside a merge

A merge may fail or be cut off anywhere, and a loader may read while it runs. What is loaded is the
previous index or the new one, and never a mixture.
-/

namespace VectorIndex

open StagedFile (IsTemporary)

namespace SegmentMerger

variable {merger : SegmentMerger} {may : Action → Bool} {count : Nat} {start tree : Tree}
  {committed : Bool}

theorem dataName_suffix (merger : SegmentMerger) (segments : List Segment) :
    Metadata.dataSuffix.toList <:+ (merger.dataName segments).toList := by
  unfold dataName
  rw [Metadata.toList_dataFileName]
  exact List.suffix_append _ _

theorem directories_of_safe (hsafe : (merger.watch may count start).safe committed tree)
    {location : Location} (hdirectory : start.IsDirectory location) :
    tree.IsDirectory location := by
  cases committed with
  | false => exact hsafe.directories location hdirectory
  | true =>
    obtain ⟨segments, createdAt, -, -, hrenewed⟩ := hsafe
    exact hrenewed.directories location hdirectory

/-- A file that is neither metadata nor data nor staged stays as it was. -/
theorem files_of_safe (hsafe : (merger.watch may count start).safe committed tree) {name : String}
    (hhead : name.toList.head? ≠ some '.') (hmetadata : name ≠ Metadata.fileName)
    (hsuffix : ¬ Metadata.dataSuffix.toList <:+ name.toList) :
    tree.files (Location.ofDirectory merger.directory ++ [name]) =
      start.files (Location.ofDirectory merger.directory ++ [name]) := by
  have hdata : ∀ segments, name ≠ merger.dataName segments := by
    rintro segments rfl
    exact hsuffix (merger.dataName_suffix segments)
  cases committed with
  | false =>
    rcases hsafe.files_eq _ (ne_temporary hhead) with hsame | ⟨segments, -, heq, -⟩
    · exact hsame
    · exact absurd heq (append_ne_append _ (hdata segments))
  | true =>
    obtain ⟨segments, createdAt, -, -, hrenewed⟩ := hsafe
    rcases hrenewed.others _ (ne_temporary hhead) (append_ne_append _ (hdata segments))
      (append_ne_append _ hmetadata) with hsame | ⟨-, ⟨parents, other, heq, hending⟩, -⟩
    · exact hsame
    · obtain ⟨-, hother⟩ := List.append_inj' heq rfl
      rw [← (List.cons.inj hother).1] at hending
      exact absurd hending hsuffix

/-- Before the commit the metadata stay as they were. -/
theorem metadata_of_prepared (hprepared : merger.Prepared count start tree) :
    tree.files (Location.ofDirectory merger.directory ++ [Metadata.fileName]) =
      start.files (Location.ofDirectory merger.directory ++ [Metadata.fileName]) := by
  rcases hprepared.files_eq _ merger.metadata_ne_temporary with hsame | ⟨segments, -, heq, -⟩
  · exact hsame
  · exact absurd heq (append_ne_append _ (merger.dataName_ne_fileName segments).symm)

theorem recorded?_eq_some {metadata : Metadata} {bytes : Bytes}
    (hfile : tree.files (Location.ofDirectory merger.directory ++ [Metadata.fileName]) = some bytes)
    (hread : Metadata.ofBytes (Path.join merger.directory Metadata.fileName) bytes = .ok metadata) :
    merger.recorded? tree = some metadata := by
  unfold recorded?
  rw [hfile, Option.bind_some]
  exact Result.toOption_eq_some.mpr hread

/-- The data that the metadata name stay, unless the merge has put data of the same name in their
place. -/
theorem data_of_recorded {metadata : Metadata} {data : Bytes}
    (hrecorded : merger.recorded? start = some metadata)
    (hhead : metadata.dataFile.toList.head? ≠ some '.')
    (hmetadata : metadata.dataFile ≠ Metadata.fileName)
    (hdata : start.files (Location.ofDirectory merger.directory ++ [metadata.dataFile]) = some data)
    (hsafe : (merger.watch may count start).safe committed tree)
    (hmay : committed = true → may (.fetch merger.metadataPath) = false) :
    tree.files (Location.ofDirectory merger.directory ++ [metadata.dataFile]) = some data ∨
      ∃ segments, merger.Holds start count segments ∧
        metadata.dataFile = merger.dataName segments ∧
        tree.files (Location.ofDirectory merger.directory ++ [metadata.dataFile]) =
          some (merger.mergedCells segments).flatten := by
  cases committed with
  | false =>
    rcases hsafe.files_eq _ (ne_temporary hhead) with hsame | ⟨segments, hholds, heq, hnew⟩
    · exact .inl (hsame.trans hdata)
    · exact .inr ⟨segments, hholds, by simpa using heq, hnew⟩
  | true =>
    obtain ⟨segments, createdAt, hholds, -, hrenewed⟩ := hsafe
    by_cases hname : metadata.dataFile = merger.dataName segments
    · exact .inr ⟨segments, hholds, hname, hname ▸ hrenewed.data⟩
    · rcases hrenewed.others _ (ne_temporary hhead) (append_ne_append _ hname)
        (append_ne_append _ hmetadata) with hsame | ⟨-, -, hstale⟩
      · exact .inl (hsame.trans hdata)
      · have hspared : merger.spared may start = [metadata.dataFile] := by
          unfold spared
          rw [hmay rfl, hrecorded]
          rfl
        rw [hspared] at hstale
        exact absurd List.getLast?_concat
          (hstale _ (List.mem_cons_of_mem _ (List.mem_singleton.mpr rfl)))

end SegmentMerger

namespace QueryEngine

open IndexProgram (consults_adapt consults_bind consults_ofExcept consults_readFile)

variable {engine : QueryEngine} {tree changed : Tree}

/-! ## What is read to load an engine -/

/-- The files that an engine is loaded from, in the order in which they are opened. -/
def sources (engine : QueryEngine) : List Path :=
  [Path.join engine.root Metadata.fileName, Path.join engine.root Layout.codebookFile,
    Path.join engine.root engine.metadata.dataFile]

theorem Verified.described (hverified : engine.Verified tree) :
    tree.IsDirectory (Location.ofDirectory engine.root) ∧
      ∃ bytes, tree.files (Location.ofDirectory engine.root ++ [Metadata.fileName]) = some bytes ∧
        Metadata.ofBytes (Path.join engine.root Metadata.fileName) bytes = .ok engine.metadata := by
  have hmetadata := hverified.metadata
  rw [Metadata.runOn_load] at hmetadata
  obtain ⟨bytes, hread, hparsed⟩ := Result.bind_ok.mp (Prod.mk.inj hmetadata).1
  obtain ⟨hdirectory, hbytes⟩ := (Tree.read_join Metadata.isName_fileName).mp hread
  exact ⟨hdirectory, bytes, hbytes, hparsed⟩

/-- What the directory of a verified engine holds. -/
theorem Verified.files (hverified : engine.Verified tree)
    (hname : Path.IsName engine.metadata.dataFile) :
    tree.IsDirectory (Location.ofDirectory engine.root) ∧
      (∃ bytes, tree.files (Location.ofDirectory engine.root ++ [Metadata.fileName]) = some bytes ∧
        Metadata.ofBytes (Path.join engine.root Metadata.fileName) bytes = .ok engine.metadata) ∧
      (∃ bytes, tree.files (Location.ofDirectory engine.root ++ [Layout.codebookFile]) =
        some bytes ∧ Codebook.ofBytes bytes = .ok engine.codebook) ∧
      tree.files (Location.ofDirectory engine.root ++ [engine.metadata.dataFile]) =
        some engine.data := by
  obtain ⟨hdirectory, hdescribed⟩ := hverified.described
  obtain ⟨-, packed, hpacked, hcodebook⟩ := Codebook.load_ok.mp hverified.codebook
  obtain ⟨-, -, hdata, -⟩ := readData_ok.mp hverified.data
  exact ⟨hdirectory, hdescribed,
    ⟨packed, ((Tree.read_join Layout.isName_codebookFile).mp hpacked).2, hcodebook⟩,
    ((Tree.read_join hname).mp hdata).2⟩

/-- An engine is verified wherever its files are the same. -/
theorem Verified.of_files (hverified : engine.Verified tree)
    (hname : Path.IsName engine.metadata.dataFile)
    (hdirectory : changed.IsDirectory (Location.ofDirectory engine.root))
    (hfiles : ∀ name ∈ [Metadata.fileName, Layout.codebookFile, engine.metadata.dataFile],
      changed.files (Location.ofDirectory engine.root ++ [name]) =
        tree.files (Location.ofDirectory engine.root ++ [name])) :
    engine.Verified changed := by
  simp only [List.forall_mem_cons, List.not_mem_nil, false_imp_iff, implies_true,
    and_true] at hfiles
  obtain ⟨hsame, hkept, hheld⟩ := hfiles
  obtain ⟨-, ⟨described, hdescribed, hparsed⟩, ⟨packed, hpacked, hcodebook⟩, hdata⟩ :=
    hverified.files hname
  refine ⟨?_, hverified.valid, ?_, hverified.agrees, ?_, hverified.codes⟩
  · rw [Metadata.runOn_load,
      (Tree.read_join Metadata.isName_fileName).mpr ⟨hdirectory, hsame.trans hdescribed⟩]
    exact congrArg (·, changed) hparsed
  · exact Codebook.load_ok.mpr ⟨rfl, packed,
      (Tree.read_join Layout.isName_codebookFile).mpr ⟨hdirectory, hkept.trans hpacked⟩, hcodebook⟩
  · obtain ⟨-, hvectors, -, hchecked⟩ := readData_ok.mp hverified.data
    exact readData_ok.mpr ⟨rfl, hvectors,
      (Tree.read_join hname).mpr ⟨hdirectory, hheld.trans hdata⟩, hchecked⟩

theorem consults_readData {path : Path} {metadata : Metadata}
    (hvectors : metadata.vectorCount ≠ 0) :
    IndexProgram.Consults tree [path] (readData path metadata) := by
  unfold readData
  rw [if_neg hvectors]
  refine ⟨rfl, ?_⟩
  cases (tree.answer (.fetch path)).1 with
  | error fault => trivial
  | ok source =>
    cases source with
    | file data =>
      show StoreProgram.Consults tree [] (IndexProgram.ofExcept _ >>= fun _ ↦ pure data).run
      cases (checkData metadata data).mapError (IndexError.indexCorrupt path) with
      | error error => trivial
      | ok done => trivial
    | directory =>
      dsimp only
      split
      · trivial
      · trivial

/-- Loading opens the files of the engine and nothing else. -/
theorem consults_load (hverified : engine.Verified tree) (probes : Nat) :
    IndexProgram.Consults tree engine.sources (load engine.root probes) := by
  obtain ⟨hmetadata, hvalid, hcodebook, hagrees, hdata, hcodes⟩ := hverified
  have hvectors := (readData_ok.mp hdata).2.1
  have hload : IndexProgram.Consults tree [Path.join engine.root Metadata.fileName]
      (Metadata.load (Path.join engine.root Metadata.fileName)) := by
    rw [Metadata.runOn_load] at hmetadata
    obtain ⟨bytes, hbytes, -⟩ := Result.bind_ok.mp (Prod.mk.inj hmetadata).1
    exact consults_bind (consults_readFile _)
      ((IndexProgram.runOn_readFile _ tree).trans (Prod.ext hbytes rfl)) (consults_ofExcept _)
  have hopen : IndexProgram.Consults tree [Path.join engine.root Layout.codebookFile]
      (Codebook.load (Path.join engine.root Layout.codebookFile)) := by
    obtain ⟨-, bytes, hbytes, -⟩ := Codebook.load_ok.mp hcodebook
    exact consults_bind (consults_readFile _)
      ((IndexProgram.runOn_readFile _ tree).trans (Prod.ext hbytes rfl)) (consults_ofExcept _)
  have hok : ∀ {result : Except String Unit} {wrap : String → IndexError}, result = .ok () →
      (IndexProgram.ofExcept (result.mapError wrap)).runOn tree = (.ok (), tree) := by
    rintro _ wrap rfl
    rfl
  unfold load
  apply consults_bind (consults_adapt hload) (runOn_adapt_ok.mpr hmetadata)
  apply consults_bind (consults_ofExcept _) (hok hvalid)
  apply consults_bind (consults_adapt hopen) (runOn_adapt_ok.mpr hcodebook)
  apply consults_bind (consults_ofExcept _) (hok hagrees)
  apply consults_bind (consults_readData hvectors) hdata
  exact consults_bind (consults_ofExcept _) (hok hcodes) trivial

/-! ## What a merge leaves to be loaded -/

section

variable {merger : SegmentMerger} {may : Action → Bool} {count : Nat} {start : Tree}
  {old : QueryEngine} {committed : Bool} {α : Type}

/-- The engine is the whole of what a merge of the segments in a store publishes. -/
def IsMerge (merger : SegmentMerger) (count : Nat) (start : Tree) (probes : Nat)
    (engine : QueryEngine) : Prop :=
  ∃ segments createdAt, merger.Holds start count segments ∧
    engine = ofMerge merger segments createdAt (max probes 1)

/-- The name of the data of an engine, as every merge gives it. -/
def IsNamed (engine : QueryEngine) : Prop :=
  engine.metadata.dataFile = Metadata.dataFileName engine.metadata.checksum

/-- The segments in a store have vectors, no directory of one counts more postings than 64 bits
hold, and data with the digest of those of the engine are those of the engine. -/
def Mergeable (merger : SegmentMerger) (count : Nat) (start : Tree) (old : QueryEngine) : Prop :=
  ∀ segments, merger.Holds start count segments →
    (∀ segment ∈ segments, segment.IsExact) ∧ SegmentMerger.totalCount segments ≠ 0 ∧
      (Fingerprint.of (merger.mergedCells segments).flatten = Fingerprint.of old.data →
        (merger.mergedCells segments).flatten = old.data)

variable (hroot : old.root = merger.directory) (hnamed : old.IsNamed)
  (hcodebook : merger.codebook = old.codebook) (hmergeable : Mergeable merger count start old)
  (hverified : old.Verified start)

theorem IsNamed.isName (hnamed : old.IsNamed) : Path.IsName old.metadata.dataFile :=
  hnamed ▸ Metadata.isName_dataFileName _

theorem IsNamed.head_ne (hnamed : old.IsNamed) :
    old.metadata.dataFile.toList.head? ≠ some '.' := by
  rw [hnamed, Metadata.head_dataFileName]
  decide

include hnamed hmergeable hverified

/-- New data that take the name of the old data are the old data. -/
theorem data_eq_of_name {segments : List Segment} (hholds : merger.Holds start count segments)
    (hname : old.metadata.dataFile = merger.dataName segments) :
    (merger.mergedCells segments).flatten = old.data := by
  apply (hmergeable segments hholds).2.2
  obtain ⟨-, -, -, hchecked⟩ := readData_ok.mp hverified.data
  rw [(checkData_eq_ok.mp hchecked).2]
  exact (Metadata.dataFileName_injective (hnamed.symm.trans hname)).symm

include hroot

/-- The old data stay for as long as there may be a reader who knows of them. -/
theorem data_of_safe (hsafe : (merger.watch may count start).safe committed tree)
    (hmay : committed = true → may (.fetch merger.metadataPath) = false) :
    tree.files (Location.ofDirectory merger.directory ++ [old.metadata.dataFile]) =
      some old.data := by
  obtain ⟨-, ⟨described, hdescribed, hparsed⟩, -, hdata⟩ := hverified.files hnamed.isName
  rw [hroot] at hdescribed hparsed hdata
  have hrecorded := SegmentMerger.recorded?_eq_some hdescribed hparsed
  rcases SegmentMerger.data_of_recorded hrecorded hnamed.head_ne
    (hnamed ▸ Metadata.dataFileName_ne_fileName _) hdata hsafe hmay with
    hsame | ⟨segments, hholds, hname, hnew⟩
  · exact hsame
  · rw [hnew, data_eq_of_name hnamed hmergeable hverified hholds hname]

/-- Before the commit the old index is loaded. -/
theorem verified_of_prepared (hprepared : merger.Prepared count start tree) :
    old.Verified tree := by
  have hsafe : (merger.watch (fun _ ↦ true) count start).safe false tree := hprepared
  obtain ⟨hdirectory, -, -, hdata⟩ := hverified.files hnamed.isName
  apply hverified.of_files hnamed.isName (hprepared.directories _ hdirectory)
  simp only [List.forall_mem_cons, List.not_mem_nil, false_imp_iff, implies_true, and_true]
  refine ⟨?_, ?_, ?_⟩
  · rw [hroot]
    exact SegmentMerger.metadata_of_prepared hprepared
  · rw [hroot]
    exact SegmentMerger.files_of_safe hsafe (by decide) (by decide)
      Layout.not_dataSuffix_codebookFile
  · rw [hdata, hroot]
    exact data_of_safe hroot hnamed hmergeable hverified hsafe nofun

include hcodebook in
/-- After the commit the new index is loaded. -/
theorem verified_of_committed (hsafe : (merger.watch may count start).safe true tree)
    (probes : Nat) :
    ∃ engine : QueryEngine, IsMerge merger count start probes engine ∧ engine.Verified tree := by
  obtain ⟨segments, createdAt, hholds, htiling, hrenewed⟩ := id hsafe
  obtain ⟨hexact, hvectors, -⟩ := hmergeable segments hholds
  obtain ⟨-, -, ⟨packed, hpacked, hparsed⟩, -⟩ := hverified.files hnamed.isName
  rw [hroot] at hpacked
  have hkept := SegmentMerger.files_of_safe hsafe
    (show Layout.codebookFile.toList.head? ≠ some '.' by decide) (by decide)
    Layout.not_dataSuffix_codebookFile
  refine ⟨_, ⟨segments, createdAt, hholds, rfl⟩,
    verified_ofMerge hholds hexact htiling hvectors ?_ ?_ ?_ _⟩
  · exact Codebook.load_ok.mpr ⟨rfl, packed, (Tree.read_join Layout.isName_codebookFile).mpr
      ⟨hrenewed.directory, hkept.trans hpacked⟩, hcodebook ▸ hparsed⟩
  · exact (Tree.read_join Metadata.isName_fileName).mpr ⟨hrenewed.directory, hrenewed.metadata⟩
  · exact (Tree.read_join (merger.isName_dataName segments)).mpr
      ⟨hrenewed.directory, hrenewed.data⟩

omit hmergeable in
/-- A loader that begins where an engine is verified gets that engine, if no later store has other
data in their place. -/
theorem eq_of_meets {engine : QueryEngine} (hdirectory : engine.root = merger.directory)
    (hname : Path.IsName engine.metadata.dataFile) (hengine : engine.Verified tree)
    (hdata : ∀ later final, committed ≤ later → (merger.watch may count start).safe later final →
      final.files (Location.ofDirectory merger.directory ++ [engine.metadata.dataFile]) =
        some engine.data)
    {property : α → Bool → Tree → Prop} {writer : StoreProgram α} {probes : Nat}
    (hprobes : engine.probes = max probes 1) {action : Action}
    {next : action.Answer → StoreProgram (Except IndexError QueryEngine)}
    {result : Except IndexError QueryEngine}
    (hload : (load merger.directory probes).run = .act action next)
    (hmeets : writer.Meets may (next (tree.answer action).1) (tree.answer action).2 result)
    (hwriter : writer.Withstands (merger.watch may count start) property committed tree)
    (hsafe : (merger.watch may count start).safe committed tree) :
    result = .ok engine := by
  have hconsults := consults_load hengine probes
  have hrun := load_ok.mpr ⟨rfl, hdirectory, hprobes, hengine⟩
  unfold IndexProgram.Consults at hconsults
  rw [hdirectory, hload] at hconsults
  obtain ⟨rfl, hnext⟩ := hconsults
  have hanswer : (StoreProgram.run (next (tree.answer (.fetch _)).1) tree).1 = .ok engine := by
    have hsame := congrArg (fun program ↦ (StoreProgram.run program tree).1) hload
    exact hsame.symm.trans (congrArg Prod.fst hrun)
  rw [← hanswer]
  apply hmeets.eq_run hwriter hsafe hnext
  intro later final hlater hfinal path hpath
  obtain ⟨hthere, -, ⟨packed, hpacked, -⟩, hheld⟩ := hengine.files hname
  obtain ⟨hstart, -⟩ := hverified.files hnamed.isName
  rw [hdirectory] at hthere hpacked hheld
  rw [hroot] at hstart
  have hstill := SegmentMerger.directories_of_safe hfinal hstart
  have hkept : final.files (Location.ofDirectory merger.directory ++ [Layout.codebookFile]) =
      tree.files (Location.ofDirectory merger.directory ++ [Layout.codebookFile]) := by
    have hhead : Layout.codebookFile.toList.head? ≠ some '.' := by decide
    rw [SegmentMerger.files_of_safe hfinal hhead (by decide) Layout.not_dataSuffix_codebookFile,
      SegmentMerger.files_of_safe hsafe hhead (by decide) Layout.not_dataSuffix_codebookFile]
  have hfetch : ∀ {name : String} {contents : Bytes}, Path.IsName name →
      tree.files (Location.ofDirectory merger.directory ++ [name]) = some contents →
        final.files (Location.ofDirectory merger.directory ++ [name]) = some contents →
          (final.answer (.fetch (Path.join engine.root name))).1 =
            (tree.answer (.fetch (Path.join engine.root name))).1 := by
    intro name contents hname hbefore hafter
    rw [hdirectory, Tree.fetch_eq_ok.mpr ((Tree.read_join hname).mpr ⟨hthere, hbefore⟩)]
    exact Tree.fetch_eq_ok.mpr ((Tree.read_join hname).mpr ⟨hstill, hafter⟩)
  simp only [List.mem_cons, List.not_mem_nil, or_false] at hpath
  rcases hpath with rfl | rfl
  · exact hfetch Layout.isName_codebookFile hpacked (hkept.trans hpacked)
  · exact hfetch hname hheld (hdata later final hlater hfinal)

include hcodebook in
/-- A loader that reads while the merge runs gets the old index or the new one. -/
theorem load_of_meets (hmay : may (.fetch merger.metadataPath) = false) {probes : Nat}
    (hprobes : old.probes = max probes 1) {property : α → Bool → Tree → Prop}
    {writer : StoreProgram α} {result : Except IndexError QueryEngine}
    (hmeets : writer.Meets may (load merger.directory probes).run tree result)
    (hwriter : writer.Withstands (merger.watch may count start) property committed tree)
    (hsafe : (merger.watch may count start).safe committed tree) :
    result = .ok old ∨
      ∃ engine, IsMerge merger count start probes engine ∧ result = .ok engine := by
  generalize hreader : (load merger.directory probes).run = reader at hmeets
  induction hmeets generalizing committed with
  | done writer value tree => nomatch hreader
  | @reads writer action next tree value hrest ih =>
    -- the metadata that are read now decide which of the two indexes is loaded
    cases committed with
    | false =>
      have hprepared := verified_of_prepared hroot hnamed hmergeable hverified hsafe
      refine .inl (eq_of_meets hroot hnamed hverified hroot hnamed.isName hprepared ?_
        hprobes hreader hrest hwriter hsafe)
      exact fun later final _ hfinal ↦
        data_of_safe hroot hnamed hmergeable hverified hfinal fun _ ↦ hmay
    | true =>
      obtain ⟨_, ⟨segments, createdAt, hholds, rfl⟩, hrenewed⟩ :=
        verified_of_committed hroot hnamed hcodebook hmergeable hverified hsafe probes
      refine .inr ⟨_, ⟨segments, createdAt, hholds, rfl⟩, eq_of_meets hroot hnamed hverified rfl
        (merger.isName_dataName segments) hrenewed ?_ rfl hreader hrest hwriter hsafe⟩
      intro later final hlater hfinal
      obtain rfl : later = true := hlater rfl
      obtain ⟨others, moment, hothers, -, hlast⟩ := hfinal
      obtain rfl := hothers.unique hholds
      exact hlast.data
  | writes hattempt hrest ih =>
    obtain ⟨hsafe, hnext⟩ := hwriter _ _ hattempt
    exact ih hnext hsafe hreader

end

/-- A merge into the directory of an index may fail in any action, or be cut off between any two.
The directory can be loaded afterwards: until the metadata are moved to their name the old index is
found, and from then on the whole new one, which is named as the old one was and can take its place
when the next merge begins. A loader that opens its files while the merge runs gets one of the two;
only a merge that is refused the old metadata, and so does not know of their data, may take the data
from it. A merge that succeeds, and is refused nothing that it needs to find and to remove stale
data, leaves no data files but those named by its metadata and by the replaced ones, whatever
earlier merges have left. -/
theorem load_interrupted {merger : SegmentMerger} {order : List PartitionIndex} {start : Tree}
    {old : QueryEngine} {probes : Nat}
    (hload : (load merger.directory probes).runOn start = (.ok old, start)) (hnamed : old.IsNamed)
    (hcodebook : merger.codebook = old.codebook)
    (hmergeable : Mergeable merger order.length start old) :
    (∀ may history program tree,
      (merger.mergeInOrder order).run.Reaches may start history program tree →
        ∃ engine, (load merger.directory probes).runOn tree = (.ok engine, tree) ∧
          if history.any (Event.commits merger.metadataPath) then
            engine.IsNamed ∧ engine.codebook = merger.codebook ∧
              IsMerge merger order.length start probes engine
          else engine = old) ∧
    (∀ may result, may (.fetch merger.metadataPath) = false →
      (merger.mergeInOrder order).run.Meets may (load merger.directory probes).run start result →
        result = .ok old ∨
          ∃ engine, IsMerge merger order.length start probes engine ∧ result = .ok engine) ∧
    ∀ may history metadata tree, merger.Clears may →
      (merger.mergeInOrder order).run.Reaches may start history (.done (.ok metadata)) tree →
        merger.Cleared start metadata tree := by
  obtain ⟨-, hroot, hprobes, hverified⟩ := load_ok.mp hload
  have hstart : ∀ may, (merger.watch may order.length start).safe false start :=
    fun _ ↦ merger.prepared_self order.length start
  refine ⟨?_, ?_, ?_⟩
  · intro may history program tree hreaches
    obtain ⟨hsafe, -⟩ :=
      (merger.mergeInOrder_withstands may order start).reaches (hstart may) hreaches
    rw [Bool.false_or] at hsafe
    cases hcommits : history.any (Event.commits merger.metadataPath) with
    | false =>
      rw [show (merger.watch may order.length start).target = merger.metadataPath from rfl,
        hcommits] at hsafe
      have hprepared := verified_of_prepared hroot hnamed hmergeable hverified hsafe
      exact ⟨old, load_ok.mpr ⟨rfl, hroot, hprobes, hprepared⟩, rfl⟩
    | true =>
      rw [show (merger.watch may order.length start).target = merger.metadataPath from rfl,
        hcommits] at hsafe
      obtain ⟨_, ⟨segments, createdAt, hholds, rfl⟩, hrenewed⟩ :=
        verified_of_committed hroot hnamed hcodebook hmergeable hverified hsafe probes
      exact ⟨_, load_ok.mpr ⟨rfl, rfl, rfl, hrenewed⟩, rfl, rfl, segments, createdAt, hholds, rfl⟩
  · intro may result hmay hmeets
    exact load_of_meets hroot hnamed hcodebook hmergeable hverified hmay hprobes hmeets
      (merger.mergeInOrder_withstands may order start) (hstart may)
  · intro may history metadata tree hclears hreaches
    obtain ⟨-, hcleared⟩ :=
      (merger.mergeInOrder_withstands may order start).reaches (hstart may) hreaches
    exact hcleared metadata rfl hclears

/-- The small index is merged once more: whatever happens, its two documents can be found. -/
theorem load_interrupted_small : ∃ start old,
    (load "index" 4).runOn start = (.ok old, start) ∧
      ∀ may history program tree,
        (SegmentMerger.mergeInOrder ⟨"index", SegmentMerger.smallCodebook⟩ [0]).run.Reaches
          may start history program tree →
            ∃ engine, (load "index" 4).runOn tree = (.ok engine, tree) ∧
              engine.metadata.vectorCount = 2 := by
  obtain ⟨start, segments, createdAt, hholds, hexact, htotal, hload⟩ := exists_small_engine
  generalize hmerger : (⟨"index", SegmentMerger.smallCodebook⟩ : SegmentMerger) = merger
    at hholds hload ⊢
  have hroot : merger.directory = "index" := by rw [← hmerger]
  have hmergeable : Mergeable merger [0].length start (ofMerge merger segments createdAt 4) := by
    intro others hothers
    obtain rfl := hothers.unique hholds
    exact ⟨hexact, by omega, fun _ ↦ rfl⟩
  rw [← hroot] at hload ⊢
  refine ⟨start, _, hload, fun may history program tree hreaches ↦ ?_⟩
  obtain ⟨hloads, -⟩ := load_interrupted hload rfl rfl hmergeable
  obtain ⟨engine, hengine, hwhich⟩ := hloads may history program tree hreaches
  refine ⟨engine, hengine, ?_⟩
  split at hwhich
  · obtain ⟨-, -, others, moment, hothers, rfl⟩ := hwhich
    obtain rfl := hothers.unique hholds
    exact htotal
  · rw [hwhich]
    exact htotal

/-! ## Metadata that do not fit their data -/

theorem eq_covered_of_checkExtents {count offset : Nat} {cell : CellId} {cells : List CellExtent}
    (hexact : offset + Metadata.covered cells < 0x10000000000000000)
    (hcheck : Metadata.checkExtents count cell offset cells = .ok ()) :
    offset + Metadata.covered cells = count := by
  induction cells generalizing cell offset with
  | nil =>
    rw [Metadata.checkExtents] at hcheck
    split at hcheck
    · assumption
    · cases hcheck
  | cons extent rest ih =>
    obtain ⟨-, hrest⟩ := (Metadata.checkExtents_cons_eq_ok hexact).mp hcheck
    rw [Metadata.covered, ← Nat.add_assoc] at hexact ⊢
    exact ih hexact hrest

/-- A merge whose extents do not total to its vectors leaves nothing to be loaded. -/
theorem load_ne_ok_of_covered {merger : SegmentMerger} {order : List PartitionIndex}
    {metadata : Metadata} {start changed final : Tree} {engine : QueryEngine} {bytes : Bytes}
    (hmerge : (merger.mergeInOrder order).runOn start = (.ok metadata, changed))
    (hcodebook : Codebook.ofBytes bytes = .ok merger.codebook)
    (hexact : Metadata.covered metadata.cells < 0x10000000000000000)
    (hcovered : Metadata.covered metadata.cells ≠ metadata.vectorCount) (probes : Nat) :
    (load merger.directory probes).runOn changed ≠ (.ok engine, final) := by
  intro hload
  obtain ⟨rfl, hroot, -, hverified⟩ := load_ok.mp hload
  obtain ⟨-, segments, hholds, hsegments⟩ := SegmentMerger.mergeInOrder_ok.mp hmerge
  obtain ⟨htiling, ⟨createdAt, rfl⟩, hpublishes⟩ := SegmentMerger.mergeSegments_ok hsegments
  have hfits := SegmentMerger.fitsFields_describe hholds.sound htiling hexact hcodebook
  obtain ⟨-, found, hfound, hparsed⟩ := hverified.described
  rw [hroot, hpublishes.metadata_eq] at hfound
  obtain rfl := Option.some.inj hfound
  rw [Metadata.ofBytes_toBytes hfits] at hparsed
  obtain ⟨-, -, hextents, -⟩ := Metadata.validate_eq_ok.mp hverified.valid
  rw [← Except.ok.inj hparsed] at hextents
  exact hcovered ((Nat.zero_add _).symm.trans
    (eq_covered_of_checkExtents (by rwa [Nat.zero_add]) hextents))

/-- A segment that counts more postings than 64 bits hold is merged to what cannot be loaded. -/
theorem exists_unloadable_merge : ∃ start metadata changed,
    (SegmentMerger.mergeInOrder ⟨"index", SegmentMerger.smallCodebook⟩ [0]).runOn start =
        (.ok metadata, changed) ∧ metadata.vectorCount = 1 ∧
      ∀ engine, (load "index" 4).runOn changed ≠ (.ok engine, changed) := by
  obtain ⟨metadata, changed, hrun, hcount, hcovered⟩ :=
    SegmentMerger.exists_wrapping_merge
  have hbelow : Metadata.covered metadata.cells < 0x10000000000000000 := by
    rw [hcovered]
    decide
  exact ⟨_, metadata, changed, hrun, hcount, fun engine ↦
    load_ne_ok_of_covered hrun ofBytes_smallCodebook hbelow (by omega) 4⟩

/-! ## A data file under the name of others -/

/-- Between its data and its metadata a merge leaves nothing to be loaded when the new data have the
name of the old ones, but not their digest. -/
theorem load_ne_ok_of_halfPublished {merger : SegmentMerger} {metadata : Metadata}
    {start changed final : Tree} {old engine : QueryEngine} (hverified : old.Verified start)
    (hroot : old.root = merger.directory) (hhalf : merger.HalfPublished metadata start changed)
    (hname : Path.IsName metadata.dataFile) (hfile : old.metadata.dataFile = metadata.dataFile)
    (hchecksum : old.metadata.checksum ≠ metadata.checksum) (probes : Nat) :
    (load merger.directory probes).runOn changed ≠ (.ok engine, final) := by
  intro hload
  obtain ⟨rfl, hengine, -, hnow⟩ := load_ok.mp hload
  -- the metadata that are found are the old ones
  obtain ⟨-, bytes, hbytes, hparsed⟩ := hverified.described
  obtain ⟨-, found, hfound, hagain⟩ := hnow.described
  rw [hroot] at hbytes hparsed
  rw [hengine, hhalf.metadata, hbytes] at hfound
  obtain rfl := Option.some.inj hfound
  rw [hengine, hparsed] at hagain
  have hsame := Except.ok.inj hagain
  -- and the data that they name are the new ones
  obtain ⟨-, -, hread, hchecked⟩ := readData_ok.mp hnow.data
  rw [hengine, ← hsame, hfile, Tree.read_join hname] at hread
  rw [← hsame, checkData_eq_ok] at hchecked
  obtain ⟨data, hdata, hheld⟩ := hhalf.data
  obtain rfl := Option.some.inj (hread.2.symm.trans hheld)
  exact hchecksum (hchecked.2.symm.trans hdata)

/-- Metadata whose data are named as those of the segment `SegmentMerger.pairedDraft 0` will be. -/
def misnamedMetadata : Metadata :=
  soleMetadata "merged-1149339a8a18971abd38345a593debc5e4b411895d5a5f40e2762eddee69e4ac.ivfdata"
    [⟨0, 1⟩, ⟨1, 0⟩]

/-- The index in the working directory, beside that segment and a data file that no metadata
name. -/
def misnamedTree : Tree :=
  ⟨[(["segment_0.seg"], .file (SegmentMerger.pairedDraft 0).toBytes 0),
    ([Layout.codebookFile], .file SegmentMerger.smallCodebook.toBytes 0),
    ([Metadata.fileName], .file misnamedMetadata.toBytes 0),
    ([misnamedMetadata.dataFile], .file (Posting.toBytes ⟨0, [1]⟩) 0),
    (["merged-0.ivfdata"], .file [] 0)], 0⟩

theorem fitsFields_misnamed : misnamedMetadata.FitsFields := by
  constructor
  all_goals decide

def misnamedEngine : QueryEngine :=
  ⟨"", misnamedMetadata, SegmentMerger.smallCodebook, Posting.toBytes ⟨0, [1]⟩, 4⟩

theorem load_misnamed : (load "" 4).runOn misnamedTree = (.ok misnamedEngine, misnamedTree) :=
  load_sole fitsFields_misnamed (by decide +kernel) rfl rfl (Tree.read_ok.mpr ⟨0, by rfl⟩)

/-- The digest of what will be merged. -/
def misnamedChecksum : Fingerprint :=
  .of (SegmentMerger.mergedCells ⟨"", SegmentMerger.smallCodebook⟩
    [.fromBytes (segmentPath "" 0) (SegmentMerger.pairedDraft 0).toBytes]).flatten

/-- What the merge of the segment comes to. -/
theorem exists_misnamed_merge : ∃ metadata changed,
    (SegmentMerger.mergeInOrder ⟨"", SegmentMerger.smallCodebook⟩ [0]).runOn misnamedTree =
        (.ok metadata, changed) ∧ metadata.vectorCount = 2 ∧
      metadata.dataFile = misnamedMetadata.dataFile ∧
      metadata.checksum ≠ misnamedMetadata.checksum ∧
      changed.files ["merged-0.ivfdata"] = some [] := by
  have hhosts : misnamedTree.Hosts (SegmentMerger.mk "" SegmentMerger.smallCodebook).directory :=
    Tree.hosts_of_entries (by decide)
  obtain ⟨createdAt, changed, hmerge, -⟩ := SegmentMerger.exists_sole_merge hhosts rfl
    (by decide +kernel) (by decide +kernel) (by decide +kernel)
  obtain ⟨-, segments, -, hsegments⟩ := SegmentMerger.mergeInOrder_ok.mp hmerge
  obtain ⟨hfile, hchecksum⟩ : Metadata.dataFileName misnamedChecksum = misnamedMetadata.dataFile ∧
      misnamedChecksum ≠ misnamedMetadata.checksum := by
    decide +kernel
  refine ⟨_, changed, hmerge, rfl, hfile, hchecksum, ?_⟩
  refine SegmentMerger.files_of_mergeSegments_empty hsegments (fun hsame ↦ ?_) (by decide)
  exact absurd ((List.cons.inj hsame).1.trans hfile) (by decide)

/-- Between its two renamings the merge leaves nothing to be loaded. -/
theorem passes_misnamed : ∃ history program tree,
    (SegmentMerger.mergeInOrder ⟨"", SegmentMerger.smallCodebook⟩ [0]).run.Reaches
      (fun _ ↦ false) misnamedTree history program tree ∧
        ∀ engine, (load "" 4).runOn tree ≠ (.ok engine, tree) := by
  obtain ⟨metadata, changed, hrun, -, hfile, hchecksum, -⟩ := exists_misnamed_merge
  have hverified := (load_ok.mp load_misnamed).2.2.2
  have hname : Path.IsName misnamedMetadata.dataFile := Path.isName_of_length (by decide) (by decide)
  obtain ⟨history, program, tree, hreaches, hhalf⟩ := SegmentMerger.mergeInOrder_passes hrun
  exact ⟨history, program, tree, hreaches, fun engine ↦ load_ne_ok_of_halfPublished hverified rfl
    hhalf (hfile ▸ hname) hfile.symm hchecksum.symm 4⟩

/-- The merge succeeds and leaves a data file that neither metadata name. -/
theorem exists_orphan_of_misnamed : ∃ history metadata tree,
    (SegmentMerger.mergeInOrder ⟨"", SegmentMerger.smallCodebook⟩ [0]).run.Reaches
      (fun _ ↦ false) misnamedTree history (.done (.ok metadata)) tree ∧
        metadata.vectorCount = 2 ∧
          ¬ SegmentMerger.Cleared ⟨"", SegmentMerger.smallCodebook⟩ misnamedTree metadata tree := by
  obtain ⟨metadata, changed, hrun, hcount, hfile, -, hleft⟩ := exists_misnamed_merge
  obtain ⟨history, hreaches⟩ := StoreProgram.exists_reaches_run (fun _ ↦ false)
    (SegmentMerger.mergeInOrder ⟨"", SegmentMerger.smallCodebook⟩ [0]).run misnamedTree
  have hdone : StoreProgram.run
      (SegmentMerger.mergeInOrder ⟨"", SegmentMerger.smallCodebook⟩ [0]).run misnamedTree =
        (.ok metadata, changed) := hrun
  rw [hdone] at hreaches
  refine ⟨history, metadata, changed, hreaches, hcount, fun hcleared ↦ ?_⟩
  have hname : Path.IsName "merged-0.ivfdata" := Path.isName_of_length (by decide) (by decide)
  have hother : "merged-0.ivfdata" ≠ misnamedMetadata.dataFile := by decide
  have hthere : changed.files (Location.ofDirectory "" ++ ["merged-0.ivfdata"]) ≠ none := by
    rw [show Location.ofDirectory "" ++ ["merged-0.ivfdata"] = ["merged-0.ivfdata"] from rfl, hleft]
    exact Option.some_ne_none _
  rcases hcleared "merged-0.ivfdata" hname (by decide) hthere with
    hnew | ⟨replaced, hreplaced, hold⟩
  · exact hother (hnew.trans hfile)
  · have hrecorded : SegmentMerger.recorded? ⟨"", SegmentMerger.smallCodebook⟩ misnamedTree =
        some misnamedMetadata :=
      SegmentMerger.recorded?_eq_some rfl (Metadata.ofBytes_toBytes fitsFields_misnamed _)
    rw [hrecorded] at hreplaced
    exact hother (hold.trans (Option.some.inj hreplaced ▸ rfl))

/-- The empty path of the working directory cannot be listed, and the data of the index in it have
the name that the merged data take. Cut off between the two renamings the merge leaves nothing that
can be loaded, and when it succeeds it leaves a data file that neither metadata name. -/
theorem not_recovered_of_misnamed : ∃ start old,
    (load "" 4).runOn start = (.ok old, start) ∧ old.codebook = SegmentMerger.smallCodebook ∧
      (∃ history program tree,
        (SegmentMerger.mergeInOrder ⟨"", SegmentMerger.smallCodebook⟩ [0]).run.Reaches
          (fun _ ↦ false) start history program tree ∧
            ∀ engine, (load "" 4).runOn tree ≠ (.ok engine, tree)) ∧
      ∃ history metadata tree,
        (SegmentMerger.mergeInOrder ⟨"", SegmentMerger.smallCodebook⟩ [0]).run.Reaches
          (fun _ ↦ false) start history (.done (.ok metadata)) tree ∧ metadata.vectorCount = 2 ∧
            ¬ SegmentMerger.Cleared ⟨"", SegmentMerger.smallCodebook⟩ start metadata tree :=
  ⟨misnamedTree, misnamedEngine, load_misnamed, rfl, passes_misnamed, exists_orphan_of_misnamed⟩

end QueryEngine

end VectorIndex
