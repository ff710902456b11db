import VectorIndex.Proofs.Build.Success
import VectorIndex.Proofs.Search.Bounds
import VectorIndex.Proofs.Search.Watching

/-!
# The mapping of a service

A service keeps the mapping that it has read until an engine comes with another number of vectors.
Every mapping that it keeps is that of a corpus which was built into its directory, but a build of
as many records as before goes unnoticed, so the kept mapping can be that of an earlier corpus.
-/

namespace VectorIndex

namespace QueryEngine

variable {engine : QueryEngine} {tree : Tree} {query : Vec}

theorem checkMapping_eq_ok {mapping : IdMapping} :
    engine.checkMapping mapping = .ok () ↔ mapping.size = engine.metadata.vectorCount := by
  unfold checkMapping
  split <;> simp [*]

/-- What is found is stored in the data. -/
theorem exists_posting_of_search {k : Nat} {probes : Option Nat} {hits : List SearchHit}
    (hsearch : engine.search query k probes = .ok hits) :
    ∀ hit ∈ hits, ∃ cell, ∃ posting ∈ engine.postings cell, hit.id = posting.id := by
  intro hit hhit
  obtain ⟨hquery, ⟨-, rfl⟩ | ⟨⟨table, htable⟩, hreaches⟩⟩ := exists_table_of_search hsearch
  · cases hhit
  obtain rfl := Except.ok.inj
    ((search_eq_take hquery htable k probes hreaches).symm.trans hsearch)
  have hcandidate := (SearchHit.insertAll_nil_perm _).mem_iff.mp (List.mem_of_mem_take hhit)
  obtain ⟨⟨cell, coarse⟩, -, hscored⟩ := List.mem_flatMap.mp hcandidate
  obtain ⟨posting, hposting, rfl⟩ := List.mem_map.mp hscored
  exact ⟨cell, posting, hposting, rfl⟩

/-- An engine that holds what is in the directory of an index finds documents of that index. -/
theorem Verified.lt_of_search (hverified : engine.Verified tree) {records : List Record}
    (hindexes : (Layout.mk engine.root).Indexes tree records) {k : Nat} {probes : Option Nat}
    {hits : List SearchHit} (hsearch : engine.search query k probes = .ok hits) :
    engine.metadata.vectorCount = records.length ∧ ∀ hit ∈ hits, hit.id < records.length := by
  obtain ⟨metadata, data, hmetadata, hfits, hexact, hname, hdata, hcount, hids⟩ :=
    hindexes.index
  have hread := hverified.metadata
  rw [Metadata.runOn_load, (Tree.read_join Metadata.isName_fileName).mpr
    ⟨hindexes.directory, hmetadata⟩] at hread
  have hparsed : Metadata.ofBytes (Path.join engine.root Metadata.fileName) metadata.toBytes =
      .ok engine.metadata := (Prod.mk.inj hread).1
  rw [Metadata.ofBytes_toBytes hfits] at hparsed
  obtain rfl := Except.ok.inj hparsed
  obtain ⟨-, -, -, hheld⟩ := hverified.files hname
  obtain rfl := Option.some.inj (hdata.symm.trans hheld)
  refine ⟨hcount, fun hit hhit ↦ ?_⟩
  obtain ⟨cell, posting, hposting, hid⟩ := exists_posting_of_search hsearch hit hhit
  rw [hid]
  exact hids (Nat.le_of_eq (hverified.length_data_eq hexact)) posting
    (hverified.postings_subset hexact cell hposting)

end QueryEngine

/-! ## What a query does to a service -/

namespace QueryService

open IndexProgram (OnlyReads onlyReads_bind onlyReads_fetch onlyReads_lift onlyReads_ofExcept
  runOn_bind_ok runOn_lift_ok runOn_pure_ok)

variable {service later : QueryService} {engine : QueryEngine} {tree changed : Tree} {path : Path}
  {found : Option IdMapping}

/-- The mapping at hand has one entry for each vector. -/
def Fits (service : QueryService) (engine : QueryEngine) : Prop :=
  ∃ mapping, service.mapping = some mapping ∧ mapping.size = engine.metadata.vectorCount

theorem loadMapping_onlyReads (source : Path) : OnlyReads (IdMapping.load source) := by
  refine onlyReads_bind (onlyReads_fetch source) fun _ ↦
    onlyReads_bind (onlyReads_ofExcept _) fun found ↦ ?_
  cases found.read with
  | error fault => trivial
  | ok contents =>
    dsimp only
    split
    · trivial
    · trivial

theorem mappingFor_onlyReads (service : QueryService) (engine : QueryEngine) :
    OnlyReads (service.mappingFor engine) := by
  unfold mappingFor
  cases service.mappingPath with
  | none => trivial
  | some source =>
    refine onlyReads_bind (onlyReads_lift (Shard.exists?_onlyReads source)) fun present ↦ ?_
    split
    · exact onlyReads_bind (loadMapping_onlyReads source) fun _ ↦ trivial
    · trivial

/-- The mapping at hand is kept when it fits or there is none on disk. -/
theorem mappingFor_ok (hpath : service.mappingPath = some path)
    (hrun : (service.mappingFor engine).runOn tree = (.ok found, changed)) :
    changed = tree ∧
      ((service.Fits engine ∨ (tree.answer (.inspect path)).1 = none) ∧ found = service.mapping ∨
        ¬ service.Fits engine ∧ ∃ mapping, (IdMapping.load path).runOn tree = (.ok mapping, tree) ∧
          found = some mapping) := by
  unfold mappingFor at hrun
  rw [hpath] at hrun
  obtain ⟨present, _, hpresent, hrun⟩ := runOn_bind_ok.mp hrun
  rw [runOn_lift_ok, SegmentMerger.run_exists?] at hpresent
  obtain ⟨rfl, rfl⟩ := hpresent
  have hany : service.mapping.any (fun mapping ↦ mapping.size = engine.metadata.vectorCount) = true ↔
      service.Fits engine := by
    unfold Fits
    cases service.mapping with
    | none => simp
    | some mapping => simp
  by_cases hfits : service.Fits engine
  · rw [hany.mpr hfits] at hrun
    obtain ⟨rfl, rfl⟩ := runOn_pure_ok.mp hrun
    exact ⟨rfl, .inl ⟨.inl hfits, rfl⟩⟩
  · rw [Bool.eq_false_iff.mpr (mt hany.mp hfits)] at hrun
    cases hpresent : (tree.answer (.inspect path)).1 with
    | none =>
      rw [hpresent] at hrun
      obtain ⟨rfl, rfl⟩ := runOn_pure_ok.mp hrun
      exact ⟨rfl, .inl ⟨.inr rfl, rfl⟩⟩
    | some kind =>
      rw [hpresent] at hrun
      obtain ⟨mapping, _, hload, hlast⟩ := runOn_bind_ok.mp hrun
      obtain ⟨rfl, rfl⟩ := runOn_pure_ok.mp hlast
      obtain ⟨rfl, -⟩ := IdMapping.load_ok.mp hload
      exact ⟨rfl, .inr ⟨hfits, mapping, hload, rfl⟩⟩

/-- What a query for a text can come to. -/
inductive Searched (service : QueryService) (engine : QueryEngine) (k : Nat) (tree : Tree) :
    Except IndexError (List ExternalHit) → QueryService → Prop
  | failed {error : IndexError} : Searched service engine k tree (.error error) service
  | numbered {query : Vec} (hmapping : (service.mappingFor engine).runOn tree = (.ok none, tree)) :
    Searched service engine k tree
      ((engine.search query k none).map (·.map (ExternalHit.resolve none))) service
  | named {query : Vec} {mapping : IdMapping}
    (hmapping : (service.mappingFor engine).runOn tree = (.ok (some mapping), tree)) :
    Searched service engine k tree (engine.searchExternal query k none mapping)
      (service.withMapping mapping)

theorem searched_of_run {text : String} {k : Nat} {result : Except IndexError (List ExternalHit)}
    (hrun : (service.searchText engine text k).run tree = ((result, later), changed)) :
    changed = tree ∧ service.Searched engine k tree result later := by
  unfold searchText at hrun
  cases hquery : service.encodeQuery text with
  | error error =>
    rw [hquery] at hrun
    cases hrun
    exact ⟨rfl, .failed⟩
  | ok query =>
    rw [hquery] at hrun
    dsimp only at hrun
    rw [StoreProgram.run_bind, IndexProgram.run_attempt] at hrun
    have hstays := (service.mappingFor_onlyReads engine).run tree
    rcases hmapping : (service.mappingFor engine).runOn tree with ⟨outcome, between⟩
    obtain rfl : between = tree := (congrArg Prod.snd hmapping).symm.trans hstays
    rw [hmapping] at hrun
    cases outcome with
    | error error =>
      cases hrun
      exact ⟨rfl, .failed⟩
    | ok found =>
      cases found with
      | none =>
        cases hrun
        exact ⟨rfl, .numbered hmapping⟩
      | some mapping =>
        cases hrun
        exact ⟨rfl, .named hmapping⟩

theorem Searched.mappingPath_eq {k : Nat} {result : Except IndexError (List ExternalHit)}
    (hsearched : service.Searched engine k tree result later) :
    later.mappingPath = service.mappingPath := by
  cases hsearched <;> rfl

/-- A new service holds what is in the file of its mapping, or nothing when there is no file. -/
theorem withMappingFrom_ok {encoder : Encoder}
    (hrun : ((ofEncoder encoder).withMappingFrom path).runOn tree = (.ok service, changed)) :
    changed = tree ∧ service.mappingPath = some path ∧
      ∀ mapping, service.mapping = some mapping →
        (IdMapping.load path).runOn tree = (.ok mapping, tree) := by
  unfold withMappingFrom at hrun
  obtain ⟨present, _, hpresent, hrun⟩ := runOn_bind_ok.mp hrun
  rw [runOn_lift_ok, SegmentMerger.run_exists?] at hpresent
  obtain ⟨rfl, rfl⟩ := hpresent
  dsimp only at hrun
  cases hthere : (tree.answer (.inspect path)).1.isSome with
  | false =>
    rw [hthere] at hrun
    obtain ⟨rfl, rfl⟩ := runOn_pure_ok.mp hrun
    exact ⟨rfl, rfl, nofun⟩
  | true =>
    rw [hthere] at hrun
    obtain ⟨mapping, _, hload, hlast⟩ := runOn_bind_ok.mp hrun
    obtain ⟨rfl, rfl⟩ := runOn_pure_ok.mp hlast
    obtain ⟨rfl, -⟩ := IdMapping.load_ok.mp hload
    refine ⟨rfl, rfl, fun found hfound ↦ ?_⟩
    obtain rfl := Option.some.inj hfound
    exact hload

/-- A new service reads the mapping that is there. -/
theorem runOn_withMappingFrom (encoder : Encoder) {mapping : IdMapping}
    (hload : (IdMapping.load path).runOn tree = (.ok mapping, tree)) :
    ((ofEncoder encoder).withMappingFrom path).runOn tree =
      (.ok ⟨encoder, some mapping, some path⟩, tree) := by
  obtain ⟨-, contents, hread, -⟩ := IdMapping.load_ok.mp hload
  have hthere := Tree.inspect_isSome_of_read hread
  unfold withMappingFrom
  rw [IndexProgram.runOn_bind, IndexProgram.runOn_lift, SegmentMerger.run_exists?, hthere]
  dsimp only
  rw [if_pos rfl, IndexProgram.runOn_bind, hload]
  rfl

/-- With a mapping at hand that fits, a service names what the engine finds for the text. -/
theorem run_searchText_of_fits (hpath : service.mappingPath = some path) {mapping : IdMapping}
    (hheld : service.mapping = some mapping) (hsize : mapping.size = engine.metadata.vectorCount)
    {text : String} {query : Vec} (hencode : service.encodeQuery text = .ok query) {k : Nat}
    {found : List SearchHit} (hfound : engine.search query k none = .ok found) :
    (service.searchText engine text k).run tree =
      ((.ok (found.map (ExternalHit.resolve (some mapping))), service.withMapping mapping),
        tree) := by
  have hmapping : (service.mappingFor engine).runOn tree = (.ok (some mapping), tree) := by
    unfold mappingFor
    rw [hpath, hheld]
    dsimp only
    rw [IndexProgram.runOn_bind, IndexProgram.runOn_lift, SegmentMerger.run_exists?]
    simp [hsize]
  have hanswer : engine.searchExternal query k none mapping =
      .ok (found.map (ExternalHit.resolve (some mapping))) := by
    unfold QueryEngine.searchExternal
    rw [QueryEngine.checkMapping_eq_ok.mpr hsize, hfound]
    rfl
  unfold searchText
  rw [hencode]
  dsimp only
  rw [StoreProgram.run_bind, IndexProgram.run_attempt, hmapping]
  dsimp only
  rw [hanswer]
  rfl

end QueryService

/-! ## Building, reloading and searching -/

/-- A directory with the handle and the service that use it, and the records of the corpora that
were built into it, the last first. -/
structure Site where
  tree : Tree
  handle : Option IndexHandle
  service : Option QueryService
  builds : List (List Record)

/-- The hit carries the id of the record that has its number. -/
def ExternalHit.IsNamedBy (records : List Record) (hit : ExternalHit) : Prop :=
  ∃ record, records[hit.internalId]? = some record ∧ hit.id = record.externalId

theorem ExternalHit.isNamedBy_resolve {records : List Record} {hit : SearchHit}
    (hlt : hit.id < records.length) :
    (resolve (some (.ofRecords records)) hit).IsNamedBy records := by
  refine ⟨records[hit.id], List.getElem?_eq_getElem hlt, ?_⟩
  have hget : (IdMapping.ofRecords records).get? hit.id = some records[hit.id].externalId := by
    unfold IdMapping.ofRecords IdMapping.get?
    rw [List.getElem?_map, List.getElem?_eq_getElem hlt]
    rfl
  unfold resolve
  rw [Option.bind_some, hget]
  rfl

namespace Site

open IndexProgram (runOn_bind_ok runOn_pure_ok)

variable {root : Path} {site next : Site} {start changed : Tree}

/-- What may happen next. What fails leaves everything as it was. -/
inductive Step (root : Path) (site : Site) : Site → Prop
  | builds {pipeline : Pipeline} {corpus : Corpus} {schedule : List Party}
    {records : List Record} {progress last : Progress} {report : BuildReport} {changed : Tree}
    (hroot : pipeline.layout = ⟨root⟩) (hquiet : pipeline.factory.IsQuiet)
    (hspares : pipeline.Spares corpus) (hlists : corpus.Lists site.tree records)
    (hnumbers : records.length ≤ 0x8000000000000000) (hfits : report.metadata.FitsFields)
    (hexact : report.metadata.IsExact)
    (hrun : (pipeline.runAlong schedule corpus).runOn progress site.tree =
      ((.ok (some report), last), changed)) :
    Step root site { site with tree := changed, builds := records :: site.builds }
  | edits {changed : Tree} (hedits : site.tree.Alters changed fun location ↦
      ∀ name, location ≠ Location.ofDirectory root ++ [name]) :
    Step root site { site with tree := changed }
  | opens {probes : Nat} {handle : IndexHandle} {changed : Tree}
    (hrun : (IndexHandle.open root probes).runOn site.tree = (.ok handle, changed)) :
    Step root site { site with tree := changed, handle := some handle }
  | reloads {handle renewed : IndexHandle} {changed : Tree} (hhandle : site.handle = some handle)
    (hrun : handle.reload.runOn site.tree = (.ok renewed, changed)) :
    Step root site { site with tree := changed, handle := some renewed }
  | serves {encoder : Encoder} {service : QueryService} {changed : Tree}
    (hrun : ((QueryService.ofEncoder encoder).withMappingFrom (Layout.mk root).mapping).runOn
      site.tree = (.ok service, changed)) :
    Step root site { site with tree := changed, service := some service }
  | searches {service later : QueryService} {engine : QueryEngine} {text : String} {k : Nat}
    {result : Except IndexError (List ExternalHit)} {changed : Tree}
    (hservice : site.service = some service)
    (hrun : (service.searchText engine text k).run site.tree = ((result, later), changed)) :
    Step root site { site with tree := changed, service := some later }

/-- Any number of steps. -/
def Run (root : Path) : Site → Site → Prop := Relation.ReflTransGen (Step root)

/-- The file of the mapping is that of the last build, and the service has read it after one. -/
structure Tracks (root : Path) (site : Site) : Prop where
  absent : site.builds = [] →
    site.tree.files (Location.ofDirectory root ++ [Layout.mappingFile]) = none
  latest : ∀ records older, site.builds = records :: older →
    (Layout.mk root).Indexes site.tree records
  handle : ∀ handle, site.handle = some handle → handle.current.root = root
  path : ∀ service, site.service = some service →
    service.mappingPath = some (Layout.mk root).mapping
  held : ∀ service mapping, site.service = some service → service.mapping = some mapping →
    ∃ records ∈ site.builds, mapping = .ofRecords records

theorem tracks_new (hstart : start.files (Location.ofDirectory root ++ [Layout.mappingFile]) = none) :
    Tracks root ⟨start, none, none, []⟩ where
  absent _ := hstart
  latest := nofun
  handle := nofun
  path := nofun
  held := nofun

theorem Tracks.load_mapping (htracks : site.Tracks root) {mapping : IdMapping}
    (hload : (IdMapping.load (Layout.mk root).mapping).runOn site.tree = (.ok mapping, changed)) :
    ∃ records older, site.builds = records :: older ∧ mapping = .ofRecords records := by
  cases hbuilds : site.builds with
  | nil =>
    obtain ⟨-, contents, hread, -⟩ := IdMapping.load_ok.mp hload
    obtain ⟨-, hfile⟩ := (Tree.read_join Layout.isName_mappingFile).mp hread
    cases (htracks.absent hbuilds).symm.trans hfile
  | cons records older =>
    rw [(htracks.latest records older hbuilds).load_mapping] at hload
    cases hload
    exact ⟨records, older, rfl, rfl⟩

/-- A service takes what it holds or what was built last, and it holds what was built. -/
theorem Tracks.mappingFor (htracks : site.Tracks root) {service : QueryService}
    {engine : QueryEngine} {mapping : IdMapping} (hservice : site.service = some service)
    (hrun : (service.mappingFor engine).runOn site.tree = (.ok (some mapping), changed)) :
    ∃ records ∈ site.builds, mapping = .ofRecords records ∧
      (site.builds.head? = some records ∨ service.mapping = some mapping) := by
  obtain ⟨-, hcases⟩ := QueryService.mappingFor_ok (htracks.path service hservice) hrun
  rcases hcases with ⟨-, hheld⟩ | ⟨-, _, hload, hfound⟩
  · obtain ⟨records, hbuilt, hrecords⟩ := htracks.held service mapping hservice hheld.symm
    exact ⟨records, hbuilt, hrecords, .inr hheld.symm⟩
  · obtain rfl := Option.some.inj hfound
    obtain ⟨records, older, hbuilds, rfl⟩ := htracks.load_mapping hload
    rw [hbuilds]
    exact ⟨records, List.mem_cons_self, rfl, .inl rfl⟩

theorem Tracks.step (htracks : site.Tracks root) (hstep : Step root site next) :
    next.Tracks root := by
  cases hstep with
  | builds hroot hquiet hspares hlists hnumbers hfits hexact hrun =>
    have hindexes := Pipeline.runAlong_indexes hquiet hspares hlists hnumbers hfits hexact hrun
    rw [hroot] at hindexes
    refine ⟨nofun, fun records older hbuilds ↦ ?_, htracks.handle, htracks.path,
      fun service mapping hservice hheld ↦ ?_⟩
    · cases hbuilds
      exact hindexes
    · obtain ⟨held, hbuilt, hmapping⟩ := htracks.held service mapping hservice hheld
      exact ⟨held, List.mem_cons_of_mem _ hbuilt, hmapping⟩
  | edits hedits =>
    have hfiles : ∀ name, _ := fun name ↦
      hedits.files_eq (Location.ofDirectory root ++ [name]) fun h ↦ h name rfl
    refine ⟨fun hbuilds ↦ (hfiles _).trans (htracks.absent hbuilds), fun records older hbuilds ↦ ?_,
      htracks.handle, htracks.path, htracks.held⟩
    exact (htracks.latest records older hbuilds).congr (hedits.directories _) hfiles
  | opens hrun =>
    obtain ⟨engine, _, hload, hmade⟩ := runOn_bind_ok.mp hrun
    obtain ⟨rfl, rfl⟩ := runOn_pure_ok.mp hmade
    obtain ⟨rfl, hroot, -⟩ := QueryEngine.load_ok.mp hload
    refine ⟨htracks.absent, htracks.latest, fun handle hhandle ↦ ?_, htracks.path, htracks.held⟩
    obtain rfl := Option.some.inj hhandle
    exact hroot
  | reloads hhandle hrun =>
    obtain ⟨engine, _, hload, hmade⟩ := runOn_bind_ok.mp hrun
    obtain ⟨rfl, rfl⟩ := runOn_pure_ok.mp hmade
    obtain ⟨rfl, hroot, -⟩ := QueryEngine.load_ok.mp hload
    refine ⟨htracks.absent, htracks.latest, fun handle hrenewed ↦ ?_, htracks.path, htracks.held⟩
    obtain rfl := Option.some.inj hrenewed
    exact hroot.trans (htracks.handle _ hhandle)
  | serves hrun =>
    obtain ⟨rfl, hpath, hheld⟩ := QueryService.withMappingFrom_ok hrun
    refine ⟨htracks.absent, htracks.latest, htracks.handle, fun service hservice ↦ ?_,
      fun service mapping hservice hmapping ↦ ?_⟩
    · obtain rfl := Option.some.inj hservice
      exact hpath
    · obtain rfl := Option.some.inj hservice
      obtain ⟨records, older, hbuilds, rfl⟩ := htracks.load_mapping (hheld mapping hmapping)
      exact ⟨records, hbuilds ▸ List.mem_cons_self, rfl⟩
  | searches hservice hrun =>
    obtain ⟨rfl, hsearched⟩ := QueryService.searched_of_run hrun
    refine ⟨htracks.absent, htracks.latest, htracks.handle, fun service hlater ↦ ?_,
      fun service mapping hlater hheld ↦ ?_⟩
    · obtain rfl := Option.some.inj hlater
      exact hsearched.mappingPath_eq.trans (htracks.path _ hservice)
    · obtain rfl := Option.some.inj hlater
      cases hsearched with
      | failed => exact htracks.held _ mapping hservice hheld
      | numbered => exact htracks.held _ mapping hservice hheld
      | named hmapping =>
        obtain rfl := Option.some.inj hheld
        obtain ⟨records, hbuilt, hrecords, -⟩ := htracks.mappingFor hservice hmapping
        exact ⟨records, hbuilt, hrecords⟩

theorem Tracks.run (htracks : site.Tracks root) (hrun : Run root site next) :
    next.Tracks root := by
  induction hrun with
  | refl => exact htracks
  | tail _ hstep ih => exact ih.step hstep

/-- After a build a service never has to number the documents. -/
theorem Tracks.mappingFor_ne_none (htracks : site.Tracks root) {service : QueryService}
    {engine : QueryEngine} {latest : List Record} {older : List (List Record)}
    (hbuilds : site.builds = latest :: older) (hservice : site.service = some service) :
    (service.mappingFor engine).runOn site.tree ≠ (.ok none, changed) := by
  intro hrun
  have hindexes := htracks.latest latest older hbuilds
  have hthere := Tree.inspect_isSome_of_read
    ((Tree.read_join Layout.isName_mappingFile).mpr ⟨hindexes.directory, hindexes.mapping⟩)
  obtain ⟨-, hcases⟩ := QueryService.mappingFor_ok (htracks.path service hservice) hrun
  rcases hcases with ⟨⟨mapping, hheld, -⟩ | hnone, hfound⟩ | ⟨-, mapping, -, hfound⟩
  · cases hfound.trans hheld
  · have hmapping : (site.tree.answer (.inspect (Path.join root Layout.mappingFile))).1 = none :=
      hnone
    rw [hmapping] at hthere
    cases hthere
  · cases hfound

/-- As long as the handle holds the index on disk, every hit of a query for a text carries the id of
its record in a corpus that was built, and that has as many records as the last. The corpus is the
last one when the service reads its mapping anew, and else the one whose mapping it holds; so an
earlier corpus of the same size must have had the same ids for the hits to be right. -/
theorem named_of_searchText
    (hstart : start.files (Location.ofDirectory root ++ [Layout.mappingFile]) = none)
    (hrun : Run root ⟨start, none, none, []⟩ site) {latest : List Record}
    {older : List (List Record)} (hbuilds : site.builds = latest :: older) {handle : IndexHandle}
    (hhandle : site.handle = some handle) (hcurrent : handle.current.Verified site.tree)
    {service later : QueryService} (hservice : site.service = some service) {text : String}
    {k : Nat} {hits : List ExternalHit}
    (hsearch : (service.searchText handle.current text k).run site.tree =
      ((.ok hits, later), changed)) :
    (∃ records ∈ site.builds, records.length = latest.length ∧
      (records = latest ∨ service.mapping = some (.ofRecords records)) ∧
      ∀ hit ∈ hits, hit.IsNamedBy records) ∧
    ((∀ records ∈ older, records.length = latest.length →
        IdMapping.ofRecords records = .ofRecords latest) →
      ∀ hit ∈ hits, hit.IsNamedBy latest) := by
  have htracks := (tracks_new hstart).run hrun
  obtain ⟨-, hsearched⟩ := QueryService.searched_of_run hsearch
  generalize hresult : Except.ok hits = result at hsearched
  cases hsearched with
  | failed => cases hresult
  | numbered hmapping => exact absurd hmapping (htracks.mappingFor_ne_none hbuilds hservice)
  | @named query mapping hmapping =>
    obtain ⟨records, hbuilt, rfl, horigin⟩ := htracks.mappingFor hservice hmapping
    obtain ⟨⟨⟩, hfits, hrest⟩ := Result.bind_ok.mp hresult.symm
    obtain ⟨found, hfound, hhits⟩ := Result.bind_ok.mp hrest
    obtain rfl := Except.ok.inj hhits
    have hindexes := htracks.latest latest older hbuilds
    rw [← htracks.handle handle hhandle] at hindexes
    obtain ⟨hcount, hids⟩ := hcurrent.lt_of_search hindexes hfound
    have hlength : records.length = latest.length := by
      calc records.length
        _ = (IdMapping.ofRecords records).size := (List.length_map _).symm
        _ = handle.current.metadata.vectorCount := QueryEngine.checkMapping_eq_ok.mp hfits
        _ = latest.length := hcount
    have hnamed : ∀ others, IdMapping.ofRecords records = .ofRecords others →
        others.length = latest.length → ∀ hit ∈ found.map (ExternalHit.resolve
          (some (.ofRecords records))), hit.IsNamedBy others := by
      intro others hothers hsize hit hhit
      obtain ⟨stored, hstored, rfl⟩ := List.mem_map.mp hhit
      rw [hothers]
      exact ExternalHit.isNamedBy_resolve (hsize ▸ hids stored hstored)
    refine ⟨⟨records, hbuilt, hlength, ?_, hnamed records rfl hlength⟩, fun hsame ↦ ?_⟩
    · refine horigin.imp_left fun hlast ↦ ?_
      rw [hbuilds] at hlast
      exact (Option.some.inj hlast).symm
    · apply hnamed latest _ rfl
      rcases List.mem_cons.mp (hbuilds ▸ hbuilt) with rfl | holder
      · rfl
      · exact hsame records holder hlength

open Pipeline (tinyCorpus tinyPipeline tinyTree)

def tinyRecords : List Record := [⟨.number 0, "a"⟩, ⟨.text "x", "b"⟩]

/-- The same texts under other ids. -/
def renewedRecords : List Record := [⟨.text "y", "a"⟩, ⟨.number 1, "b"⟩]

def renewedFile : Bytes :=
  Utf8.encode "\x7b\"code\":\"a\",\"id\":\"y\"\x7d\n\x7b\"code\":\"b\"\x7d\n"

/-- Other records in place of those that a corpus had. -/
def renew (tree : Tree) : Tree := tree.set ["records"] (.file renewedFile 0)

theorem read_renew (tree : Tree) : (renew tree).read tinyCorpus.path = .ok renewedFile := rfl

theorem lists_of_toOption {tree : Tree} {contents : Bytes} {records : List Record}
    (hread : tree.read tinyCorpus.path = .ok contents)
    (hrecords : (tinyCorpus.recordsOf contents).map (·.toOption) = records.map some) :
    tinyCorpus.Lists tree records :=
  ⟨contents, hread, Result.eq_map_ok_of_toOption hrecords⟩

/-- The codebook of two records with these texts is read back from its file. -/
theorem exists_tiny_codebook : ∃ codebook,
    tinyPipeline.Trains (Encoder.hashedVector ⟨1, by decide⟩) ["a", "b"] codebook ∧
      Codebook.ofBytes codebook.toBytes = .ok codebook ∧ codebook.FitsFields ∧
      codebook.dimension = 1 ∧ codebook.codeSize = 1 := by
  have hchecked : ((Codebook.train tinyPipeline.settings.training ((tinyPipeline.head
      ["a", "b"]).map (Encoder.hashedVector ⟨1, by decide⟩))).toOption.any fun codebook ↦
        decide ((Codebook.ofBytes codebook.toBytes).toOption = some codebook ∧
          codebook.FitsFields ∧ codebook.dimension = 1 ∧ codebook.codeSize = 1)) = true := by
    decide +kernel
  obtain ⟨codebook, htrains, hcodebook⟩ := (Option.any_eq_true _ _).mp hchecked
  obtain ⟨hreads, hall⟩ := of_decide_eq_true hcodebook
  exact ⟨codebook, Result.toOption_eq_some.mp htrains, Result.toOption_eq_some.mp hreads, hall⟩

theorem encodesAll_tiny : (Encoder.hashed ⟨1, by decide⟩).EncodesAll
    (Encoder.hashedVector ⟨1, by decide⟩) ["a", "b"] := by
  apply Encoder.encodesAll_hashed
  intro text htext
  have hunit : (["a", "b"].all fun text ↦ (Dimension.checkUnitVector ⟨1, by decide⟩
      (Encoder.hashedVector ⟨1, by decide⟩ text)).isOk) = true := by
    decide +kernel
  exact Result.isOk_iff.mp (List.all_eq_true.mp hunit text htext)

/-- A build of two records with these texts is a step, and its index can be loaded and searched. -/
theorem exists_step_of_texts {tree : Tree} {records : List Record}
    (hlists : tinyCorpus.Lists tree records) (htexts : records.map (·.text) = ["a", "b"])
    (hadmits : tree.Admits "index") : ∃ changed engine, changed.Hosts "index" ∧
      changed.files ["records"] = tree.files ["records"] ∧
      (∀ handle service builds, Step "index" ⟨tree, handle, service, builds⟩
        ⟨changed, handle, service, records :: builds⟩) ∧
      (Layout.mk "index").Indexes changed records ∧
      (QueryEngine.load "index" 1).runOn changed = (.ok engine, changed) ∧
      engine.metadata.vectorCount = 2 ∧ ∀ query, query.length = 1 →
        ∃ found, engine.search query 2 none = .ok found := by
  have hquiet : tinyPipeline.factory.IsQuiet := fun _ _ ↦ rfl
  have hlength : records.length = 2 := by
    rw [← List.length_map (·.text), htexts]
    rfl
  have hnumbers := Pipeline.numbers_of_length_eq_two hlength
  obtain ⟨codebook, htrained, hread, hfields, hdimension, hcode⟩ := exists_tiny_codebook
  rw [← htexts] at htrained
  have hstate : (Progress.start .untrained).state = .untrained := rfl
  obtain ⟨schedule, report, last, changed, hbuild, hhosts⟩ :=
    Pipeline.exists_schedule_runAlong rfl rfl hdimension.symm hadmits (htexts ▸ encodesAll_tiny)
      Pipeline.spares_tinyCorpus hlists hnumbers (hdimension ▸ rfl) htrained hfields hstate
  obtain ⟨found, _, _, _, _, _, hmapped, -, -, hcount, -⟩ :=
    Pipeline.runAlong_ok hquiet Pipeline.spares_tinyCorpus hbuild
  obtain rfl := (Corpus.lists_tick.mp hmapped.lists).unique hlists
  obtain ⟨hfits, hexact, engine, hmetadata, htrains, hload⟩ := Pipeline.exists_load_of_runAlong
    Pipeline.maps_tinyPipeline hquiet rfl Pipeline.spares_tinyCorpus hlists
    (List.ne_nil_of_length_pos (by omega)) hnumbers (fun other hother ↦ by
      obtain rfl := Except.ok.inj (hother.symm.trans htrained)
      rw [hcode, hlength]
      exact ⟨hread, by decide⟩) hbuild 1
  have hindexes := Pipeline.runAlong_indexes hquiet Pipeline.spares_tinyCorpus hlists hnumbers.1
    hfits hexact hbuild
  have hsame : engine.codebook = codebook := Except.ok.inj (htrains.symm.trans htrained)
  obtain ⟨-, -, -, hverified⟩ := QueryEngine.load_ok.mp hload
  obtain ⟨-, hagrees, -⟩ := QueryEngine.checkCodebook_eq_ok.mp hverified.agrees
  refine ⟨changed, engine, hhosts, ?_, fun handle service builds ↦ .builds rfl hquiet
    Pipeline.spares_tinyCorpus hlists hnumbers.1 hfits hexact hbuild, hindexes, hload, ?_,
    fun query hquery ↦ ?_⟩
  · refine Pipeline.files_of_runAlong hquiet Pipeline.spares_tinyCorpus hbuild ?_ ?_
    · intro name hname
      cases congrArg List.length hname
    · rintro ⟨parents, name, hname, hsuffix⟩
      have hlast : [] ++ ["records"] = parents ++ [name] := hname
      obtain ⟨-, hsingle⟩ := List.append_inj' hlast rfl
      obtain rfl := List.singleton_inj.mp hsingle
      exact absurd hsuffix (by decide)
  · rw [hmetadata, hcount, hlength]
  · obtain ⟨-, hanswers⟩ := hverified.search?_eq (hmetadata ▸ hexact)
      (Codebook.isSearchable_of_train htrains (hsame ▸ hread)) query 2 none
    exact hanswers (by rw [hquery, ← hagrees, hsame, hdimension])

/-- A service over the mapping of the first records. -/
def tinyService : QueryService :=
  ⟨.hashed ⟨1, Nat.one_pos⟩, some (.ofRecords tinyRecords), some (Layout.mk "index").mapping⟩

theorem admits_tinyTree : tinyTree.Admits "index" := by
  refine ⟨fun count ↦ ?_, fun name hname ↦ ?_⟩
  · cases count <;> rfl
  · cases hname

/-- Two records are built and served, then two others with their texts are built and the index is
reloaded. The service keeps its mapping, which has an entry for each vector. -/
theorem exists_rebuilt : ∃ tree engine,
    Run "index" ⟨tinyTree, none, none, []⟩
      ⟨tree, some ⟨engine⟩, some tinyService, [renewedRecords, tinyRecords]⟩ ∧
    engine.Verified tree ∧ engine.metadata.vectorCount = 2 ∧
      ∀ query, query.length = 1 → ∃ found, engine.search query 2 none = .ok found := by
  have hfirst : tinyCorpus.Lists tinyTree tinyRecords := lists_of_toOption rfl (by decide +kernel)
  obtain ⟨built, engine, hhosts, hkept, hbuilds, hindexes, hload, -, -⟩ :=
    exists_step_of_texts hfirst rfl admits_tinyTree
  have hfile : built.find? ["records"] ≠ some .directory := by
    obtain ⟨modified, hfind⟩ := Tree.files_eq_some.mp (hkept.trans rfl)
    rw [hfind]
    exact nofun
  have hsecond : tinyCorpus.Lists (renew built) renewedRecords :=
    lists_of_toOption (read_renew built) (by decide +kernel)
  have hrenewed : (renew built).Hosts "index" :=
    hhosts.of_sameDirectories (built.sameDirectories_set hfile renewedFile 0)
  obtain ⟨changed, swapped, -, -, hrebuilds, -, hreload, hvectors, hanswers⟩ :=
    exists_step_of_texts hsecond rfl hrenewed.admits
  obtain ⟨-, hroot, hprobes, -⟩ := QueryEngine.load_ok.mp hload
  obtain ⟨-, -, -, hverified⟩ := QueryEngine.load_ok.mp hreload
  refine ⟨changed, swapped, ?_, hverified, hvectors, hanswers⟩
  have hopens : Step "index" ⟨built, none, none, [tinyRecords]⟩
      ⟨built, some ⟨engine⟩, none, [tinyRecords]⟩ :=
    .opens (runOn_bind_ok.mpr ⟨engine, built, hload, rfl⟩)
  have hserves : Step "index" ⟨built, some ⟨engine⟩, none, [tinyRecords]⟩
      ⟨built, some ⟨engine⟩, some tinyService, [tinyRecords]⟩ :=
    .serves (QueryService.runOn_withMappingFrom _ hindexes.load_mapping)
  have hedits : Step "index" ⟨built, some ⟨engine⟩, some tinyService, [tinyRecords]⟩
      ⟨renew built, some ⟨engine⟩, some tinyService, [tinyRecords]⟩ := by
    refine .edits ((Tree.becomes_set_file hfile renewedFile 0).alters.mono ?_)
    rintro location rfl name hname
    cases congrArg List.length hname
  have hswap : (QueryEngine.load engine.root engine.probes).runOn changed =
      (.ok swapped, changed) := by
    rw [show engine.root = "index" from hroot, show engine.probes = 1 from hprobes]
    exact hreload
  have hreloads : Step "index"
      ⟨changed, some ⟨engine⟩, some tinyService, [renewedRecords, tinyRecords]⟩
      ⟨changed, some ⟨swapped⟩, some tinyService, [renewedRecords, tinyRecords]⟩ :=
    .reloads rfl (runOn_bind_ok.mpr ⟨swapped, changed, hswap, rfl⟩)
  exact (((((Relation.ReflTransGen.single (hbuilds _ _ _)).tail hopens).tail hserves).tail
    hedits).tail (hrebuilds _ _ _)).tail hreloads

theorem exists_tiny_query : ∃ query, tinyService.encodeQuery "a" = .ok query ∧
    query.length = 1 := by
  have hencoded : (tinyService.encodeQuery "a").toOption.map List.length = some 1 := by
    decide +kernel
  obtain ⟨query, hquery, hlength⟩ := Option.map_eq_some_iff.mp hencoded
  exact ⟨query, Result.toOption_eq_some.mp hquery, hlength⟩

/-- Two records are built and served, then two others with their texts are built and the index is
reloaded. A query for a text of both finds documents under the ids of the first two. -/
theorem named_of_searchText_tiny : ∃ site latest first handle service hits later,
    Run "index" ⟨tinyTree, none, none, []⟩ site ∧ site.builds = [latest, first] ∧
      latest.length = first.length ∧ IdMapping.ofRecords latest ≠ .ofRecords first ∧
      site.handle = some handle ∧ handle.current.Verified site.tree ∧
      site.service = some service ∧
      (service.searchText handle.current "a" 2).run site.tree = ((.ok hits, later), site.tree) ∧
      ∀ hit ∈ hits, hit.IsNamedBy first := by
  obtain ⟨tree, engine, hrun, hverified, hvectors, hanswers⟩ := exists_rebuilt
  obtain ⟨query, hencode, hquery⟩ := exists_tiny_query
  obtain ⟨found, hfound⟩ := hanswers query hquery
  have hsize : (IdMapping.ofRecords tinyRecords).size = engine.metadata.vectorCount :=
    hvectors.symm
  have hsearch : (tinyService.searchText engine "a" 2).run tree = _ :=
    QueryService.run_searchText_of_fits rfl rfl hsize hencode hfound
  obtain ⟨⟨records, -, hlength, -, hnamed⟩, -⟩ :=
    named_of_searchText rfl hrun rfl rfl hverified rfl hsearch
  refine ⟨_, renewedRecords, tinyRecords, ⟨engine⟩, tinyService, _, _, hrun, rfl, rfl, by decide,
    rfl, hverified, rfl, hsearch, fun hit hhit ↦ ?_⟩
  obtain ⟨record, hrecord, -⟩ := hnamed hit hhit
  obtain ⟨stored, -, rfl⟩ := List.mem_map.mp hhit
  have hstored : stored.id < records.length := (List.getElem?_eq_some_iff.mp hrecord).1
  exact ExternalHit.isNamedBy_resolve (hlength ▸ hstored)

end Site
end VectorIndex
