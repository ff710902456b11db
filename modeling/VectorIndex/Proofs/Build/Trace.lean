import VectorIndex.Proofs.Build.Alone

/-!
# A pool seen from its start

Between two turns of a pool every partition is where it would be alone: it has come to what it
comes to on the store from the start, somebody is on the way there, or its segment is as it was.
-/

namespace VectorIndex

/-- The partitions that have to be built and are not read from the stream any more. -/
def PoolState.unbuilt (state : PoolState) : List Partition :=
  (match state.production with
    | .offering partition => [partition]
    | _ => []) ++ (state.queue ++ state.activities.filterMap (·.partition?))

/-- A worker that turns to something else changes nothing of what is to be built but what it has in
hand. -/
theorem PoolState.unbuilt_set_perm (state : PoolState) {index : Nat} {old : Activity}
    (hold : state.activities[index]? = some old) (new : Activity) :
    (old.partition?.toList ++
      { state with activities := state.activities.set index new }.unbuilt).Perm
        (new.partition?.toList ++ state.unbuilt) := by
  have hset := filterMap_set_perm (·.partition?) hold new
  unfold unbuilt
  rw [List.perm_iff_count] at *
  intro partition
  have hcount := hset partition
  simp only [List.count_append] at *
  omega

namespace Crew

open Publication (Account beside)

/-- What a partition that has its outcome has come to: it was kept as it was found at the start,
or one of the workers has built it as it would have alone. A crash over its segment is none. -/
def Settles (crew : Crew) (start tree : Tree) (partition : Partition) (outcome : Outcome) : Prop :=
  outcome.partition = partition.index ∧
  match ((crew.pool.reuse? crew.codebook crew.directory partition).runOn start).1 with
  | .ok (some summary) => outcome.result = .ok summary ∧
    tree.files (crew.target partition.index) = start.files (crew.target partition.index)
  | .ok none => ∃ index < crew.pool.workerCount,
    outcome.result = ((crew.build index partition).run start).1 ∧
      tree.files (crew.target partition.index) =
        ((crew.build index partition).run start).2.files (crew.target partition.index)
  | .error _ => False

/-- How far a worker is, and that the rest of its program comes to what it comes to alone. -/
def Pursues (crew : Crew) (start tree : Tree) (index : Nat) (account : Account) :
    Option Activity → Prop
  | some (.building partition program) => ∃ contents,
    (beside start (Location.ofDirectory crew.directory) (segmentName partition.index)
      contents).agrees account tree ∧
      program.Keeps (beside start (Location.ofDirectory crew.directory)
        (segmentName partition.index) contents)
        (fun result last ↦ result = ((crew.build index partition).run start).1 ∧ ∀ tree,
          (beside start (Location.ofDirectory crew.directory) (segmentName partition.index)
            contents).agrees last tree → tree.files (crew.target partition.index) =
              ((crew.build index partition).run start).2.files (crew.target partition.index))
        account
  | _ => account = ⟨false, .waiting⟩

/-- What is true of a pool between two turns, seen from the store at the start. -/
structure Traces (crew : Crew) (start : Tree) (partitions : List Partition)
    (accounts : Nat → Account) (state : PoolState) (tree : Tree) : Prop where
  sound : ∃ finished publications, crew.Sound partitions finished publications state tree
  crewed : state.activities.length = crew.pool.workerCount
  setting : start.SameSetting tree (Location.ofDirectory crew.directory)
  pursuing : ∀ index, crew.Pursues start tree index (accounts index) state.activities[index]?
  apart : ∀ i j, i ≠ j → ∀ temporary,
    (accounts i).publication.temporary? = some temporary →
      (accounts j).publication.temporary? ≠ some temporary
  settled : ∀ outcome ∈ state.outcomes, ∃ partition ∈ partitions,
    crew.Settles start tree partition outcome
  untouched : ∀ number, (∀ outcome ∈ state.outcomes, outcome.partition ≠ number) →
    (∀ partition ∈ state.activities.filterMap (·.partition?), partition.index ≠ number) →
      tree.files (crew.target number) = start.files (crew.target number)
  aside : start.Alters tree ((Location.ofDirectory crew.directory).Within fun name ↦
    StagedFile.IsTemporary name ∨ ∃ number, name = segmentName number)
  examining : ∀ partition program, state.production = .examining partition program →
    program.Reads (fun tree ↦ start.SameSetting tree (Location.ofDirectory crew.directory) ∧
        tree.files (crew.target partition.index) = start.files (crew.target partition.index))
      ((Shard.reusable? crew.codebook crew.directory partition).runOn start).1
  crashed : ∀ partition, state.production = .crashed partition → partition ∈ partitions ∧
    ∃ error, ((crew.pool.reuse? crew.codebook crew.directory partition).runOn start).1 =
      .error error
  unbuilt : ∀ partition ∈ state.unbuilt,
    ((crew.pool.reuse? crew.codebook crew.directory partition).runOn start).1 = .ok none

variable {crew : Crew} {start : Tree} {partitions : List Partition} {accounts : Nat → Account}
  {state : PoolState} {tree : Tree}

theorem traces_start (crew : Crew) (stream : List (Except IndexError Partition)) (start : Tree) :
    crew.Traces start (Partition.leading stream) (fun _ ↦ ⟨false, .waiting⟩)
      (.start crew.pool.workerCount stream) start where
  sound := ⟨[], _, crew.sound_start _ stream start⟩
  crewed := List.length_replicate
  setting := start.sameSetting_self _
  pursuing index := by
    show crew.Pursues start start index _
      (List.replicate crew.pool.workerCount Activity.idle)[index]?
    rw [List.getElem?_replicate]
    split
    · rfl
    · rfl
  apart _ _ _ _ htemporary := nomatch htemporary
  settled _ houtcome := nomatch houtcome
  untouched _ _ _ := rfl
  aside := start.alters_self _
  examining _ _ hproduction := nomatch hproduction
  crashed _ hproduction := nomatch hproduction
  unbuilt partition hpartition := by
    unfold PoolState.unbuilt at hpartition
    simp only [PoolState.start, List.nil_append] at hpartition
    obtain ⟨activity, hactivity, hbuilding⟩ := List.mem_filterMap.mp hpartition
    rw [List.eq_of_mem_replicate hactivity] at hbuilding
    cases hbuilding

/-- What is known of the work on another partition is left alone. -/
theorem Pursues.of_allows {partition : Partition} {contents : Bytes} {first second : Account}
    {before after : Tree}
    (hallows : (beside start (Location.ofDirectory crew.directory) (segmentName partition.index)
      contents).allows first second before after)
    (hfirst : (beside start (Location.ofDirectory crew.directory) (segmentName partition.index)
      contents).agrees first before)
    (hsecond : (beside start (Location.ofDirectory crew.directory) (segmentName partition.index)
      contents).agrees second after)
    {index : Nat} {activity : Option Activity} {account : Account}
    (hne : ∀ other program, activity = some (.building other program) →
      other.index ≠ partition.index)
    (hapart : ∀ temporary, account.publication.temporary? = some temporary →
      first.publication.temporary? ≠ some temporary)
    (hpursues : crew.Pursues start before index account activity) :
    crew.Pursues start after index account activity ∧
      ∀ temporary, account.publication.temporary? = some temporary →
        second.publication.temporary? ≠ some temporary := by
  have hwaiting : account = ⟨false, .waiting⟩ → ∀ temporary,
      account.publication.temporary? = some temporary →
        second.publication.temporary? ≠ some temporary := by
    rintro rfl temporary htemporary
    cases htemporary
  cases activity with
  | none => exact ⟨hpursues, hwaiting hpursues⟩
  | some activity =>
    cases activity with
    | idle => exact ⟨hpursues, hwaiting hpursues⟩
    | building other program =>
      obtain ⟨others, hagrees, hkeeps⟩ := hpursues
      obtain ⟨hlater, hfree⟩ := Publication.agrees_beside_of_allows hallows hfirst hsecond
        (fun heq ↦ hne other program rfl (segmentName_injective heq)) (head_segmentName _)
        (head_segmentName _) hapart hagrees
      exact ⟨⟨others, hlater, hkeeps⟩, hfree⟩

/-- A worker that is done with a partition has come to what it comes to alone. -/
theorem Traces.finish (htraces : crew.Traces start partitions accounts state tree) {index : Nat}
    {partition : Partition} {result : Except IndexError SegmentSummary}
    (hactivity : state.activities[index]? = some (.building partition (.done result))) :
    crew.Traces start partitions (Function.update accounts index ⟨false, .waiting⟩) { state with
      activities := state.activities.set index .idle
      outcomes := state.outcomes ++ [⟨partition.index, result⟩] } tree := by
  obtain ⟨finished, publications, hsound⟩ := htraces.sound
  obtain ⟨hlt, -⟩ := List.getElem?_eq_some_iff.mp hactivity
  have hbuilding : (partition :: (state.activities.set index .idle).filterMap (·.partition?)).Perm
      (state.activities.filterMap (·.partition?)) :=
    filterMap_set_perm Activity.partition? hactivity .idle
  refine { htraces with
    sound := ⟨_, _, hsound.finish hactivity⟩
    crewed := List.length_set.trans htraces.crewed
    pursuing := fun i ↦ ?_, apart := ?_, settled := ?_, untouched := ?_, unbuilt := ?_ }
  · refine forall_set_update (crew.Pursues start tree) hactivity ?_
      (fun i _ ↦ htraces.pursuing i) i
    rfl
  · exact apart_update (fun account : Account ↦ account.publication.temporary?) htraces.apart
      fun _ _ _ _ ↦ nofun
  · intro outcome houtcome
    rcases List.mem_append.mp houtcome with houtcome | houtcome
    · exact htraces.settled outcome houtcome
    · obtain rfl := List.mem_singleton.mp houtcome
      have hunbuilt := htraces.unbuilt partition (List.mem_append_right _
        (List.mem_append_right _ (hbuilding.mem_iff.mp List.mem_cons_self)))
      have hpursues := htraces.pursuing index
      rw [hactivity] at hpursues
      obtain ⟨contents, hagrees, hresult, hfiles⟩ := hpursues
      refine ⟨partition, hsound.accounted.mem_iff.mp (List.mem_append_right _
        (PoolState.mem_pending_of_building hactivity)), rfl, ?_⟩
      rw [hunbuilt]
      exact ⟨index, htraces.crewed ▸ hlt, hresult, hfiles tree hagrees⟩
  · intro number houtcomes hothers
    apply htraces.untouched number
    · exact fun outcome houtcome ↦ houtcomes outcome (List.mem_append_left _ houtcome)
    · intro other hother
      rcases List.mem_cons.mp (hbuilding.mem_iff.mpr hother) with rfl | hother
      · exact houtcomes ⟨other.index, result⟩
          (List.mem_append_right _ (List.mem_singleton.mpr rfl))
      · exact hothers other hother
  · intro given hgiven
    have hperm := state.unbuilt_set_perm hactivity .idle
    exact htraces.unbuilt given (hperm.mem_iff.mp (List.mem_cons_of_mem _ hgiven))

section

variable (htraces : crew.Traces start partitions accounts state tree)
  (hnodup : (partitions.map (·.index)).Nodup)
include htraces hnodup

/-- A partition that is under way has no outcome yet. -/
theorem Traces.outcome_ne {partition : Partition} (hpartition : partition ∈ state.pending)
    {outcome : Outcome} (houtcome : outcome ∈ state.outcomes) :
    outcome.partition ≠ partition.index := by
  obtain ⟨finished, publications, hsound⟩ := htraces.sound
  obtain ⟨other, hother, hdelivers⟩ := exists_of_forall₂ hsound.delivered.flip houtcome
  rw [show outcome.partition = other.index from hdelivers.1]
  exact hsound.index_ne_of_finished hnodup hpartition hother

/-- Nobody is building a partition that waits. -/
theorem Traces.building_ne {partition other : Partition}
    (hpartition : partition ∈ state.production.partition?.toList ++ state.queue)
    (hother : other ∈ state.activities.filterMap (·.partition?)) :
    other.index ≠ partition.index := by
  obtain ⟨finished, publications, hsound⟩ := htraces.sound
  have hsublist : (state.production.partition?.toList ++ state.queue ++
      state.activities.filterMap (·.partition?)).Sublist (finished ++ state.pending) := by
    apply List.Sublist.trans ?_ (List.sublist_append_right _ _)
    unfold PoolState.pending
    rw [← List.append_assoc, ← List.append_assoc]
    exact List.sublist_append_left _ _
  have hall := (hsound.nodup hnodup).sublist (hsublist.map _)
  rw [List.map_append, List.nodup_append] at hall
  exact (hall.2.2 _ (List.mem_map_of_mem hpartition) _ (List.mem_map_of_mem hother)).symm

/-- Nothing has been written for a partition that waits. -/
theorem Traces.files_of_waiting {partition : Partition}
    (hpartition : partition ∈ state.production.partition?.toList ++ state.queue) :
    tree.files (crew.target partition.index) = start.files (crew.target partition.index) := by
  have hpending : partition ∈ state.pending := by
    unfold PoolState.pending
    rw [← List.append_assoc]
    exact List.mem_append_left _ hpartition
  apply htraces.untouched
  · exact fun outcome houtcome ↦ htraces.outcome_ne hnodup hpending houtcome
  · exact fun other hother ↦ htraces.building_ne hnodup hpartition hother

/-! ## A turn of the producer -/

omit hnodup in
/-- A partition that is read is examined when the pool resumes, and otherwise has to be built. -/
theorem Traces.read (hnested : start.NestedIn (Location.ofDirectory crew.directory))
    {partition : Partition} {rest : List (Except IndexError Partition)} {production : Production}
    (hproduction : production = if crew.pool.resume then
        .examining partition (Shard.reusable? crew.codebook crew.directory partition).attempt
      else .offering partition)
    (hreading : state.production = .reading)
    (hsound : ∃ finished publications, crew.Sound partitions finished publications
      { state with stream := rest, production } tree) :
    crew.Traces start partitions accounts { state with stream := rest, production } tree := by
  have hunbuilt : state.unbuilt = state.queue ++ state.activities.filterMap (·.partition?) := by
    unfold PoolState.unbuilt
    rw [hreading]
    rfl
  subst hproduction
  cases hresume : crew.pool.resume with
  | true =>
    simp only [hresume, if_true] at hsound ⊢
    refine { htraces with sound := hsound, examining := ?_, crashed := nofun, unbuilt := ?_ }
    · intro given program hexamining
      obtain ⟨rfl, rfl⟩ := Production.examining.inj hexamining
      exact Shard.reusable?_reads hnested
    · exact fun given hgiven ↦ htraces.unbuilt given (hunbuilt ▸ hgiven)
  | false =>
    simp only [hresume] at hsound ⊢
    refine { htraces with sound := hsound, examining := nofun, crashed := nofun, unbuilt := ?_ }
    intro given hgiven
    rcases List.mem_cons.mp hgiven with rfl | hgiven
    · simp [WorkerPool.reuse?, hresume]
    · exact htraces.unbuilt given (hunbuilt ▸ hgiven)

omit hnodup in
/-- A partition without a segment to keep has to be built. -/
theorem Traces.require {partition : Partition}
    {program : StoreProgram (Except IndexError (Option SegmentSummary))}
    (hexamining : state.production = .examining partition program)
    (hreuse : ((crew.pool.reuse? crew.codebook crew.directory partition).runOn start).1 =
      .ok none)
    (hsound : ∃ finished publications, crew.Sound partitions finished publications
      { state with production := .offering partition } tree) :
    crew.Traces start partitions accounts { state with production := .offering partition }
      tree := by
  refine { htraces with sound := hsound, examining := nofun, crashed := nofun, unbuilt := ?_ }
  intro given hgiven
  rcases List.mem_cons.mp hgiven with rfl | hgiven
  · exact hreuse
  · apply htraces.unbuilt given
    unfold PoolState.unbuilt
    rw [hexamining]
    exact hgiven

/-- A partition whose segment is kept has come to what it comes to alone. -/
theorem Traces.keep {partition : Partition}
    {program : StoreProgram (Except IndexError (Option SegmentSummary))} {summary : SegmentSummary}
    (hexamining : state.production = .examining partition program)
    (hreuse : ((crew.pool.reuse? crew.codebook crew.directory partition).runOn start).1 =
      .ok (some summary))
    (hsound : ∃ finished publications, crew.Sound partitions finished publications
      { state with
        production := .reading, outcomes := state.outcomes ++ [⟨partition.index, .ok summary⟩] }
      tree) :
    crew.Traces start partitions accounts { state with
      production := .reading, outcomes := state.outcomes ++ [⟨partition.index, .ok summary⟩] }
      tree := by
  have hwaiting : partition ∈ state.production.partition?.toList ++ state.queue := by
    rw [hexamining]
    exact List.mem_cons_self
  have hpending : partition ∈ state.pending := by
    unfold PoolState.pending
    rw [← List.append_assoc]
    exact List.mem_append_left _ hwaiting
  obtain ⟨finished, publications, hbefore⟩ := htraces.sound
  refine { htraces with
    sound := hsound, examining := nofun, crashed := nofun, settled := ?_, untouched := ?_
    unbuilt := ?_ }
  · intro outcome houtcome
    rcases List.mem_append.mp houtcome with houtcome | houtcome
    · exact htraces.settled outcome houtcome
    · obtain rfl := List.mem_singleton.mp houtcome
      refine ⟨partition, hbefore.accounted.mem_iff.mp (List.mem_append_right _ hpending), rfl, ?_⟩
      rw [hreuse]
      exact ⟨rfl, htraces.files_of_waiting hnodup hwaiting⟩
  · exact fun number houtcomes ↦ htraces.untouched number fun outcome houtcome ↦
      houtcomes outcome (List.mem_append_left _ houtcome)
  · intro given hgiven
    apply htraces.unbuilt given
    unfold PoolState.unbuilt
    rw [hexamining]
    exact hgiven

omit hnodup in
/-- A partition that is put into the queue still has to be built. -/
theorem Traces.enqueue {partition : Partition} (hoffering : state.production = .offering partition)
    (hsound : ∃ finished publications, crew.Sound partitions finished publications
      { state with production := .reading, queue := state.queue ++ [partition] } tree) :
    crew.Traces start partitions accounts
      { state with production := .reading, queue := state.queue ++ [partition] } tree := by
  refine { htraces with sound := hsound, examining := nofun, crashed := nofun, unbuilt := ?_ }
  intro given hgiven
  have hmoved : given ∈ state.queue ++ [partition] ++ state.activities.filterMap (·.partition?) :=
    hgiven
  rw [List.append_assoc] at hmoved
  apply htraces.unbuilt given
  unfold PoolState.unbuilt
  rw [hoffering]
  show given ∈ partition :: (state.queue ++ state.activities.filterMap (·.partition?))
  exact List.perm_middle.mem_iff.mp hmoved

/-- Every turn of the producer keeps the invariant, and the store. -/
theorem Traces.produce (hnested : start.NestedIn (Location.ofDirectory crew.directory)) :
    ((crew.produce state).run tree).2 = tree ∧
      crew.Traces start partitions accounts ((crew.produce state).run tree).1 tree := by
  obtain ⟨finished, publications, hsound⟩ := htraces.sound
  obtain ⟨htree, later, hlater⟩ := hsound.produce
  refine ⟨htree, ?_⟩
  obtain ⟨stream, production, queue, activities, outcomes⟩ := state
  unfold Crew.produce at hlater ⊢
  cases production with
  | reading =>
    cases stream with
    | nil =>
      exact { htraces with sound := ⟨_, _, hlater⟩, examining := nofun, crashed := nofun }
    | cons item rest =>
      cases item with
      | error error =>
        exact { htraces with sound := ⟨_, _, hlater⟩, examining := nofun, crashed := nofun }
      | ok partition => exact htraces.read hnested rfl rfl ⟨_, _, hlater⟩
  | examining partition program =>
    have hreads := htraces.examining partition program rfl
    have hresume := (hsound.examining partition program rfl).2
    cases program with
    | act action next =>
      have hnext := (hreads tree ⟨htraces.setting,
        htraces.files_of_waiting hnodup List.mem_cons_self⟩).2
      refine { htraces with sound := ⟨_, _, hlater⟩, examining := ?_, crashed := nofun }
      intro given program hproduction
      obtain ⟨rfl, rfl⟩ := Production.examining.inj hproduction
      exact hnext
    | done found =>
      have hreuse : ((crew.pool.reuse? crew.codebook crew.directory partition).runOn start).1 =
          found := by
        unfold WorkerPool.reuse?
        rw [if_pos hresume]
        exact hreads.symm
      cases found with
      | error error =>
        refine { htraces with sound := ⟨_, _, hlater⟩, examining := nofun, crashed := ?_ }
        intro given hproduction
        obtain rfl := Production.crashed.inj hproduction
        exact ⟨hsound.accounted.mem_iff.mp (List.mem_append_right _ List.mem_cons_self),
          error, hreuse⟩
      | ok reused =>
        cases reused with
        | none => exact htraces.require rfl hreuse ⟨_, _, hlater⟩
        | some summary => exact htraces.keep hnodup rfl hreuse ⟨_, _, hlater⟩
  | offering partition =>
    by_cases hroom : queue.length < crew.pool.workerCount
    · simp only [hroom, if_true] at hlater ⊢
      exact htraces.enqueue rfl ⟨_, _, hlater⟩
    · simp only [hroom, if_false] at hlater ⊢
      exact { htraces with sound := ⟨_, _, hlater⟩, examining := nofun, crashed := nofun }
  | crashed partition => exact { htraces with sound := ⟨_, _, hlater⟩ }
  | stopped failure => exact { htraces with sound := ⟨_, _, hlater⟩ }

/-! ## A turn of a worker -/

/-- A worker that takes a partition finds its segment as it was at the start. -/
theorem Traces.take {index : Nat} (hactivity : state.activities[index]? = some .idle)
    {partition : Partition} {rest : List Partition} (hqueue : state.queue = partition :: rest) :
    crew.Traces start partitions accounts { state with
      queue := rest
      activities := state.activities.set index (.building partition (crew.build index partition)) }
      tree := by
  obtain ⟨finished, publications, hsound⟩ := htraces.sound
  have hidle : accounts index = ⟨false, .waiting⟩ := by
    have hpursues := htraces.pursuing index
    rwa [hactivity] at hpursues
  have hfiles : tree.files (crew.target partition.index) =
      start.files (crew.target partition.index) :=
    htraces.files_of_waiting hnodup (List.mem_append_right _ (hqueue ▸ List.mem_cons_self))
  have hbegun : crew.Pursues start tree index ⟨false, .waiting⟩
      (some (.building partition (crew.build index partition))) := by
    obtain ⟨contents, value, hkeeps, -⟩ := crew.build_beside index partition start
    refine ⟨contents, ⟨htraces.setting, (fun h ↦ nomatch h), trivial, fun _ ↦ hfiles⟩, ?_⟩
    exact Publication.alone_beside value hkeeps
  have hbuilding : ((state.activities.set index (.building partition
      (crew.build index partition))).filterMap (·.partition?)).Perm
        (partition :: state.activities.filterMap (·.partition?)) :=
    filterMap_set_perm Activity.partition? hactivity _
  refine { htraces with
    sound := ⟨_, _, hsound.take hactivity hqueue⟩
    crewed := List.length_set.trans htraces.crewed
    pursuing := fun i ↦ ?_, untouched := ?_, unbuilt := ?_ }
  · have hset := forall_set_update (crew.Pursues start tree) hactivity hbegun
      (fun i _ ↦ htraces.pursuing i) i
    rwa [← hidle, Function.update_eq_self] at hset
  · exact fun number houtcomes hothers ↦ htraces.untouched number houtcomes fun other hother ↦
      hothers other (hbuilding.mem_iff.mpr (List.mem_cons_of_mem _ hother))
  · intro given hgiven
    have hperm := { state with queue := rest }.unbuilt_set_perm hactivity
      (.building partition (crew.build index partition))
    apply htraces.unbuilt given
    unfold PoolState.unbuilt
    rw [hqueue]
    exact List.perm_middle.symm.mem_iff.mp (hperm.mem_iff.mp hgiven)

/-- An action of one worker leaves alone what is known of the others. -/
theorem Traces.advance {index : Nat} {partition : Partition} {action : Action}
    {next : action.Answer → StoreProgram (Except IndexError SegmentSummary)}
    (hactivity : state.activities[index]? = some (.building partition (.act action next))) :
    ∃ later, crew.Traces start partitions (Function.update accounts index later)
      { state with
        activities := state.activities.set index
          (.building partition (next (tree.answer action).1)) }
      (tree.answer action).2 := by
  obtain ⟨finished, publications, hsound⟩ := htraces.sound
  have hpursues := htraces.pursuing index
  rw [hactivity] at hpursues
  obtain ⟨contents, hagrees, hkeeps⟩ := hpursues
  obtain ⟨later, hallows, hafter, hnext⟩ := hkeeps tree hagrees
  have hspared : ∀ number, partition.index ≠ number →
      (tree.answer action).2.files (crew.target number) = tree.files (crew.target number) := by
    intro number hnumber
    exact Publication.files_of_allows_beside hallows hagrees hafter
      (fun heq ↦ hnumber (segmentName_injective heq).symm) (head_segmentName number)
  have hbuilding : ((state.activities.set index
      (.building partition (next (tree.answer action).1))).filterMap (·.partition?)).Perm
        (state.activities.filterMap (·.partition?)) :=
    (List.perm_append_left_iff [partition]).mp
      (filterMap_set_perm Activity.partition? hactivity _)
  have hothers : ∀ i, i ≠ index →
      crew.Pursues start (tree.answer action).2 i (accounts i) state.activities[i]? ∧
        ∀ temporary, (accounts i).publication.temporary? = some temporary →
          later.publication.temporary? ≠ some temporary := by
    intro i hi
    refine Pursues.of_allows hallows hagrees hafter ?_ (htraces.apart i index hi)
      (htraces.pursuing i)
    exact fun other program hother ↦ hsound.index_ne_of_building hnodup hactivity hi hother
  obtain ⟨latest, hadvanced⟩ := hsound.advance hnodup hactivity
  refine ⟨later, { htraces with
    sound := ⟨_, _, hadvanced⟩
    crewed := List.length_set.trans htraces.crewed
    setting := hafter.setting
    pursuing := fun i ↦ ?_, apart := ?_, settled := ?_, untouched := ?_
    aside := ?_, unbuilt := ?_ }⟩
  · refine forall_set_update (crew.Pursues start (tree.answer action).2) hactivity ?_
      (fun i hi ↦ (hothers i hi).1) i
    exact ⟨contents, hafter, hnext⟩
  · exact apart_update (fun account : Account ↦ account.publication.temporary?) htraces.apart
      fun i hi ↦ (hothers i hi).2
  · intro outcome houtcome
    obtain ⟨other, hother, hindex, hsettles⟩ := htraces.settled outcome houtcome
    have hne : partition.index ≠ other.index := by
      rw [← hindex]
      exact (htraces.outcome_ne hnodup (PoolState.mem_pending_of_building hactivity)
        houtcome).symm
    refine ⟨other, hother, hindex, ?_⟩
    rw [hspared other.index hne]
    exact hsettles
  · intro number houtcomes hothers
    have hne : partition.index ≠ number := hothers partition (hbuilding.mem_iff.mpr
      (List.mem_filterMap.mpr ⟨_, List.mem_of_getElem? hactivity, rfl⟩))
    rw [hspared number hne]
    exact htraces.untouched number houtcomes fun other hother ↦
      hothers other (hbuilding.mem_iff.mpr hother)
  · refine htraces.aside.trans
      ((Publication.alters_of_allows_beside hallows hagrees hafter).mono fun location hwithin ↦ ?_)
    exact hwithin.mono fun name hname ↦ hname.imp_right fun heq ↦ ⟨_, heq⟩
  · intro given hgiven
    have hperm := (List.perm_append_left_iff [partition]).mp
      (state.unbuilt_set_perm hactivity (.building partition (next (tree.answer action).1)))
    exact htraces.unbuilt given (hperm.mem_iff.mp hgiven)

/-- Every turn of a worker keeps the invariant. -/
theorem Traces.work (index : Nat) : ∃ accounts,
    crew.Traces start partitions accounts ((crew.work index state).run tree).1
      ((crew.work index state).run tree).2 := by
  unfold Crew.work
  cases hactivity : state.activities[index]? with
  | none => exact ⟨accounts, htraces⟩
  | some activity =>
    cases activity with
    | idle =>
      cases hqueue : state.queue with
      | nil => exact ⟨accounts, htraces⟩
      | cons partition rest => exact ⟨accounts, htraces.take hnodup hactivity hqueue⟩
    | building partition program =>
      cases program with
      | act action next =>
        obtain ⟨later, hlater⟩ := htraces.advance hnodup hactivity
        exact ⟨_, hlater⟩
      | done result => exact ⟨_, htraces.finish hactivity⟩

/-! ## Whole schedules -/

theorem Traces.turn (hnested : start.NestedIn (Location.ofDirectory crew.directory))
    (party : Party) : ∃ accounts,
    crew.Traces start partitions accounts ((crew.turn party state).run tree).1
      ((crew.turn party state).run tree).2 := by
  cases party with
  | producer =>
    obtain ⟨htree, hproduced⟩ := htraces.produce hnodup hnested
    exact ⟨accounts, htree.symm ▸ hproduced⟩
  | worker index => exact htraces.work hnodup index

theorem Traces.follow (hnested : start.NestedIn (Location.ofDirectory crew.directory))
    (schedule : List Party) : ∃ accounts,
    crew.Traces start partitions accounts ((crew.follow schedule state).run tree).1
      ((crew.follow schedule state).run tree).2 := by
  induction schedule generalizing accounts state tree with
  | nil => exact ⟨accounts, htraces⟩
  | cons party rest ih =>
    obtain ⟨later, hturn⟩ := htraces.turn hnodup hnested party
    rw [Crew.follow, StoreProgram.run_bind]
    exact ih hturn

end

end Crew
end VectorIndex
