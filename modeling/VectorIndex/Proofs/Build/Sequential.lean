import VectorIndex.Proofs.Build.Pipeline
import VectorIndex.Proofs.Build.Schedule

/-!
# One partition after the other

A pool that serves one partition after the other does what the parties do under one schedule: the
producer has its turns until a partition is queued, and one worker has its turns until the
partition is built.
-/

namespace VectorIndex

namespace WorkerPool

variable {pool : WorkerPool} {codebook : Codebook} {directory : Path}
  {encoders : List (Except IndexError Encoder)} {taken : Nat} {partition : Partition}
  {rest : List (Except IndexError Partition)} {tree found : Tree}

theorem run_dispatch_crashed {error : IndexError}
    (hreuse : (pool.reuse? codebook directory partition).runOn tree = (.error error, found)) :
    (pool.dispatch codebook directory encoders taken (.ok partition :: rest)).run tree =
      (([], some producerCrash), found) := by
  change (pool.reuse? codebook directory partition).attempt.run tree = _ at hreuse
  rw [dispatch, StoreProgram.run_bind, hreuse]
  rfl

theorem run_dispatch_reused {summary : SegmentSummary}
    (hreuse : (pool.reuse? codebook directory partition).runOn tree =
      (.ok (some summary), found)) :
    (pool.dispatch codebook directory encoders taken (.ok partition :: rest)).run tree =
      ((⟨partition.index, .ok summary⟩ ::
          ((pool.dispatch codebook directory encoders taken rest).run found).1.1,
        ((pool.dispatch codebook directory encoders taken rest).run found).1.2),
        ((pool.dispatch codebook directory encoders taken rest).run found).2) := by
  change (pool.reuse? codebook directory partition).attempt.run tree = _ at hreuse
  rw [dispatch, StoreProgram.run_bind, hreuse]
  exact StoreProgram.run_bind _ _ found

/-- A partition that has to be built goes to the next worker in turn. -/
theorem run_dispatch_built {result : Except IndexError SegmentSummary} {built : Tree}
    (hreuse : (pool.reuse? codebook directory partition).runOn tree = (.ok none, found))
    (hbuild : (pool.buildOn codebook directory (taken % pool.workerCount)
      (encoders.getD (taken % pool.workerCount) (.error (.encoder "no such worker")))
        partition).run found = (result, built)) :
    (pool.dispatch codebook directory encoders taken (.ok partition :: rest)).run tree =
      ((⟨partition.index, result⟩ ::
          ((pool.dispatch codebook directory encoders (taken + 1) rest).run built).1.1,
        ((pool.dispatch codebook directory encoders (taken + 1) rest).run built).1.2),
        ((pool.dispatch codebook directory encoders (taken + 1) rest).run built).2) := by
  change (pool.reuse? codebook directory partition).attempt.run tree = _ at hreuse
  rw [dispatch, StoreProgram.run_bind, hreuse]
  dsimp only
  rw [StoreProgram.run_bind, hbuild]
  exact StoreProgram.run_bind _ _ built

end WorkerPool

namespace Crew

variable {crew : Crew} {state later last : PoolState} {tree between changed : Tree}

/-- Some schedule takes the pool from one state to the other. -/
def Leads (crew : Crew) (state : PoolState) (tree : Tree) (later : PoolState)
    (changed : Tree) : Prop :=
  ∃ schedule, (crew.follow schedule state).run tree = (later, changed)

theorem leads_refl (crew : Crew) (state : PoolState) (tree : Tree) :
    crew.Leads state tree state tree :=
  ⟨[], rfl⟩

theorem Leads.of_turn (party : Party)
    (hturn : (crew.turn party state).run tree = (later, between))
    (hleads : crew.Leads later between last changed) : crew.Leads state tree last changed := by
  obtain ⟨schedule, hfollow⟩ := hleads
  refine ⟨party :: schedule, ?_⟩
  rw [follow, StoreProgram.run_bind, hturn]
  exact hfollow

theorem Leads.trans (hfirst : crew.Leads state tree later between)
    (hsecond : crew.Leads later between last changed) : crew.Leads state tree last changed := by
  obtain ⟨schedule, hfollow⟩ := hfirst
  induction schedule generalizing state tree with
  | nil =>
    obtain ⟨rfl, rfl⟩ := Prod.mk.inj hfollow
    exact hsecond
  | cons party rest ih =>
    rw [follow, StoreProgram.run_bind] at hfollow
    exact Leads.of_turn party rfl (ih hfollow)

/-! ## The turns of one party -/

section

variable {stream : List (Except IndexError Partition)} {partition : Partition}
  {queue : List Partition} {activities : List Activity} {outcomes : List Outcome}

/-- The producer examines to the end. -/
theorem leads_examining (program : StoreProgram (Except IndexError (Option SegmentSummary)))
    (tree : Tree) :
    crew.Leads ⟨stream, .examining partition program, queue, activities, outcomes⟩ tree
      ⟨stream, .examining partition (.done (program.run tree).1), queue, activities, outcomes⟩
      (program.run tree).2 := by
  induction program generalizing tree with
  | done reused => exact leads_refl crew _ tree
  | act action next ih => exact Leads.of_turn .producer rfl (ih _ _)

/-- A worker builds to the end. -/
theorem leads_building {production : Production} {index : Nat} (hindex : index < activities.length)
    (program : StoreProgram (Except IndexError SegmentSummary)) (tree : Tree) :
    crew.Leads ⟨stream, production, queue,
        activities.set index (.building partition program), outcomes⟩ tree
      ⟨stream, production, queue,
        activities.set index (.building partition (.done (program.run tree).1)), outcomes⟩
      (program.run tree).2 := by
  induction program generalizing tree with
  | done result => exact leads_refl crew _ tree
  | act action next ih =>
    refine Leads.of_turn (.worker index) ?_ (ih _ _)
    show (crew.work index _).run tree = _
    unfold work
    simp only [List.getElem?_set_self hindex, List.set_set]
    rfl

/-! ## One partition -/

/-- The producer reads a partition. -/
theorem run_reading (stream : List (Except IndexError Partition)) (partition : Partition)
    (queue : List Partition) (activities : List Activity) (outcomes : List Outcome)
    (tree : Tree) :
    (crew.turn .producer ⟨.ok partition :: stream, .reading, queue, activities, outcomes⟩).run
      tree = (⟨stream, if crew.pool.resume then
          .examining partition (Shard.reusable? crew.codebook crew.directory partition).attempt
        else .offering partition, queue, activities, outcomes⟩, tree) := rfl

/-- A producer that resumes examines a partition to the end. -/
theorem leads_examined (hresume : crew.pool.resume = true)
    {result : Except IndexError (Option SegmentSummary)}
    (hreuse : (crew.pool.reuse? crew.codebook crew.directory partition).runOn tree =
      (result, changed)) :
    crew.Leads ⟨.ok partition :: stream, .reading, queue, activities, outcomes⟩ tree
      ⟨stream, .examining partition (.done result), queue, activities, outcomes⟩ changed := by
  unfold WorkerPool.reuse? at hreuse
  rw [if_pos hresume] at hreuse
  change (Shard.reusable? crew.codebook crew.directory partition).attempt.run tree = _ at hreuse
  refine Leads.of_turn .producer (run_reading ..) ?_
  rw [if_pos hresume]
  have hexamined : crew.Leads ⟨stream, .examining partition
      (Shard.reusable? crew.codebook crew.directory partition).attempt, queue, activities, outcomes⟩
      tree _ _ := leads_examining _ tree
  rwa [hreuse] at hexamined

/-- Without resuming no partition is examined. -/
theorem resume_of_ne {result : Except IndexError (Option SegmentSummary)}
    (hreuse : (crew.pool.reuse? crew.codebook crew.directory partition).runOn tree =
      (result, changed)) (hresult : result ≠ .ok none) : crew.pool.resume = true := by
  by_contra hresume
  unfold WorkerPool.reuse? at hreuse
  rw [if_neg hresume] at hreuse
  exact hresult (Prod.mk.inj hreuse).1.symm

/-- The producer reads a partition over whose segment it crashes. -/
theorem leads_crashed {error : IndexError}
    (hreuse : (crew.pool.reuse? crew.codebook crew.directory partition).runOn tree =
      (.error error, changed)) :
    crew.Leads ⟨.ok partition :: stream, .reading, queue, activities, outcomes⟩ tree
      ⟨stream, .crashed partition, queue, activities, outcomes⟩ changed :=
  (leads_examined (resume_of_ne hreuse nofun) hreuse).trans
    (.of_turn .producer rfl (leads_refl crew _ _))

/-- The producer reads a partition that it does not have to build. -/
theorem leads_reused {summary : SegmentSummary}
    (hreuse : (crew.pool.reuse? crew.codebook crew.directory partition).runOn tree =
      (.ok (some summary), changed)) :
    crew.Leads ⟨.ok partition :: stream, .reading, queue, activities, outcomes⟩ tree
      ⟨stream, .reading, queue, activities, outcomes ++ [⟨partition.index, .ok summary⟩]⟩
      changed :=
  (leads_examined (resume_of_ne hreuse nofun) hreuse).trans
    (.of_turn .producer rfl (leads_refl crew _ _))

/-- The producer reads a partition that has to be built. -/
theorem leads_offering
    (hreuse : (crew.pool.reuse? crew.codebook crew.directory partition).runOn tree =
      (.ok none, changed)) :
    crew.Leads ⟨.ok partition :: stream, .reading, queue, activities, outcomes⟩ tree
      ⟨stream, .offering partition, queue, activities, outcomes⟩ changed := by
  cases hresume : crew.pool.resume with
  | false =>
    unfold WorkerPool.reuse? at hreuse
    rw [hresume] at hreuse
    obtain ⟨-, rfl⟩ := Prod.mk.inj hreuse
    refine Leads.of_turn .producer (run_reading ..) ?_
    rw [hresume]
    exact leads_refl crew _ tree
  | true =>
    exact (leads_examined hresume hreuse).trans (.of_turn .producer rfl (leads_refl crew _ _))

/-- A partition is queued, taken, built and done with while nothing else happens. -/
theorem leads_built {index : Nat} (hindex : index < activities.length)
    (hidle : activities[index] = .idle) (hworkers : 0 < crew.pool.workerCount)
    {result : Except IndexError SegmentSummary}
    (hbuild : (crew.build index partition).run tree = (result, changed)) :
    crew.Leads ⟨stream, .offering partition, [], activities, outcomes⟩ tree
      ⟨stream, .reading, [], activities, outcomes ++ [⟨partition.index, result⟩]⟩ changed := by
  have hoffer : (crew.turn .producer ⟨stream, .offering partition, [], activities, outcomes⟩).run
      tree = (⟨stream, .reading, [partition], activities, outcomes⟩, tree) := by
    unfold turn produce
    simp only [List.length_nil, hworkers, if_true]
    rfl
  have htake : (crew.turn (.worker index)
      ⟨stream, .reading, [partition], activities, outcomes⟩).run tree =
        (⟨stream, .reading, [], activities.set index
          (.building partition (crew.build index partition)), outcomes⟩, tree) := by
    unfold turn work
    simp only [List.getElem?_eq_getElem hindex, hidle]
    rfl
  have hdone : (crew.turn (.worker index) ⟨stream, .reading, [],
      activities.set index (.building partition (.done result)), outcomes⟩).run changed =
        (⟨stream, .reading, [], activities, outcomes ++ [⟨partition.index, result⟩]⟩,
          changed) := by
    unfold turn work
    simp only [List.getElem?_set_self hindex, List.set_set]
    rw [← hidle, List.set_getElem_self hindex]
    rfl
  refine Leads.of_turn .producer hoffer (Leads.of_turn (.worker index) htake ?_)
  refine (leads_building hindex _ tree).trans ?_
  rw [hbuild]
  exact Leads.of_turn (.worker index) hdone (leads_refl crew _ _)

end

/-! ## All partitions -/

/-- Serving one partition after the other is a schedule. -/
theorem leads_dispatch (crew : Crew) (taken : Nat) (stream : List (Except IndexError Partition))
    (outcomes : List Outcome) (tree : Tree) :
    ∃ rest production, production.failure? = some ((crew.pool.dispatch crew.codebook
        crew.directory crew.encoders taken stream).run tree).1.2 ∧
      crew.Leads ⟨stream, .reading, [], List.replicate crew.pool.workerCount .idle, outcomes⟩ tree
        ⟨rest, production, [], List.replicate crew.pool.workerCount .idle,
          outcomes ++ ((crew.pool.dispatch crew.codebook crew.directory crew.encoders taken
            stream).run tree).1.1⟩
        ((crew.pool.dispatch crew.codebook crew.directory crew.encoders taken stream).run
          tree).2 := by
  have hworkers : 0 < crew.pool.workerCount := Nat.lt_of_lt_of_le Nat.one_pos (Nat.le_max_right _ _)
  induction stream generalizing taken outcomes tree with
  | nil =>
    refine ⟨[], .stopped none, rfl, Leads.of_turn .producer rfl ?_⟩
    rw [WorkerPool.dispatch, StoreProgram.run_pure, List.append_nil]
    exact leads_refl crew _ tree
  | cons item rest ih =>
    cases item with
    | error error =>
      refine ⟨.error error :: rest, .stopped (some error), rfl, Leads.of_turn .producer rfl ?_⟩
      rw [WorkerPool.dispatch, StoreProgram.run_pure, List.append_nil]
      exact leads_refl crew _ tree
    | ok partition =>
      rcases hreuse : (crew.pool.reuse? crew.codebook crew.directory partition).runOn tree with
        ⟨error | _ | summary, found⟩
      · rw [WorkerPool.run_dispatch_crashed hreuse, List.append_nil]
        exact ⟨rest, .crashed partition, rfl, leads_crashed hreuse⟩
      · have hindex : taken % crew.pool.workerCount <
            (List.replicate crew.pool.workerCount Activity.idle).length := by
          rw [List.length_replicate]
          exact Nat.mod_lt _ hworkers
        cases hbuild : (crew.build (taken % crew.pool.workerCount) partition).run found with
        | mk result built =>
          obtain ⟨stream, production, hfailure, hrest⟩ := ih (taken + 1)
            (outcomes ++ [⟨partition.index, result⟩]) built
          rw [List.append_assoc] at hrest
          rw [WorkerPool.run_dispatch_built hreuse hbuild]
          refine ⟨stream, production, hfailure,
            (leads_offering hreuse).trans (Leads.trans ?_ hrest)⟩
          exact leads_built hindex (List.getElem_replicate hindex) hworkers hbuild
      · obtain ⟨stream, production, hfailure, hrest⟩ :=
          ih taken (outcomes ++ [⟨partition.index, .ok summary⟩]) found
        rw [List.append_assoc] at hrest
        rw [WorkerPool.run_dispatch_reused hreuse]
        exact ⟨stream, production, hfailure, (leads_reused hreuse).trans hrest⟩

end Crew

/-! ## The report -/

namespace WorkerPool

/-- Partitions that are served one after the other have their outcomes in their own order, up to one
over whose segment the producer crashes. -/
theorem map_partition_dispatch (pool : WorkerPool) (codebook : Codebook) (directory : Path)
    (encoders : List (Except IndexError Encoder)) (taken : Nat)
    (stream : List (Except IndexError Partition)) (tree : Tree) :
    ((pool.dispatch codebook directory encoders taken stream).run tree).1.1.map (·.partition) <+:
      (Partition.leading stream).map (·.index) := by
  induction stream generalizing taken tree with
  | nil => exact List.prefix_refl _
  | cons item rest ih =>
    cases item with
    | error error => exact List.prefix_refl _
    | ok partition =>
      rw [Partition.leading, List.map_cons]
      rcases hreuse : (pool.reuse? codebook directory partition).runOn tree with
        ⟨error | _ | summary, found⟩
      · rw [run_dispatch_crashed hreuse]
        exact List.nil_prefix
      · rw [run_dispatch_built hreuse rfl, List.map_cons, List.prefix_cons_inj]
        exact ih _ _
      · rw [run_dispatch_reused hreuse, List.map_cons, List.prefix_cons_inj]
        exact ih _ _

end WorkerPool

/-- A pool whose production has ended reports its outcomes when they are in order. -/
theorem PoolState.report?_of_failure? {stream : List (Except IndexError Partition)}
    {production : Production} {failure : Option IndexError}
    (hfailure : production.failure? = some failure) {workers : Nat} {outcomes : List Outcome}
    (hordered : (outcomes.map (·.partition)).Pairwise (· ≤ ·)) :
    report? ⟨stream, production, [], List.replicate workers .idle, outcomes⟩ =
      some (outcomes, PoolReport.ofOutcomes outcomes failure) := by
  have hsorted : outcomes.mergeSort (fun a b ↦ a.partition ≤ b.partition) = outcomes := by
    apply List.mergeSort_of_pairwise
    rw [List.pairwise_map] at hordered
    exact hordered.imp fun hle ↦ decide_eq_true hle
  have hrest : IsAtRest ⟨stream, production, [], List.replicate workers .idle, outcomes⟩ :=
    ⟨rfl, fun _ hactivity ↦ List.eq_of_mem_replicate hactivity⟩
  exact report?_eq_some.mpr ⟨failure, hfailure, hrest, hsorted.symm, rfl⟩

/-- What the pool does with one partition after the other, it does under some schedule. -/
theorem WorkerPool.exists_schedule (pool : WorkerPool) (codebook : Codebook) (directory : Path)
    (factory : EncoderFactory) {stream : List (Except IndexError Partition)}
    (hordered : ((Partition.leading stream).map (·.index)).Pairwise (· ≤ ·)) (tree : Tree) :
    ∃ schedule, (pool.runAlong codebook directory factory stream schedule).run tree =
      (some ((pool.run codebook directory factory stream).run tree).1,
        ((pool.run codebook directory factory stream).run tree).2) := by
  unfold run runAlong
  simp only [StoreProgram.run_bind, StoreProgram.run_pure]
  generalize (pool.createEncoders factory).run tree = created
  obtain ⟨encoders, made⟩ := created
  obtain ⟨rest, production, hfailure, schedule, hfollow⟩ :=
    Crew.leads_dispatch ⟨pool, codebook, directory, encoders⟩ 0 stream [] made
  refine ⟨schedule, ?_⟩
  have hserved := hordered.sublist
    (map_partition_dispatch pool codebook directory encoders 0 stream made).sublist
  show (((Crew.follow _ schedule _).run made).1.report?, ((Crew.follow _ schedule _).run made).2) = _
  unfold PoolState.start
  rw [hfollow, List.nil_append, PoolState.report?_of_failure? hfailure hserved]

/-! ## The pipeline -/

theorem Partition.pairwise_leading_numbered (index : PartitionIndex) (base : DocumentId)
    (pieces : List (List (Except IndexError String))) :
    ((leading (numbered index base pieces)).map (·.index)).Pairwise (· ≤ ·) ∧
      ∀ later ∈ (leading (numbered index base pieces)).map (·.index), index ≤ later := by
  induction pieces generalizing index base with
  | nil => exact ⟨.nil, nofun⟩
  | cons piece rest ih =>
    rw [numbered]
    cases collect piece with
    | error error => exact ⟨.nil, nofun⟩
    | ok items =>
      obtain ⟨hpairwise, hle⟩ := ih (index + 1) (base + items.length)
      have hlater : ∀ later ∈ (leading (numbered (index + 1) (base + items.length) rest)).map
          (·.index), index ≤ later := fun later hlater ↦ Nat.le_of_succ_le (hle later hlater)
      rw [leading, List.map_cons, List.pairwise_cons, List.forall_mem_cons]
      exact ⟨⟨hlater, hpairwise⟩, Nat.le_refl index, hlater⟩

/-- Building the segments of one partition after the other is building them along a schedule. -/
theorem Pipeline.exists_schedule_buildShards (pipeline : Pipeline) (codebook : Codebook)
    (texts : Pass (Except IndexError String)) (progress : Progress) (tree : Tree) :
    ∃ schedule, (pipeline.buildShardsAlong schedule codebook texts).runOn progress tree =
      (some <$> pipeline.buildShards codebook texts).runOn progress tree := by
  have hordered := (Partition.pairwise_leading_numbered 0 0
    (chunks pipeline.settings.build.partitionSize texts.toList)).1
  unfold buildShardsAlong buildShards
  simp only [map_bind]
  cases hentered : pipeline.enterShards.runOn progress tree with
  | mk entered start =>
    obtain ⟨schedule, hschedule⟩ := pipeline.pool.exists_schedule codebook pipeline.layout.root
      pipeline.factory hordered start
    refine ⟨schedule, BuildProgram.runOn_bind_congr _ fun _ last changed hlast ↦ ?_⟩
    rw [hentered] at hlast
    obtain ⟨-, rfl⟩ := Prod.mk.inj hlast
    rw [BuildProgram.runOn_lift_bind, BuildProgram.runOn_lift_bind]
    unfold partitions
    rw [hschedule, map_eq_pure_bind]

end VectorIndex
