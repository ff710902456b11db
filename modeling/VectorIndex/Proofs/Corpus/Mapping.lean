import VectorIndex.Corpus.Mapping
import VectorIndex.Proofs.Corpus.Partition
import VectorIndex.Proofs.Store.Sharing

/-!
# What a corpus lists

A corpus whose every line that is not blank is a good record lists its records. Every pass over it
sees the same ones: the mapping takes their external ids, and a build takes their texts.
-/

namespace VectorIndex

open IndexProgram (perform_check_bind_ok runOn_bind_ok runOn_ofExcept_ok runOn_pure_ok)

namespace Corpus

variable {corpus : Corpus} {tree changed : Tree} {records : List Record}

/-- The corpus can be read, and its records are these and all good. -/
def Lists (corpus : Corpus) (tree : Tree) (records : List Record) : Prop :=
  ∃ contents, tree.read corpus.path = .ok contents ∧
    corpus.recordsOf contents = records.map .ok

theorem Lists.unique {others : List Record} (hfirst : corpus.Lists tree records)
    (hsecond : corpus.Lists tree others) : records = others := by
  obtain ⟨contents, hread, hrecords⟩ := hfirst
  obtain ⟨same, hsame, hothers⟩ := hsecond
  obtain rfl := Except.ok.inj (hread.symm.trans hsame)
  exact List.map_injective_iff.mpr (fun _ _ ↦ Except.ok.inj) (hrecords.symm.trans hothers)

/-- A corpus lists the same as long as its file is not altered. -/
theorem Lists.alters {places : Location → Prop} (hlists : corpus.Lists tree records)
    (halters : tree.Alters changed places)
    (hplace : ∀ location, Location.ofPath corpus.path = some location → ¬ places location) :
    corpus.Lists changed records := by
  obtain ⟨contents, hread, hrecords⟩ := hlists
  exact ⟨contents, halters.read hread hplace, hrecords⟩

theorem lists_tick : corpus.Lists tree.tick records ↔ corpus.Lists tree records :=
  exists_congr fun _ ↦ and_congr_left fun _ ↦ Tree.read_tick_ok

/-! ## Lines and records -/

/-- The texts of the lines that are not blank. -/
def filled (lines : List Bytes) : List (List Char) :=
  (lines.filterMap Utf8.decodeChars).filter fun text ↦ !(Text.trim text).isEmpty

/-- The records are those of the lines that are not blank, each with the number of records before
it. -/
theorem recordsFrom_ok {lines : List Bytes} {line before : Nat}
    (hrecords : corpus.recordsFrom lines line before = records.map .ok) :
    (filled lines).length = records.length ∧
      ∀ position text record, (filled lines)[position]? = some text →
        records[position]? = some record →
          ∃ number, corpus.parse number (before + position) (String.ofList text) = .ok record := by
  induction lines generalizing line before records with
  | nil =>
    rw [recordsFrom, eq_comm, List.map_eq_nil_iff] at hrecords
    subst hrecords
    exact ⟨rfl, nofun⟩
  | cons bytes rest ih =>
    rw [recordsFrom] at hrecords
    unfold filled
    cases hdecode : Utf8.decodeChars bytes with
    | none =>
      rw [hdecode] at hrecords
      cases records with
      | nil => cases hrecords
      | cons record later => cases hrecords
    | some text =>
      rw [hdecode] at hrecords
      dsimp only at hrecords
      rw [List.filterMap_cons_some hdecode]
      by_cases hblank : (Text.trim text).isEmpty = true
      · rw [if_pos hblank] at hrecords
        rw [List.filter_cons_of_neg (by simp [hblank])]
        exact ih hrecords
      · rw [if_neg hblank] at hrecords
        rw [List.filter_cons_of_pos (by simp [hblank])]
        cases records with
        | nil => cases hrecords
        | cons record later =>
          rw [List.map_cons, List.cons.injEq] at hrecords
          obtain ⟨hlength, hlater⟩ := ih hrecords.2
          refine ⟨congrArg Nat.succ hlength, fun position other found hother hfound ↦ ?_⟩
          cases position with
          | zero =>
            obtain rfl := Option.some.inj hother
            obtain rfl := Option.some.inj hfound
            exact ⟨line + 1, hrecords.1⟩
          | succ position =>
            rw [← Nat.add_assoc, Nat.add_right_comm]
            exact hlater position other found hother hfound

/-! ## Passes over a corpus -/

theorem records_onlyReads (corpus : Corpus) : StoreProgram.OnlyReads (ExceptT.run corpus.records) := by
  refine ⟨fun _ ↦ rfl, fun answer ↦ ?_⟩
  cases answer with
  | error fault => trivial
  | ok source => cases source <;> trivial

/-- A pass without an error is one over the records of the corpus. -/
theorem records_ok {pass : Pass (Except IndexError Record)}
    (hrun : corpus.records.runOn tree = (.ok pass, changed))
    (hpass : pass.toList = records.map .ok) : corpus.Lists tree records := by
  unfold Corpus.records at hrun
  obtain ⟨source, hsource, hrun⟩ := perform_check_bind_ok.mp hrun
  cases source with
  | directory =>
    obtain ⟨rfl, -⟩ := runOn_pure_ok.mp hrun
    cases records with
    | nil => cases hpass
    | cons record rest => cases hpass
  | file contents =>
    obtain ⟨rfl, -⟩ := runOn_pure_ok.mp hrun
    refine ⟨contents, Tree.fetch_eq_ok.mp hsource, ?_⟩
    exact (List.append_nil _).symm.trans hpass

theorem runOn_records (hlists : corpus.Lists tree records) :
    corpus.records.runOn tree = (.ok (.ofList (records.map .ok)), tree) := by
  obtain ⟨contents, hread, hrecords⟩ := hlists
  have hsource := Tree.fetch_eq_ok.mpr hread
  unfold Corpus.records
  rw [IndexProgram.runOn_bind, IndexProgram.runOn_perform]
  dsimp only
  rw [hsource, ← hrecords]
  rfl

/-- A build takes the texts of the records. -/
theorem runOn_texts (hlists : corpus.Lists tree records) :
    corpus.texts.runOn tree = (.ok (.ofList ((records.map (·.text)).map .ok)), tree) := by
  unfold texts
  rw [IndexProgram.runOn_bind, runOn_records hlists]
  show (Except.ok (Pass.map _ (Pass.ofList _)), tree) = _
  unfold Pass.map Pass.ofList
  rw [List.map_map, List.map_map]
  rfl

end Corpus

namespace IdMapping

variable {corpus : Corpus} {tree changed : Tree} {mapping : IdMapping}

/-- The mapping takes the external ids of the records. -/
theorem ofCorpus_ok : (ofCorpus corpus).runOn tree = (.ok mapping, changed) ↔
    changed = tree ∧ ∃ records, corpus.Lists tree records ∧
      mapping = ⟨records.map (·.externalId)⟩ := by
  unfold ofCorpus
  constructor
  · intro hrun
    obtain ⟨pass, between, hpass, hrun₁⟩ := runOn_bind_ok.mp hrun
    obtain ⟨records, _, hrecords, hrun₂⟩ := runOn_bind_ok.mp hrun₁
    obtain ⟨hcollect, rfl⟩ := runOn_ofExcept_ok.mp hrecords
    obtain ⟨rfl, rfl⟩ := runOn_pure_ok.mp hrun₂
    have htree := corpus.records_onlyReads.run tree
    refine ⟨?_, records, Corpus.records_ok hpass (Partition.collect_eq_ok.mp hcollect), rfl⟩
    exact (congrArg Prod.snd hpass).symm.trans htree
  · rintro ⟨rfl, records, hlists, rfl⟩
    rw [IndexProgram.runOn_bind, Corpus.runOn_records hlists]
    dsimp only
    have hitems : (Pass.ofList (records.map (.ok : Record → Except IndexError Record))).toList =
        records.map .ok := List.append_nil _
    rw [hitems, Partition.collect_map_ok]
    rfl

theorem ofCorpus_onlyReads (corpus : Corpus) :
    StoreProgram.OnlyReads (ExceptT.run (ofCorpus corpus)) := by
  unfold ofCorpus
  rw [ExceptT.run_bind]
  apply corpus.records_onlyReads.bind
  intro result
  cases result with
  | error error => trivial
  | ok pass =>
    show StoreProgram.OnlyReads (ExceptT.run (IndexProgram.ofExcept _ >>= _))
    cases Partition.collect pass.toList with
    | error error => trivial
    | ok records => trivial

end IdMapping
end VectorIndex
