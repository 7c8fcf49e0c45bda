import IntervalIndex.Proofs.Document.Grouping
import IntervalIndex.Proofs.Packed.SlotVisits

namespace IntervalIndex

open Scratch Test

variable {ν α σ β γ π ρ : Type} {T : PosType} {start length : Pos T}

/-- A query, with all that it may change, is refused exactly when its range is, with the same reason,
and then changes nothing. -/
structure ChecksRange (start length : Pos T) (before : π) (run : Except (Stop T) β × π) : Prop where
  refused_iff : ∀ why, run.1 = .error (.rejected why) ↔ Span.ofLength start length = .error why
  unchanged : ∀ why, Span.ofLength start length = .error why → run.2 = before

theorem ChecksRange.of_error {before : π} {why : SpanError T}
    (h : Span.ofLength start length = .error why) :
    ChecksRange start length before ((.error (.rejected why), before) : Except (Stop T) β × π) where
  refused_iff why' := by simp [h]
  unchanged _ _ := rfl

theorem ChecksRange.of_ok {before : π} {run : Except (Stop T) β × π} {range : Span T}
    (h : Span.ofLength start length = .ok range) (hrun : ∀ why, run.1 ≠ .error (.rejected why)) :
    ChecksRange start length before run where
  refused_iff why := by simp [h, hrun why]
  unchanged why hwhy := by rw [h] at hwhy; cases hwhy

theorem ChecksRange.answer {before : π} {run : Except (Stop T) β × π}
    (h : ChecksRange start length before run) (f : π → β → γ) :
    ChecksRange start length before (run.1.map (f run.2), run.2) where
  refused_iff why := by
    rw [← h.refused_iff why]
    cases run.1 <;> simp [Except.map]
  unchanged := h.unchanged

theorem ChecksRange.rest {before : π} {run : Except (Stop T) β × π}
    (h : ChecksRange start length before run) (f : π → ρ) :
    ChecksRange start length (f before) (run.1, f run.2) where
  refused_iff := h.refused_iff
  unchanged why hwhy := congrArg f (h.unchanged why hwhy)

def Collected.effects (run : Collected T σ α × π) : Except (Stop T) Nat × Array α × σ × π :=
  (run.1.count, run.1.out, run.1.state, run.2)

def Searched.effects (run : Searched T σ × π) : Except (Stop T) Bool × σ × π :=
  (run.1.found, run.1.state, run.2)

namespace LinkTree

theorem exists_borrow_fst (pool : Option (Pool ν)) (use : Buffer ν → β × Buffer ν) :
    ∃ b, (borrow pool use).1 = (use b).1 := by
  cases pool with
  | none => exact ⟨.fresh, rfl⟩
  | some p => exact ⟨p.acquire.1, rfl⟩

variable (t : LinkTree ν α)

theorem scan_not_rejected (test : Test σ α) (firstOnly : Bool) (w : Walk ν) (out : Array α) (s : σ)
    (count : Nat) (why : SpanError T) :
    (t.scan test firstOnly w out s count).1.count ≠ .error (.rejected why) := by
  fun_induction scan (T := T) t test firstOnly w out s count with
  | case1 | case2 | case3 | case5 => simp
  | case4 _ _ _ _ _ _ _ _ _ _ _ ih | case6 _ _ _ _ _ _ _ _ _ _ _ _ ih => exact ih

theorem run_not_rejected (span : α → Span T) (query : Span T) (test : Test σ α)
    (q : Search ν σ α) (why : SpanError T) :
    (q.run t span query test).1.found ≠ .error (.rejected why) := by
  fun_induction Search.run (T := T) t span query test q with
  | case1 q found => cases found <;> simp [Except.mapError]
  | case2 q _ ih | case3 q _ _ _ ih | case4 q _ _ ih => exact ih

variable (start length)

theorem collect_checks (test : Test σ α) (firstOnly : Bool) (out : Array α) (s : σ)
    (pool : Option (Pool ν)) : ChecksRange start length (out, s, pool)
      (Collected.effects (t.collect start length test firstOnly out s pool)) := by
  cases hrange : Span.ofLength start length with
  | error why =>
    simp only [collect, hrange]
    exact .of_error hrange
  | ok range =>
    refine .of_ok hrange fun why => ?_
    simp only [Collected.effects, collect, hrange]
    obtain ⟨b, hb⟩ := exists_borrow_fst pool
      fun b => t.scan (T := T) test firstOnly (.start t b) out s 0
    rw [hb]
    exact t.scan_not_rejected test firstOnly _ out s 0 why

theorem any_checks (span : α → Span T) (test : Test σ α) (s : σ) (pool : Option (Pool ν)) :
    ChecksRange start length (s, pool)
      (Searched.effects (t.any span start length test s pool)) := by
  cases hrange : Span.ofLength start length with
  | error why =>
    simp only [any, hrange]
    exact .of_error hrange
  | ok range =>
    refine .of_ok hrange fun why => ?_
    simp only [Searched.effects, any, hrange]
    split
    · simp
    · next root _ =>
      obtain ⟨b, hb⟩ := exists_borrow_fst pool
        fun b => (Search.start root s b).run t span range test
      rw [hb]
      exact t.run_not_rejected span range test _ why

end LinkTree

namespace PackedTree

variable (t : PackedTree T α) (start length)

theorem collect_checks (test : Test σ α) (firstOnly : Bool) (out : Array α) (s : σ)
    (pool : Pool Nat) : ChecksRange start length (out, s, pool)
      (Collected.effects (t.collect start length test firstOnly out s pool)) :=
  (t.toLinkTree.collect_checks start length test firstOnly out s (some pool)).rest
    fun (out, s, pool?) => (out, s, pool?.getD pool)

theorem any_checks (test : Test σ α) (s : σ) (pool : Pool Nat) :
    ChecksRange start length (s, pool) (Searched.effects (t.any start length test s pool)) :=
  (t.toLinkTree.any_checks start length t.span test s (some pool)).rest
    fun (s, pool?) => (s, pool?.getD pool)

end PackedTree

namespace Test

/-- A test that has an answer for every value, whatever it was asked about before. -/
def NeverFaults (test : Test σ α) : Prop := ∀ s v f, (test s v).1 ≠ .error f

theorem neverFaults_ofPure (p : α → Bool) : (ofPure p).NeverFaults := by
  intro s v f h
  cases h

theorem NeverFaults.not_mem_answers {test : Test σ α} (h : test.NeverFaults) (s : σ) (vs : List α)
    (v : α) (f : Fault) : (v, .error f) ∉ test.answers s vs := by
  induction vs generalizing s with
  | nil => exact List.not_mem_nil
  | cons w vs ih =>
    rw [answers, List.mem_cons, not_or]
    exact ⟨fun heq => h s w f (congrArg Prod.snd heq).symm, ih _⟩

theorem NeverFaults.reply_asked {test : Test σ α} (h : test.NeverFaults) (firstOnly : Bool) (s : σ)
    (vs : List α) (answer : β) :
    (reply (test.asked firstOnly s vs) answer : Except (Stop T) β) = .ok answer :=
  reply_of_no_fault (fun v f hv => h.not_mem_answers s vs v f (List.mem_of_mem_take hv)) answer

end Test

/-- A query that is refused for its range only, and answered otherwise. -/
structure AnswersRange (start length : Pos T) (before : π) (run : Except (Stop T) β × π) : Prop
    extends ChecksRange start length before run where
  answered : ∀ range, Span.ofLength start length = .ok range → ∃ answer, run.1 = .ok answer

theorem AnswersRange.of_error {before : π} {why : SpanError T}
    (h : Span.ofLength start length = .error why) :
    AnswersRange start length before ((.error (.rejected why), before) : Except (Stop T) β × π) where
  toChecksRange := .of_error h
  answered range hrange := by rw [h] at hrange; cases hrange

theorem AnswersRange.of_ok {before : π} {run : Except (Stop T) β × π} {range : Span T} {answer : β}
    (h : Span.ofLength start length = .ok range) (hrun : run.1 = .ok answer) :
    AnswersRange start length before run where
  toChecksRange := .of_ok h (by simp [hrun])
  answered _ _ := ⟨answer, hrun⟩

theorem AnswersRange.answer {before : π} {run : Except (Stop T) β × π}
    (h : AnswersRange start length before run) (f : π → β → γ) :
    AnswersRange start length before (run.1.map (f run.2), run.2) where
  toChecksRange := h.toChecksRange.answer f
  answered range hrange := by
    obtain ⟨answer, hanswer⟩ := h.answered range hrange
    exact ⟨f run.2 answer, by rw [hanswer]; rfl⟩

theorem AnswersRange.rest {before : π} {run : Except (Stop T) β × π}
    (h : AnswersRange start length before run) (f : π → ρ) :
    AnswersRange start length (f before) (run.1, f run.2) where
  toChecksRange := h.toChecksRange.rest f
  answered := h.answered

namespace LinkTree.Readable

variable {t : LinkTree ν α} {test : Test σ α} {pool : Option (Pool ν)}

theorem collect_answers (ht : t.Readable) (htest : test.NeverFaults)
    (hpool : ∀ p ∈ pool, p.Clean) (firstOnly : Bool) (out : Array α) (s : σ) :
    AnswersRange start length (out, s, pool)
      (Collected.effects (t.collect start length test firstOnly out s pool)) where
  toChecksRange := t.collect_checks start length test firstOnly out s pool
  answered range hrange := by
    obtain ⟨values, hvalues⟩ : ∃ values, t.values = .ok values :=
      exists_mapM fun n hn => ht.value n (BinTree.mem_preOrder_iff.mpr hn)
    rw [Collected.effects, collect_fst hvalues hrange test firstOnly out s hpool,
      Collected.ofValues_eq]
    exact ⟨_, htest.reply_asked _ _ _ _⟩

theorem any_answers (ht : t.Readable) (htest : test.NeverFaults) (hpool : ∀ p ∈ pool, p.Clean)
    (span : α → Span T) (s : σ) : AnswersRange start length (s, pool)
      (Searched.effects (t.any span start length test s pool)) where
  toChecksRange := t.any_checks start length span test s pool
  answered range hrange := by
    obtain ⟨hlength, hstop, -⟩ := Span.ofLength_eq_ok_iff.mp hrange
    obtain ⟨values, hvalues⟩ := ht.exists_values span start length
    rw [Searched.effects, any_fst_eq ht hlength hstop hvalues test s hpool]
    exact ⟨_, htest.reply_asked _ _ _ _⟩

end LinkTree.Readable

namespace PackedTree

variable {t : PackedTree T α} {pool : Pool Nat} (ht : t.toLinkTree.Readable) (hpool : pool.Clean)

include ht hpool

theorem collect_answers {test : Test σ α} (htest : test.NeverFaults) (firstOnly : Bool)
    (out : Array α) (s : σ) : AnswersRange start length (out, s, pool)
      (Collected.effects (t.collect start length test firstOnly out s pool)) :=
  (ht.collect_answers htest hpool.of_mem_some firstOnly out s).rest
    fun (out, s, pool?) => (out, s, pool?.getD pool)

theorem any_answers {test : Test σ α} (htest : test.NeverFaults) (s : σ) :
    AnswersRange start length (s, pool) (Searched.effects (t.any start length test s pool)) :=
  (ht.any_answers htest hpool.of_mem_some t.span s).rest fun (s, pool?) => (s, pool?.getD pool)

theorem matching_answers (r : Relation) (firstOnly : Bool) :
    AnswersRange start length pool (t.matching r start length firstOnly pool) :=
  ((collect_answers ht hpool (Test.neverFaults_ofPure _) firstOnly #[] ()).answer
    fun (out, _) _ => out).rest fun (_, _, pool) => pool

theorem firstOverlapping_answers :
    AnswersRange start length pool (t.firstOverlapping start length pool) :=
  (matching_answers ht hpool .overlaps true).answer fun _ => Array.back?

theorem has_answers (r : Relation) :
    AnswersRange start length pool (t.has r start length pool) :=
  (any_answers ht hpool (Test.neverFaults_ofPure _) ()).rest fun (_, pool) => pool

end PackedTree

namespace Catalog

variable {catalog : Catalog} {order : Order} {records : List Record}
  (h : catalog.Holds order records) (name : String) {start length : Pos .i64} (r : Relation)
  {pool : Pool Nat} (hpool : pool.Clean)

include h hpool

theorem query_answers (firstOnly : Bool) :
    AnswersRange start length pool (catalog.query name start length r firstOnly pool) := by
  rw [query]
  split
  · next hrange => exact .of_error hrange
  · next hrange _ => exact .of_ok hrange rfl
  · next htree => exact PackedTree.matching_answers (h.of_get? htree).2.readable hpool r firstOnly

theorem any_answers : AnswersRange start length pool (catalog.any name start length r pool) := by
  rw [any]
  split
  · next hrange => exact .of_error hrange
  · next hrange _ => exact .of_ok hrange rfl
  · next htree => exact PackedTree.has_answers (h.of_get? htree).2.readable hpool r

end Catalog

/-- A range is refused for a negative length, or else for an end that does not fit. Every query, of any
tree and with any test, is refused exactly when its range is, for the same reason, and then nothing has
changed: not what was collected, nor the state of the test, which was asked about no value, nor the
pool. A query of a tree that can be read is answered otherwise, if its test never faults, and so are
the queries of a built tree, an empty one too, and those about a document, whether it has a tree or
not. -/
theorem queries_refused_for_range_only (start length : Pos T) :
    (∀ why, Span.ofLength start length = .error why ↔
      length.val < 0 ∧ why = .negativeLength start length ∨
        0 ≤ length.val ∧ ¬ (T.min ≤ start.val + length.val ∧ start.val + length.val ≤ T.max) ∧
          why = .overflow start length) ∧
    (∀ (t : LinkTree ν α) (span : α → Span T) (test : Test σ α) (s : σ) (pool : Option (Pool ν)),
      (∀ firstOnly out, ChecksRange start length (out, s, pool)
        (Collected.effects (t.collect start length test firstOnly out s pool))) ∧
      ChecksRange start length (s, pool) (Searched.effects (t.any span start length test s pool)) ∧
      (t.Readable → test.NeverFaults → (∀ p ∈ pool, p.Clean) →
        (∀ firstOnly out, AnswersRange start length (out, s, pool)
          (Collected.effects (t.collect start length test firstOnly out s pool))) ∧
        AnswersRange start length (s, pool)
          (Searched.effects (t.any span start length test s pool)))) ∧
    (∀ (span : α → Span T) (values : List α) (t : PackedTree T α),
      (PackedTree.ofSorted span values = .ok t ∨
        ∃ order : StartSort span, PackedTree.ofListBy order values = .ok t) →
      ∀ pool : Pool Nat, pool.Clean →
      (∀ (test : Test σ α) (s : σ),
        (∀ firstOnly out, ChecksRange start length (out, s, pool)
          (Collected.effects (t.collect start length test firstOnly out s pool))) ∧
        ChecksRange start length (s, pool) (Searched.effects (t.any start length test s pool)) ∧
        (test.NeverFaults →
          (∀ firstOnly out, AnswersRange start length (out, s, pool)
            (Collected.effects (t.collect start length test firstOnly out s pool))) ∧
          AnswersRange start length (s, pool)
            (Searched.effects (t.any start length test s pool)))) ∧
      (∀ r, AnswersRange start length pool (t.find r start length pool) ∧
        AnswersRange start length pool (t.has r start length pool)) ∧
      AnswersRange start length pool (t.firstOverlapping start length pool)) ∧
    ∀ (order : Catalog.Order) (records : List Record) (catalog : Catalog),
      Catalog.ofRecordsBy order records = .ok catalog →
      ∀ (name : String) (start length : Pos .i64) (r : Relation) (pool : Pool Nat), pool.Clean →
      (∀ firstOnly,
        AnswersRange start length pool (catalog.query name start length r firstOnly pool)) ∧
      AnswersRange start length pool (catalog.any name start length r pool) := by
  refine ⟨fun why => Span.ofLength_eq_error_iff, ?_, ?_, ?_⟩
  · intro t span test s pool
    refine ⟨fun firstOnly out => t.collect_checks start length test firstOnly out s pool,
      t.any_checks start length span test s pool, fun ht htest hpool => ⟨fun firstOnly out => ?_, ?_⟩⟩
    · exact ht.collect_answers htest hpool firstOnly out s
    · exact ht.any_answers htest hpool span s
  · intro span values t hbuild pool hpool
    obtain ⟨-, held, -, hholds⟩ := PackedTree.holds_of_build hbuild
    have ht := hholds.readable
    refine ⟨fun test s => ⟨fun firstOnly out => ?_, ?_, fun htest => ⟨fun firstOnly out => ?_, ?_⟩⟩,
      fun r => ⟨?_, ?_⟩, ?_⟩
    · exact t.collect_checks start length test firstOnly out s pool
    · exact t.any_checks start length test s pool
    · exact PackedTree.collect_answers ht hpool htest firstOnly out s
    · exact PackedTree.any_answers ht hpool htest s
    · exact PackedTree.matching_answers ht hpool r false
    · exact PackedTree.has_answers ht hpool r
    · exact PackedTree.firstOverlapping_answers ht hpool
  · intro order records catalog hcatalog name start length r pool hpool
    have hholds := Catalog.holds_of_ofRecordsBy hcatalog
    exact ⟨fun firstOnly => Catalog.query_answers hholds name r hpool firstOnly,
      Catalog.any_answers hholds name r hpool⟩

theorem queries_refused_for_range_only_greatest :
    let t := LinkTree.lopsided.toLinkTree
    let start : Pos .i64 := .greatest
    let collected length :=
      t.collect start length everySecond.recording false #[] (true, []) (some .new)
    (collected (.clamp 1)).1.count = .error (.rejected (.overflow start (.clamp 1))) ∧
      (collected (.clamp 1)).1.state.2 = [] ∧
      (∃ found, (t.any id start .zero everySecond true (some .new)).1.found = .ok found) ∧
      (∃ t, PackedTree.ofSorted id PackedTree.tiedSpans = .ok t ∧
        (t.has .contains start (.clamp 1) .new).1 =
          .error (.rejected (.overflow start (.clamp 1)))) ∧
      ∃ catalog, Catalog.ofRecords Catalog.mixedRecords = .ok catalog ∧
        (catalog.query "c" start (.clamp (-5)) .overlaps false .new).1 =
          .error (.rejected (.negativeLength start (.clamp (-5)))) ∧
        ∃ hits, (catalog.query "c" start .zero .overlaps false .new).1 = .ok hits := by
  intro t start collected
  have hstages : (Pool.new : Pool NodeTable.Stage).Clean := Pool.clean_withLimits default
  have hslots : (Pool.new : Pool Nat).Clean := Pool.clean_withLimits default
  have hnever : everySecond.NeverFaults (α := Span .i64) := by
    intro s v f h
    cases h
  have hpast : Span.ofLength start (.clamp 1) = .error (.overflow start (.clamp 1)) := by decide
  obtain ⟨-, hlinks, -, hcatalogs⟩ :=
    queries_refused_for_range_only (ν := NodeTable.Stage) (α := Span .i64) (σ := Bool) start .zero
  obtain ⟨-, hrecorded, hbuilt, -⟩ := queries_refused_for_range_only (ν := NodeTable.Stage)
    (α := Span .i64) (σ := Bool × List (Span .i64)) start (.clamp 1)
  obtain ⟨hcollect, -⟩ := hrecorded t id everySecond.recording (true, []) (some .new)
  obtain ⟨-, -, hanswered⟩ := hlinks t id everySecond true (some .new)
  refine ⟨((hcollect false #[]).refused_iff _).mpr hpast, ?_, ?_, ?_, ?_⟩
  · exact congrArg (fun effects => effects.2.1.2) ((hcollect false #[]).unchanged _ hpast)
  · have hany := (hanswered LinkTree.lopsided_readable hnever hstages.of_mem_some).2
    exact hany.answered ⟨start, start⟩ (by decide)
  · obtain ⟨tree, htree, -⟩ := @PackedTree.ofSorted_ok .i64 _ id PackedTree.tiedSpans (by decide)
      (by decide)
    obtain ⟨-, hrelations, -⟩ := hbuilt id _ tree (.inl htree) .new hslots
    exact ⟨tree, htree, ((hrelations .contains).2.refused_iff _).mpr hpast⟩
  · obtain ⟨catalog, hcatalog, -⟩ :=
      Catalog.ofRecordsBy_ok .standard Catalog.ofLength_mixedRecords
    refine ⟨catalog, hcatalog, ?_, ?_⟩
    · obtain ⟨hquery, -⟩ := hcatalogs .standard _ _ hcatalog "c" start (.clamp (-5)) .overlaps .new hslots
      exact ((hquery false).refused_iff _).mpr (by decide)
    · obtain ⟨hquery, -⟩ := hcatalogs .standard _ _ hcatalog "c" start .zero .overlaps .new hslots
      exact (hquery false).answered ⟨start, start⟩ (by decide)

end IntervalIndex
