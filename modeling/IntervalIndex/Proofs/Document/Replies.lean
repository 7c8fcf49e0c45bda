import IntervalIndex.Document.Answers
import IntervalIndex.Proofs.Document.Grouping
import IntervalIndex.Proofs.Records.Appending
import IntervalIndex.Proofs.Records.Lines

namespace IntervalIndex

open Scratch Records

namespace Answers

def asked (entries : List (Except FileError (Option Record))) : List Record :=
  (entries.takeWhile (·.isOk)).filterMap fun entry => entry.toOption.join

def outcome (entries : List (Except FileError (Option Record))) : Except QueryError Nat :=
  match failure? entries with
  | some why => .error (.file why)
  | none => .ok (asked entries).length

variable {rest : List (Except FileError (Option Record))}

theorem outcome_error (why : FileError) : outcome (.error why :: rest) = .error (.file why) := rfl

theorem outcome_filler : outcome (.ok none :: rest) = outcome rest := rfl

theorem outcome_query (q : Record) :
    outcome (.ok (some q) :: rest) = (outcome rest).map (· + 1) := by
  change (match failure? rest with
    | some why => Except.error (QueryError.file why)
    | none => .ok ((asked rest).length + 1)) = _
  rw [outcome]
  cases failure? rest <;> rfl

/-- What is written for a query that has these matches. -/
def reply (o : QuerySettings) (q : Record) (hits : List Record) : String :=
  if o.existsOnly then s!"{q.document}\t{q.start}\t{q.length}\t{!hits.isEmpty}\n"
  else String.join ((if o.firstOnly then hits.take 1 else hits).map fun hit =>
    let label := hit.label.getD "."
    s!"{q.document}\t{q.start}\t{q.length}\t{hit.start}\t{hit.length}\t{label}\n")

theorem existsLine_eq (q : Record) (found : Bool) :
    existsLine q found = s!"{q.document}\t{q.start}\t{q.length}\t{found}\n" := by
  unfold existsLine line
  simp only [String.intercalate_cons_cons, String.intercalate_singleton, String.append_assoc]
  cases found <;> rfl

theorem matchLine_eq (q hit : Record) :
    matchLine q hit =
      let label := hit.label.getD "."
      s!"{q.document}\t{q.start}\t{q.length}\t{hit.start}\t{hit.length}\t{label}\n" := by
  unfold matchLine line
  simp only [String.intercalate_cons_cons, String.intercalate_singleton, String.append_assoc]
  rfl

theorem existsLine_injective {q : Record} {found found' : Bool}
    (h : existsLine q found = existsLine q found') : found = found' := by
  simp only [existsLine, line, String.append_left_inj, String.intercalate_cons_cons,
    String.intercalate_singleton, String.append_right_inj] at h
  cases found <;> cases found' <;> simp_all

theorem matchLine_ne_empty (q hit : Record) : matchLine q hit ≠ "" := by
  simp [matchLine, line, String.append_eq_empty_iff]

theorem reply_exists {o : QuerySettings} (h : o.existsOnly = true) (q : Record)
    (hits : List Record) : reply o q hits = existsLine q !hits.isEmpty := by
  rw [reply, if_pos h, existsLine_eq]

theorem reply_listing {o : QuerySettings} (h : o.existsOnly = false) (q : Record)
    (hits : List Record) : reply o q hits =
      String.join ((if o.firstOnly then hits.take 1 else hits).map (matchLine q)) := by
  rw [reply, if_neg (by simp [h]), funext (matchLine_eq q)]

theorem reply_listing_ne_empty_iff {o : QuerySettings} (h : o.existsOnly = false) (q : Record)
    (hits : List Record) : reply o q hits ≠ "" ↔ hits ≠ [] := by
  rw [reply_listing h]
  cases hits with
  | nil => simp
  | cons hit rest =>
    have hline := matchLine_ne_empty q hit
    by_cases hfirst : o.firstOnly = true <;>
      simp [hfirst, String.join_cons, String.append_eq_empty_iff, hline]

variable {order : Catalog.Order} {records : List Record} {catalog : Catalog}

def hits (order : Catalog.Order) (records : List Record) (r : Relation) (q : Record) :
    List Record :=
  (Catalog.inOrder order q.document records).filter fun v => r.holds v.span q.span

theorem hits_perm (order : Catalog.Order) (records : List Record) (r : Relation) (q : Record) :
    (hits order records r q).Perm
      (records.filter fun v => v.document == q.document && r.holds v.span q.span) := by
  have hperm := (Catalog.inOrder_perm order q.document records).filter
    fun v => r.holds v.span q.span
  rw [List.filter_filter] at hperm
  simp only [Bool.and_comm] at hperm
  exact hperm

theorem hits_pairwise (order : Catalog.Order) (records : List Record) (r : Relation)
    (q : Record) : (hits order records r q).Pairwise fun v w => v.start ≤ w.start :=
  (Catalog.inOrder_pairwise order q.document records).filter _

end Answers

namespace Answering

open Answers

variable {order : Catalog.Order} {records : List Record} {catalog : Catalog} {a : Answering}

theorem foldl_put (q : Record) (hits : List Record) (a : Answering) :
    hits.foldl (fun a hit => a.put (matchLine q hit)) a =
      a.put (String.join (hits.map (matchLine q))) := by
  induction hits generalizing a with
  | nil => simp [put]
  | cons hit rest ih =>
    rw [List.foldl_cons, ih, List.map_cons, String.join_cons]
    simp [put, String.append_assoc]

/-- A query puts its reply behind what the buffer holds, and does nothing else. -/
theorem fill_spec (h : catalog.Holds order records) (o : QuerySettings) {q : Record}
    (hq : ∃ range, Span.ofLength q.start q.length = .ok range) (hpool : a.pool.Clean) :
    ∃ pool, pool.Clean ∧ a.fill catalog o q =
      .ok ({ a with pool }.put (reply o q (hits order records o.relation q))) := by
  obtain ⟨range, hrange⟩ := hq
  obtain rfl : q.span = range := (queryRange_of_ofLength hrange).1
  have hanswers := h.answersAs q.document
  cases hexists : o.existsOnly with
  | true =>
    obtain ⟨hfound, hclean⟩ := hanswers.any_eq _ _ _ hrange o.relation a.pool hpool
    refine ⟨_, hclean, ?_⟩
    simp only [fill, hexists, if_true, hfound, reply_exists hexists]
    rfl
  | false =>
    obtain ⟨hfound, hclean⟩ := hanswers.query_eq _ _ _ hrange o.relation o.firstOnly a.pool hpool
    refine ⟨_, hclean, ?_⟩
    simp only [fill, hexists, Bool.false_eq_true, if_false, hfound, reply_listing hexists,
      Except.map, List.foldl_toArray, foldl_put]
    rfl

/-- Whatever the buffer holds, a query is answered with its own reply alone, which is written behind
all that has been written. -/
theorem query_spec (h : catalog.Holds order records) (o : QuerySettings) {q : Record}
    (hq : ∃ range, Span.ofLength q.start q.length = .ok range) (hpool : a.pool.Clean) :
    ∃ pool, pool.Clean ∧ a.query catalog o q =
      .ok ⟨reply o q (hits order records o.relation q),
        a.written ++ reply o q (hits order records o.relation q), a.answered + 1, pool⟩ := by
  obtain ⟨pool, hclean, hfill⟩ :=
    fill_spec h o hq (a := clear { a with answered := a.answered + 1 }) hpool
  refine ⟨pool, hclean, ?_⟩
  rw [query, hfill]
  simp [Except.map, clear, put, write]

theorem run_spec (h : catalog.Holds order records) (o : QuerySettings)
    {entries : List (Except FileError (Option Record))}
    (hentries : ∀ q, .ok (some q) ∈ entries → ∃ range, Span.ofLength q.start q.length = .ok range)
    (hpool : a.pool.Clean) :
    (a.run catalog o entries).text = a.written ++
        String.join ((asked entries).map fun q => reply o q (hits order records o.relation q)) ∧
      (a.run catalog o entries).count = (outcome entries).map (a.answered + ·) := by
  -- the last reply stays in the buffer, so this is shown of any buffer and not of an empty one
  induction entries generalizing a with
  | nil => exact ⟨(String.append_empty).symm, rfl⟩
  | cons entry rest ih =>
    have hrest : ∀ q, .ok (some q) ∈ rest → _ := fun q hq => hentries q (List.mem_cons_of_mem _ hq)
    match entry with
    | .error why => exact ⟨(String.append_empty).symm, rfl⟩
    | .ok none => exact ih hrest hpool
    | .ok (some q) =>
      obtain ⟨pool, hclean, hquery⟩ := query_spec h o (hentries q List.mem_cons_self) hpool
      obtain ⟨htext, hcount⟩ := ih hrest (a := ⟨_, _, _, pool⟩) hclean
      rw [run, hquery, outcome_query]
      refine ⟨htext.trans ?_, hcount.trans ?_⟩
      · rw [String.append_assoc, ← String.join_cons]
        rfl
      · cases outcome rest with
        | error why => rfl
        | ok n => exact congrArg Except.ok (Nat.add_right_comm _ _ _)

end Answering

namespace Answers

/-- A line that is text, and a query, a comment or blank. -/
def Reads (line : Except ReadFailure String) (text : String) : Prop :=
  line = .ok text ∧ ∃ entry, parseLine text = .ok entry

theorem exists_reads_cons {text : String} {entry : Option Record}
    (h : parseLine text = .ok entry) (lines : List (Except ReadFailure String))
    (p : List String → Prop) :
    (∃ texts, List.Forall₂ Reads (.ok text :: lines) texts ∧ p texts) ↔
      ∃ rest, List.Forall₂ Reads lines rest ∧ p (text :: rest) := by
  constructor
  · rintro ⟨texts, htexts, hp⟩
    obtain ⟨text', rest, ⟨htext, -⟩, hrest, rfl⟩ := List.forall₂_cons_left_iff.mp htexts
    obtain rfl := Except.ok.inj htext
    exact ⟨rest, hrest, hp⟩
  · rintro ⟨rest, hrest, hp⟩
    exact ⟨text :: rest, .cons ⟨rfl, entry, h⟩ hrest, hp⟩

theorem not_exists_reads_cons {line : Except ReadFailure String} (h : ∀ text, ¬ Reads line text)
    (lines : List (Except ReadFailure String)) (p : List String → Prop) :
    ¬ ∃ texts, List.Forall₂ Reads (line :: lines) texts ∧ p texts := by
  rintro ⟨texts, htexts, -⟩
  obtain ⟨text, -, htext, -⟩ := List.forall₂_cons_left_iff.mp htexts
  exact h text htext

theorem outcome_query_eq_ok_iff {q : Record} {n : Nat} :
    outcome (.ok (some q) :: rest) = .ok n ↔ ∃ m, outcome rest = .ok m ∧ n = m + 1 := by
  rw [outcome_query]
  cases outcome rest with
  | error why => simp [Except.map]
  | ok m => simp [Except.map, eq_comm]

/-- All lines are counted but for blank ones and comments, unless one of them fails. -/
theorem outcome_eq_ok_iff (lines : List (Except ReadFailure String)) (first n : Nat) :
    outcome ((lines.zipIdx first).map fun (line, number) => readLine number line) = .ok n ↔
      ∃ texts, List.Forall₂ Reads lines texts ∧ n = texts.countP fun t => !isFiller t := by
  -- line numbers play no part in the count, so any line may be the first
  induction lines generalizing first n with
  | nil => simp [outcome, failure?, asked, eq_comm]
  | cons line rest ih =>
    simp only [List.zipIdx_cons, List.map_cons]
    match line with
    | .error why =>
      have hfails : ∀ text, ¬ Reads (.error why) text := fun text h => by cases h.1
      exact iff_of_false (by simp [readLine, outcome_error]) (not_exists_reads_cons hfails rest _)
    | .ok text =>
      cases hparse : parseLine text with
      | error why =>
        have hfails : ∀ text', ¬ Reads (.ok text) text' := by
          rintro text' ⟨htext, entry, hentry⟩
          obtain rfl := Except.ok.inj htext
          rw [hparse] at hentry
          cases hentry
        exact iff_of_false (by simp [readLine, hparse, Except.mapError, outcome_error])
          (not_exists_reads_cons hfails rest _)
      | ok entry =>
        have hread : readLine first (.ok text) = .ok entry := by
          rw [readLine, hparse]
          rfl
        rw [hread, exists_reads_cons hparse]
        cases entry with
        | none =>
          have hfiller := parseLine_eq_none_iff.mp hparse
          rw [outcome_filler, ih]
          simp [hfiller]
        | some q =>
          have hfiller := isFiller_of_parseLine_some hparse
          rw [outcome_query_eq_ok_iff]
          simp only [ih, List.countP_cons, hfiller]
          simp

theorem ofLength_of_mem_entries {queries : Stream} {q : Record}
    (h : .ok (some q) ∈ queries.entries) : ∃ range, Span.ofLength q.start q.length = .ok range := by
  obtain ⟨⟨line, number⟩, -, hline⟩ := List.mem_map.mp h
  match line with
  | .error why => cases hline
  | .ok text =>
    cases hparse : parseLine text with
    | error why => simp [readLine, hparse, Except.mapError] at hline
    | ok entry =>
      simp only [readLine, hparse, Except.mapError, Except.ok.injEq] at hline
      exact (readFrom_of_parseLine (hline ▸ hparse)).range

/-- A stream of queries is answered as a plain search through all records would answer it, line by line
up to the first that fails, in every mode from the same matches. So a query has an answer to list where
it is said to have one. -/
theorem replies_of_records {order : Catalog.Order} {records : List Record} {catalog : Catalog}
    (hbuild : Catalog.ofRecordsBy order records = .ok catalog) :
    ∃ found : Relation → Record → List Record,
      (∀ r q, (found r q).Perm
          (records.filter fun v => v.document == q.document && r.holds v.span q.span) ∧
        (found r q).Pairwise fun v w => v.start ≤ w.start) ∧
      (∀ (o : QuerySettings) (queries : Stream) (pool : Pool Nat), pool.Clean →
        let answers := ofStream catalog o queries pool
        answers.text =
            String.join ((asked queries.entries).map fun q => reply o q (found o.relation q)) ∧
          answers.count = outcome queries.entries ∧
          ∀ n, answers.count = .ok n ↔
            ∃ texts, List.Forall₂ Reads queries.lines texts ∧
              n = texts.countP fun t => !isFiller t) ∧
      ∀ r firstOnly q,
        reply ⟨r, firstOnly, true⟩ q (found r q) =
            s!"{q.document}\t{q.start}\t{q.length}\t{true}\n" ↔
          reply ⟨r, firstOnly, false⟩ q (found r q) ≠ "" := by
  have hholds := Catalog.holds_of_ofRecordsBy hbuild
  refine ⟨hits order records,
    fun r q => ⟨hits_perm order records r q, hits_pairwise order records r q⟩, ?_, ?_⟩
  · intro o queries pool hpool
    have hentries : ∀ q, .ok (some q) ∈ queries.entries → _ := fun q => ofLength_of_mem_entries
    obtain ⟨htext, hcount⟩ := (Answering.start pool).run_spec hholds o hentries hpool
    have houtcome : (outcome queries.entries).map (0 + ·) = outcome queries.entries := by
      simp only [Nat.zero_add]
      cases outcome queries.entries <;> rfl
    replace hcount := hcount.trans houtcome
    refine ⟨htext.trans String.empty_append, hcount, fun n => ?_⟩
    rw [← outcome_eq_ok_iff queries.lines 1 n]
    exact Eq.congr_left hcount
  · intro r firstOnly q
    rw [reply_listing_ne_empty_iff rfl, reply_exists rfl, ← existsLine_eq]
    constructor
    · intro h hnil
      have htrue := existsLine_injective h
      rw [hnil] at htrue
      cases htrue
    · intro hne
      rw [List.isEmpty_eq_false_iff.mpr hne]
      rfl

def brokenQueries : Stream := .ofBytes "b\t4\t3\n# no query\na\t0\t1\nb\t1\nb\t0\t1\n".toUTF8.data.toList

theorem replies_of_records_mixed :
    ∃ catalog, Catalog.ofRecords Catalog.mixedRecords = .ok catalog ∧
      (ofStream catalog ⟨.overlaps, false, true⟩ brokenQueries .new).text =
        "b\t4\t3\ttrue\na\t0\t1\tfalse\n" ∧
      (ofStream catalog ⟨.overlaps, false, true⟩ brokenQueries .new).count =
        .error (.file (.line 4 .missingLength)) := by
  obtain ⟨catalog, hcatalog, -⟩ := Catalog.ofRecordsBy_ok .standard Catalog.ofLength_mixedRecords
  obtain ⟨found, hfound, hanswers, -⟩ := replies_of_records hcatalog
  obtain ⟨htext, hcount, -⟩ := hanswers ⟨.overlaps, false, true⟩ brokenQueries .new
    (Pool.clean_withLimits default)
  have houtcome : outcome brokenQueries.entries = .error (.file (.line 4 .missingLength)) := by
    decide +kernel
  have hasked : asked brokenQueries.entries =
      [⟨"b", .clamp 4, .clamp 3, none⟩, ⟨"a", .clamp 0, .clamp 1, none⟩] := by
    decide +kernel
  have hmatches := (hfound .overlaps ⟨"b", .clamp 4, .clamp 3, none⟩).1.isEmpty_eq
  have hnone := (hfound .overlaps ⟨"a", .clamp 0, .clamp 1, none⟩).1.isEmpty_eq
  refine ⟨catalog, hcatalog, ?_, hcount.trans houtcome⟩
  rw [htext, hasked]
  simp only [List.map_cons, List.map_nil, reply, if_true, hmatches, hnone]
  decide +kernel

end Answers

end IntervalIndex
