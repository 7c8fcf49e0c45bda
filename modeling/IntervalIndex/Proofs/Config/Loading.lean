import IntervalIndex.Proofs.Config.Layout
import IntervalIndex.Proofs.Text.Encoding
import Mathlib.Data.List.Nodup

namespace IntervalIndex.Config

open Toml

variable {c : Config} {kept : List Setting} {headed : List Table}

theorem keeping_congr {kept' : List Setting} (h : ∀ s, s ∈ kept ↔ s ∈ kept') (c : Config) :
    c.keeping kept = c.keeping kept' := by
  simp only [keeping, h]

theorem keeping_all (c : Config) : c.keeping Setting.all = c := by
  simp [keeping, Setting.mem_all]

def FileHolds (look : Files.Lookup) (path text : String) : Prop :=
  Files.openPlain look path = .ok (.ofBytes text.toUTF8.data.toList)

def fileText (lines : List (FileLine c)) : String :=
  String.ofList (document (lines.map FileLine.line))

/-- The lines of a file in which each setting stands at most once. -/
structure Layout (c : Config) where
  lines : List (FileLine c)
  placed : Placed [] lines
  once : (lines.filterMap FileLine.setting?).Nodup

namespace Layout

def settings (l : Layout c) : List Setting := l.lines.filterMap FileLine.setting?

def text (l : Layout c) : String := fileText l.lines

def rest (l : Layout c) : List Toml.Line := l.lines.filterMap FileLine.rest?

/-- No line but those of settings has a dotted key, and none says again what another one says. -/
structure Plain (l : Layout c) : Prop where
  statement : ∀ line ∈ l.rest, line.statement.isPlain = true
  once : (paths [] (l.rest.map (·.statement))).Nodup

end Layout

section Written

variable {lines : List (FileLine c)}

theorem filterMap_setting? : lines.filterMap FileLine.setting? =
    (lines.filterMap FileLine.part?).filterMap Part.setting? :=
  List.filterMap_filterMap.symm

theorem filterMap_part?_remains :
    (lines.filter (FileLine.remains kept headed)).filterMap FileLine.part? =
      (lines.filterMap FileLine.part?).filter (Part.remains kept headed) := by
  rw [List.filterMap_filter, List.filter_filterMap]
  refine List.filterMap_congr fun line _ => ?_
  cases line with
  | part p => cases p.remains kept headed <;> rfl
  | other => rfl

theorem statements_rest (hblank : ∀ line, .other line ∈ lines → line.statement = .blank) :
    statements (lines.filterMap FileLine.rest?) =
      ((lines.filterMap FileLine.part?).filterMap Part.header?).map fun t => .table [] t.name := by
  induction lines with
  | nil => rfl
  | cons line lines ih =>
    have hrest := ih fun line hline => hblank line (List.mem_cons_of_mem _ hline)
    cases line with
    | other line =>
      have hline : line.statement.isBlank = true := by rw [hblank line List.mem_cons_self]; rfl
      exact (statements_cons_of_blank hline _).trans hrest
    | part p line valid =>
      cases p with
      | setting s => exact hrest
      | header t =>
        have hline : line.statement.isBlank = false := by rw [valid]; rfl
        refine (statements_cons hline _).trans ?_
        rw [hrest, valid]
        rfl

theorem exists_lines {parts : List Part} {lines : List Toml.Line}
    (h : statements lines = parts.map (Part.statement c)) : ∃ lines' : List (FileLine c),
      lines'.map FileLine.line = lines ∧ lines'.filterMap FileLine.part? = parts ∧
      ∀ line, .other line ∈ lines' → line.statement = .blank := by
  induction lines generalizing parts with
  | nil =>
    obtain rfl := List.map_eq_nil_iff.mp h.symm
    exact ⟨[], rfl, rfl, fun _ hline => nomatch hline⟩
  | cons line lines ih =>
    cases hblank : line.statement.isBlank with
    | true =>
      rw [statements_cons_of_blank hblank] at h
      obtain ⟨lines', rfl, hparts, hother⟩ := ih h
      refine ⟨.other line :: lines', rfl, hparts, fun other hmem => ?_⟩
      obtain heq | hmem := List.mem_cons.mp hmem
      · exact Statement.eq_blank (FileLine.other.inj heq ▸ hblank)
      · exact hother other hmem
    | false =>
      rw [statements_cons hblank] at h
      obtain ⟨part, parts, rfl, hpart, hrest⟩ := List.map_eq_cons_iff.mp h.symm
      obtain ⟨lines', rfl, rfl, hother⟩ := ih hrest.symm
      refine ⟨.part part line hpart.symm :: lines', rfl, rfl, fun other hmem => ?_⟩
      obtain heq | hmem := List.mem_cons.mp hmem
      · cases heq
      · exact hother other hmem

end Written

def entries (c : Config) (t : Table) : Entries :=
  (Setting.all.filter (·.table = t)).map fun s => (s.name, c.value s)

def tables (c : Config) : List (String × Entries) := Table.all.map fun t => (t.name, c.entries t)

theorem plainTable_entries (hc : c.Writable) (t : Table) : PlainTable (c.entries t) where
  bare e he := by
    obtain ⟨s, -, rfl⟩ := List.mem_map.mp he
    exact s.bare
  nodup := by
    have hnames : (c.entries t).map (·.1) = (Setting.all.filter (·.table = t)).map Setting.name := by
      rw [entries, List.map_map]
      rfl
    rw [hnames]
    exact List.Nodup.map (fun _ _ => Setting.name_inj.mp) (List.Nodup.filter _ (by decide))
  scalar e he := by
    obtain ⟨s, -, rfl⟩ := List.mem_map.mp he
    exact hc.scalar s

section Library

variable {lib : Library} (hlib : lib.Faithful)

include hlib

theorem parseWith?_text (hc : c.Writable) (l : Layout c) : parseWith? lib l.text =
    (applyAll l.rest ⟨[], []⟩).map fun _ => c.keeping l.settings := by
  have hstart : GrownDraft c [] [] ⟨[], []⟩ ⟨[], []⟩ :=
    ⟨rfl, rfl, ⟨fun _ _ => rfl, fun _ => .absent nofun⟩, nofun⟩
  have hrun := hstart.run l.placed l.once
  have hread := hlib.read_document (l.lines.map FileLine.line)
  rw [parseWith?, Layout.text, fileText, Layout.rest]
  generalize applyAll _ _ = d₀, applyAll (l.lines.map _) _ = d, lib.read? _ = root at hrun hread
  cases hrun with
  | none =>
    cases hread
    rfl
  | some hgrown =>
    cases hread with
    | some hagree => exact read?_carries hlib hc .header (hgrown.carries.of_agree hagree)

theorem write_eq (hc : c.Writable) : ∃ (made : Origin) (made' : String → Origin),
    (codec lib).write c =
      .table made ((tables c).map fun table => (table.1, .table (made' table.1) table.2)) := by
  obtain ⟨pool, hpool⟩ := hlib.record_write (limitsDeclaration lib) c.limits
  obtain ⟨query, hquery⟩ := hlib.record_write (queryDeclaration lib) c.query
  obtain ⟨made, hmade⟩ := hlib.record_write (declaration lib) c
  have hlimits : (lib.record (limitsDeclaration lib)).write c.limits = .table pool (c.entries .pool) := by
    rw [hpool]
    simp only [limitsDeclaration, hlib.natural_write hc.maxBuffers_le,
      hlib.natural_write hc.maxCapacity_le]
    rfl
  have hall : c.query.relation ∈ Relation.all := by cases c.query.relation <;> decide
  have hdefaults : (lib.record (queryDeclaration lib)).write c.query =
      .table query (c.entries .query) := by
    rw [hquery]
    simp only [queryDeclaration, hlib.choice_write hall, hlib.boolean_write]
    rfl
  refine ⟨made, fun name => if name = Table.pool.name then pool else query, ?_⟩
  rw [codec, hmade]
  simp only [declaration, hlimits, hdefaults]
  rfl

theorem exists_written (hc : c.Writable) : ∃ lines : List (FileLine c),
    toTextWith? lib c = some (fileText lines) ∧ lines.filterMap FileLine.part? = Part.all ∧
      ∀ line, .other line ∈ lines → line.statement = .blank := by
  obtain ⟨made, made', hwrite⟩ := write_eq hlib hc
  have hbare : ∀ table ∈ tables c, Bare table.1 := by
    intro table htable
    obtain ⟨t, -, rfl⟩ := List.mem_map.mp htable
    exact t.bare
  have hnodup : ((tables c).map (·.1)).Nodup := by
    change ["pool", "query"].Nodup
    decide
  have hplain : ∀ table ∈ tables c, PlainTable table.2 := by
    intro table htable
    obtain ⟨t, -, rfl⟩ := List.mem_map.mp htable
    exact plainTable_entries hc t
  obtain ⟨lines, hlines, hstatements⟩ := hlib.write_tables made' (tables c) hbare hnodup hplain
  have hparts : statements lines = Part.all.map (Part.statement c) := hstatements
  obtain ⟨lines', rfl, hall, hblank⟩ := exists_lines hparts
  refine ⟨lines', ?_, hall, hblank⟩
  rw [toTextWith?, hwrite]
  exact hlines

end Library

theorem Part.mem_settings_remains {s : Setting} :
    s ∈ (Part.all.filter (Part.remains kept headed)).filterMap Part.setting? ↔ s ∈ kept := by
  rw [List.mem_filterMap]
  constructor
  · rintro ⟨part, hpart, hs⟩
    cases part with
    | setting s' =>
      obtain rfl : s' = s := Option.some.inj hs
      exact of_decide_eq_true (List.mem_filter.mp hpart).2
    | header => cases hs
  · intro hs
    have hall : .setting s ∈ Part.all := by cases s <;> simp [Part.all]
    exact ⟨.setting s, List.mem_filter.mpr ⟨hall, decide_eq_true hs⟩, rfl⟩

theorem Part.headers_remains : (Part.all.filter (Part.remains kept headed)).filterMap Part.header? =
    Table.all.filter (· ∈ headed) := by
  rw [List.filterMap_filter, ← List.filterMap_eq_filter]
  simp [Part.all, Table.all, Part.header?, Part.remains, List.filterMap_cons, Option.guard]

theorem FileLine.remains_all (line : FileLine c) : line.remains Setting.all Table.all = true := by
  cases line with
  | other => rfl
  | part p => cases p with
    | header t => exact decide_eq_true t.mem_all
    | setting s => exact decide_eq_true s.mem_all

/-- What remains of the lines that are written when settings are taken out, and headers of tables that
have none left. -/
theorem exists_remaining {lines : List (FileLine c)}
    (hparts : lines.filterMap FileLine.part? = Part.all)
    (hblank : ∀ line, .other line ∈ lines → line.statement = .blank)
    (hkept : ∀ s ∈ kept, s.table ∈ headed) : ∃ l : Layout c,
      l.text = fileText (lines.filter (FileLine.remains kept headed)) ∧
      (∀ s, s ∈ l.settings ↔ s ∈ kept) ∧ (applyAll l.rest ⟨[], []⟩).isSome := by
  have hremain : (lines.filter (FileLine.remains kept headed)).filterMap FileLine.part? =
      Part.all.filter (Part.remains kept headed) := by
    rw [filterMap_part?_remains, hparts]
  have hsettings : (lines.filter (FileLine.remains kept headed)).filterMap FileLine.setting? =
      (Part.all.filter (Part.remains kept headed)).filterMap Part.setting? := by
    rw [filterMap_setting?, hremain]
  have hother : ∀ line, .other line ∈ lines.filter (FileLine.remains kept headed) →
      line.statement = .blank := fun line hline => hblank line (List.mem_of_mem_filter hline)
  have hplaced : Part.Placed [] Part.all := by simp [Part.all, Part.Placed, Setting.table]
  refine ⟨⟨lines.filter (FileLine.remains kept headed), ?_, ?_⟩, rfl, fun s => ?_, ?_⟩
  · refine Part.Placed.lines hother ?_
    rw [hremain]
    exact hplaced.filter hkept fun _ _ _ => rfl
  · rw [hsettings]
    exact List.Nodup.sublist (List.filter_sublist.filterMap Part.setting?) (by decide)
  · rw [Layout.settings, hsettings]
    exact Part.mem_settings_remains
  · rw [Layout.rest, applyAll_eq, statements_rest hother, hremain, Part.headers_remains]
    simp only [Table.all, List.filter]
    generalize decide (Table.pool ∈ headed) = pool, decide (Table.query ∈ headed) = query
    cases pool <;> cases query <;> rfl

theorem loadWith_eq {look : Files.Lookup} {path text : String}
    (hpath : Files.extension? path = some "toml") (hopen : FileHolds look path text) :
    loadWith lib look path = (parseWith? lib text).elim (.error .invalidToml) .ok := by
  have hdecode : readText (.ofBytes text.toUTF8.data.toList) = .ok text := by
    rw [Text.utf8_toList, readText]
    exact (Records.Stream.decode_encode text.toList).trans (by rw [String.ofList_toList])
  rw [loadWith, if_pos hpath, hopen]
  simp only [Except.mapError, bind, Except.bind, hdecode]
  cases parseWith? lib text <;> rfl

def sample : Config := ⟨⟨64, 128⟩, ⟨.contains, true⟩⟩

theorem sample_writable : sample.Writable := ⟨by decide, by decide⟩

theorem writes_tags : Writes (nestingLimit - 1) "[1, {a = 2}]".toList
    (.array [.integer 1, .table .inline [("a", .integer 2)]]) := by
  have hone : Text.Decimal.ofInt 1 = ['1'] := by decide +kernel
  have htwo : Text.Decimal.ofInt 2 = ['2'] := by decide +kernel
  have hfirst : Scalar ['1'] (.integer 1) := hone ▸ .integer (by decide) (by decide)
  have hsecond : Scalar ['2'] (.integer 2) := htwo ▸ .integer (by decide) (by decide)
  have htable : Writes 78 "{a = 2}".toList (.table .inline [("a", .integer 2)]) :=
    .table [("a", ['2'], .integer 2)] (by decide) (by decide) (by simpa using .scalar hsecond)
  exact .array [(['1'], .integer 1), ("{a = 2}".toList, .table .inline [("a", .integer 2)])]
    (by simpa using ⟨.scalar hfirst, htable⟩)

def tagsLine : Toml.Line :=
  ⟨_, _, .entry (show Named [] "tags" from Bare.named (by decide)) writes_tags⟩

def innerLine : Toml.Line :=
  ⟨_, _, .table (show Named ["pool"] "tags" from ⟨by decide, by decide, by decide⟩)⟩

def tagged : Layout sample where
  lines := [.other tagsLine, .part (.header .pool) ⟨_, _, .table Table.pool.bare.named⟩ rfl,
    .part (.setting .maxBuffers)
      ⟨_, _, .entry Setting.maxBuffers.bare.named (.scalar (.integer (by decide) (by decide)))⟩ rfl,
    .other innerLine, .other tagsLine, .part (.header .query) ⟨_, _, .table Table.query.bare.named⟩ rfl,
    .part (.setting .firstOnly) ⟨_, _, .entry Setting.firstOnly.bare.named (.scalar .true)⟩ rfl,
    .other tagsLine]
  placed := by
    have houter : Unknown ["tags"] := fun s => by cases s <;> decide
    have hinner : Unknown ["pool", "tags"] := fun s => by cases s <;> decide
    have hbelow : Unknown ["pool", "tags", "tags"] := fun s => by cases s <;> decide
    have hquery : Unknown ["query", "tags"] := fun s => by cases s <;> decide
    exact ⟨FileLine.fits_other rfl houter, trivial, rfl, FileLine.fits_other rfl hinner,
      FileLine.fits_other rfl hbelow, trivial, rfl, FileLine.fits_other rfl hquery, trivial⟩
  once := by
    change [Setting.maxBuffers, .firstOnly].Nodup
    decide

end IntervalIndex.Config
