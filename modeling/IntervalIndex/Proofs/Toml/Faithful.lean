import IntervalIndex.Proofs.Toml.Lines
import IntervalIndex.Toml.Standard

namespace IntervalIndex.Toml

/-- One value for another. How a table came to be and the order of its entries are not part of what a
document says, and the tables of a repeated header are elements of an array. -/
inductive Alike : Value → Value → Prop
  | refl (v : Value) : Alike v v
  | table {made made' : Origin} {es es' : Entries}
      (h : ∀ key, Option.Rel Alike (es.lookup key) (es'.lookup key)) :
      Alike (.table made es) (.table made' es')
  | array {vs vs' : List Value} (h : List.Forall₂ Alike vs vs') : Alike (.array vs) (.array vs')
  | tables {vs vs' : List Value} (h : List.Forall₂ Alike vs vs') : Alike (.array vs) (.tables vs')

def Agree (es es' : Entries) : Prop := ∀ key, Option.Rel Alike (es.lookup key) (es'.lookup key)

theorem Agree.refl (es : Entries) : Agree es es := fun key => by
  cases es.lookup key with
  | none => exact .none
  | some v => exact .some (.refl v)

theorem statements_append (lines lines' : List Line) :
    statements (lines ++ lines') = statements lines ++ statements lines' := by
  simp [statements]

/-- A table of integers, booleans and plain texts with names that need no quotes. -/
structure PlainTable (es : Entries) : Prop where
  bare : ∀ e ∈ es, Bare e.1
  nodup : (es.map (·.1)).Nodup
  scalar : ∀ e ∈ es, ∃ text, Scalar text e.2

def tableStatements (table : String × Entries) : List Statement :=
  .table [] table.1 :: table.2.map fun e => .entry [] e.1 e.2

/-- What a library does that reads and writes documents as they are defined. -/
structure Library.Faithful (lib : Library) : Prop where
  /-- A document is read line after line. -/
  read_document (lines : List Line) : Option.Rel Agree (lib.read? (String.ofList (document lines)))
    ((applyAll lines ⟨[], []⟩).map (·.root))
  /-- Tables are written one after another, in whatever layout. -/
  write_tables (made : String → Origin) (tables : List (String × Entries))
    (hbare : ∀ table ∈ tables, Bare table.1) (hnodup : (tables.map (·.1)).Nodup)
    (hplain : ∀ table ∈ tables, PlainTable table.2) : ∃ lines,
      lib.write? (tables.map fun table => (table.1, .table (made table.1) table.2)) =
        some (String.ofList (document lines)) ∧
      statements lines = tables.flatMap tableStatements
  natural_write {n : Nat} (hn : (n : Int) ≤ PosType.i64.max) : lib.natural.write n = .integer n
  natural_read {n : Nat} (hn : (n : Int) ≤ PosType.i64.max) :
    lib.natural.read? (.integer n) = some n
  boolean_write (b : Bool) : lib.boolean.write b = .boolean b
  boolean_read (b : Bool) : lib.boolean.read? (.boolean b) = some b
  choice_write {α : Type} {all : List α} {name : α → String} {a : α} (ha : a ∈ all) :
    (lib.choice all name).write a = .string (name a)
  choice_read {α : Type} {all : List α} {name : α → String} {a : α} (ha : a ∈ all)
    (hname : ∀ b ∈ all, name b = name a → b = a) :
    (lib.choice all name).read? (.string (name a)) = some a
  /-- A record is a table of its fields, in the order in which they are declared. -/
  record_write {ρ α β : Type} (d : Declaration ρ α β) (r : ρ) : ∃ made,
    (lib.record d).write r = .table made [(d.first.name, d.first.codec.write (d.parts r).1),
      (d.second.name, d.second.codec.write (d.parts r).2)]
  /-- Its fields are read one by one, and what else there is means nothing. -/
  record_read {ρ α β : Type} (d : Declaration ρ α β) (hname : d.first.name ≠ d.second.name)
    (made : Origin) (es : Entries) : (lib.record d).read? (.table made es) =
      (d.first.read? (es.lookup d.first.name)).bind fun a =>
        (d.second.read? (es.lookup d.second.name)).map fun b => d.make a b

namespace Standard

theorem scalarText?_eq {text : List Char} {v : Value} (h : Scalar text v) :
    scalarText? v = some text := by
  cases h with
  | @integer n hmin hmax =>
    have hfits : (Pos.ofInt? n : Option (Pos .i64)) = some ⟨n, hmin, hmax⟩ :=
      Pos.ofInt?_eq_some_iff.mpr rfl
    rw [scalarText?, hfits]
    rfl
  | false | true => rfl
  | @text cs hcs =>
    rw [scalarText?, String.toList_ofList, if_pos (List.all_eq_true.mpr hcs)]

theorem exists_entryTexts {es : Entries} (hbare : ∀ e ∈ es, Bare e.1)
    (hscalar : ∀ e ∈ es, ∃ text, Scalar text e.2) : ∃ texts lines,
      es.mapM entryText? = some texts ∧ texts.flatten = document lines ∧
      statements lines = es.map fun e => .entry [] e.1 e.2 := by
  induction es with
  | nil => exact ⟨[], [], rfl, rfl, rfl⟩
  | cons e es ih =>
    obtain ⟨texts, lines, htexts, hlines, hsays⟩ := ih (fun d hd => hbare d (List.mem_cons_of_mem e hd))
      (fun d hd => hscalar d (List.mem_cons_of_mem e hd))
    obtain ⟨text, htext⟩ := hscalar e List.mem_cons_self
    let line : Line := ⟨_, _, .entry (hbare e List.mem_cons_self).named (.scalar htext)⟩
    have hentry : entryText? e = some (line.text ++ ['\n']) := by
      rw [entryText?, scalarText?_eq htext]
      rfl
    refine ⟨(line.text ++ ['\n']) :: texts, line :: lines, ?_, ?_, ?_⟩
    · rw [List.mapM_cons, hentry, htexts]
      rfl
    · rw [List.flatten_cons, hlines, document_cons, List.append_assoc, List.singleton_append]
    · exact congrArg (Statement.entry [] e.1 e.2 :: ·) hsays

theorem exists_tableText (made : Origin) {table : String × Entries} (hname : Bare table.1)
    (hplain : PlainTable table.2) : ∃ lines,
      tableText? (table.1, .table made table.2) = some (document lines) ∧
      statements lines = tableStatements table := by
  obtain ⟨texts, lines, htexts, hlines, hsays⟩ := exists_entryTexts hplain.bare hplain.scalar
  let line : Line := ⟨_, _, .table hname.named⟩
  refine ⟨line :: lines, ?_, congrArg (Statement.table [] table.1 :: ·) hsays⟩
  rw [tableText?, htexts, document_cons, ← hlines]
  simp [line, dotted]

theorem exists_tableTexts (made : String → Origin) {tables : List (String × Entries)}
    (hbare : ∀ table ∈ tables, Bare table.1) (hplain : ∀ table ∈ tables, PlainTable table.2) :
    ∃ texts lines,
      (tables.map fun table => (table.1, Value.table (made table.1) table.2)).mapM tableText? =
        some texts ∧
      List.intercalate ['\n'] texts = document lines ∧
      statements lines = tables.flatMap tableStatements := by
  induction tables with
  | nil => exact ⟨[], [], rfl, rfl, rfl⟩
  | cons table tables ih =>
    obtain ⟨texts, lines, htexts, hlines, hsays⟩ :=
      ih (fun t ht => hbare t (List.mem_cons_of_mem table ht))
        (fun t ht => hplain t (List.mem_cons_of_mem table ht))
    obtain ⟨first, hfirst, hfirstSays⟩ := exists_tableText (made table.1)
      (hbare table List.mem_cons_self) (hplain table List.mem_cons_self)
    have hall : ((table :: tables).map fun table =>
        (table.1, Value.table (made table.1) table.2)).mapM tableText? =
          some (document first :: texts) := by
      rw [List.map_cons, List.mapM_cons, hfirst, htexts]
      rfl
    -- the last table has no blank line behind it
    by_cases hlast : texts = []
    · refine ⟨_, first ++ lines, hall, ?_, ?_⟩
      · rw [document_append, ← hlines, hlast, List.intercalate_singleton]
        exact (List.append_nil _).symm
      · rw [statements_append, hfirstSays, hsays, List.flatMap_cons]
    · refine ⟨_, first ++ blankLine :: lines, hall, ?_, ?_⟩
      · rw [document_append, document_cons, ← hlines, List.intercalate_cons_of_ne_nil hlast,
          List.append_assoc]
        rfl
      · rw [statements_append, hfirstSays, statements_cons_of_blank rfl, hsays, List.flatMap_cons]

theorem exists_write (made : String → Origin) {tables : List (String × Entries)}
    (hbare : ∀ table ∈ tables, Bare table.1) (hplain : ∀ table ∈ tables, PlainTable table.2) :
    ∃ lines, write? (tables.map fun table => (table.1, .table (made table.1) table.2)) =
        some (String.ofList (document lines)) ∧
      statements lines = tables.flatMap tableStatements := by
  obtain ⟨texts, lines, htexts, hlines, hsays⟩ := exists_tableTexts made hbare hplain
  refine ⟨lines, ?_, hsays⟩
  rw [write?, htexts, ← hlines]
  rfl

theorem choice?_name {α : Type} {all : List α} {name : α → String} {a : α} (ha : a ∈ all)
    (hname : ∀ b ∈ all, name b = name a → b = a) : choice? all name (.string (name a)) = some a := by
  rw [choice?]
  cases h : all.find? (name · == name a) with
  | none => exact absurd (beq_self_eq_true (name a)) (List.find?_eq_none.mp h a ha)
  | some b =>
    have hb : (name b == name a) = true := List.find?_some (p := (name · == name a)) h
    rw [hname b (List.mem_of_find?_eq_some h) (beq_iff_eq.mp hb)]

end Standard

theorem standard_faithful : standard.Faithful where
  read_document lines := by
    change Option.Rel Agree (parse? _) _
    rw [parse?_document]
    cases applyAll lines ⟨[], []⟩ with
    | none => exact .none
    | some d => exact .some (Agree.refl d.root)
  write_tables made _ hbare _ hplain := Standard.exists_write made hbare hplain
  natural_write _ := rfl
  natural_read _ := by simp [standard, Standard.natural?]
  boolean_write _ := rfl
  boolean_read _ := rfl
  choice_write _ := rfl
  choice_read := Standard.choice?_name
  record_write _ _ := ⟨_, rfl⟩
  record_read d _ made es := by
    simp only [standard, Standard.record?, Standard.fields?, bind, Option.bind_some]
    cases d.first.read? (es.lookup d.first.name) with
    | none => rfl
    | some a => cases d.second.read? (es.lookup d.second.name) <;> rfl

end IntervalIndex.Toml
