import IntervalIndex.Proofs.Toml.Nested

namespace IntervalIndex.Toml

namespace Named

variable {path : List String} {key : String} (h : Named path key)

include h

theorem lineEnd?_eq (text rest : List Char) : lineEnd? (entryText path key text ++ rest) = none := by
  rw [lineEnd?, h.skipSpace_entryText]
  obtain ⟨c, cs, hcs, hc⟩ := h.exists_head_entryText text
  rw [hcs, List.cons_append]
  have hcomment : skipComment (c :: (cs ++ rest)) = c :: (cs ++ rest) := by
    unfold skipComment
    split
    · next h => exact absurd (List.cons.inj h).1 (hc '#' (by decide))
    · rfl
  rw [hcomment]
  change newline? (c :: (cs ++ rest)) = none
  unfold newline?
  split
  · next h => exact absurd (List.cons.inj h).1 (hc '\n' (by decide))
  · next h => exact absurd (List.cons.inj h).1 (hc '\r' (by decide))
  · rfl

theorem line?_entry {text : List Char} {v : Value} (hv : Reads (nestingLimit - 1) text v) (d : Draft)
    (rest : List Char) : d.line? (entryText path key text ++ '\n' :: rest) =
      (d.addEntry path key v).map fun d => (d, rest) := by
  have hentry := h.entry?_eq hv (show '\n' ∈ followers by decide) (h.skipSpace_entryText ('\n' :: rest))
  have hend := h.lineEnd?_eq text ('\n' :: rest)
  obtain ⟨c, cs, hcs, hc⟩ := h.exists_head_entryText text
  unfold Draft.line?
  split
  · next h => exact absurd (List.cons.inj (hcs ▸ h)).1 (hc '[' (by decide))
  · next h => exact absurd (List.cons.inj (hcs ▸ h)).1 (hc '[' (by decide))
  · rw [hend]
    simp only [hentry, bind, Option.bind_some]
    cases d.addEntry path key v <;> rfl

theorem key?_bracket (rest : List Char) :
    key? (skipSpace (dotted path key ++ ']' :: rest)) = some ((path, key), ']' :: rest) := by
  rw [h.skipSpace_eq]
  exact h.key?_eq (by decide) (by simp [skipSpace, isSpace])

theorem line?_table (d : Draft) (rest : List Char) :
    d.line? ('[' :: (dotted path key ++ ']' :: '\n' :: rest)) =
      (d.openTable path key).map fun d => (d, rest) := by
  have hkey := h.key?_bracket ('\n' :: rest)
  obtain ⟨c, cs, hcs, hc⟩ := h.exists_head
  unfold Draft.line?
  split
  · next h => exact absurd (List.cons.inj (hcs ▸ (List.cons.inj h).2)).1 (hc '[' (by decide))
  · next h =>
    obtain rfl := (List.cons.inj h).2
    rw [hkey]
    simp only [bind, Option.bind_some, skip?, if_true]
    cases d.openTable path key <;> rfl
  · next _ h => exact absurd rfl (h _)

theorem line?_element (d : Draft) (rest : List Char) :
    d.line? ('[' :: '[' :: (dotted path key ++ ']' :: ']' :: '\n' :: rest)) =
      (d.openElement path key).map fun d => (d, rest) := by
  rw [Draft.line?, h.key?_bracket]
  simp only [bind, Option.bind_some, skip?, if_true]
  cases d.openElement path key <;> rfl

end Named

namespace Says

variable {text : List Char} {statement : Statement} (h : Says text statement)

include h

/-- A line is read for what it says, whatever the document so far and whatever follows. -/
theorem line?_eq (d : Draft) (rest : List Char) : d.line? (skipSpace (text ++ '\n' :: rest)) =
    (statement.apply d).map fun d => (d, rest) := by
  cases h with
  | blank => rfl
  | @comment cs hcs =>
    have hline : lineEnd? ('#' :: (cs ++ '\n' :: rest)) = some rest := by
      rw [lineEnd?, skipSpace_cons (by decide), skipComment, List.dropWhile_append_of_pos hcs]
      rfl
    rw [List.cons_append, skipSpace_cons (by decide), Draft.line?, hline]
    · rfl
    · nofun
    · nofun
  | @entry path key hkey text v hv =>
    rw [hkey.skipSpace_entryText]
    exact hkey.line?_entry hv.reads d rest
  | table hkey =>
    rw [List.cons_append, List.append_assoc, List.singleton_append, skipSpace_cons (by decide)]
    exact hkey.line?_table d rest
  | element hkey =>
    rw [List.cons_append, List.cons_append, List.append_assoc, skipSpace_cons (by decide)]
    exact hkey.line?_element d rest

theorem head?_ne : text.head? ≠ some '\uFEFF' := by
  cases h with
  | blank => nofun
  | comment => simp
  | @entry path key hkey text v hv =>
    obtain ⟨c, cs, hcs, hc⟩ := hkey.exists_head_entryText text
    simpa [hcs] using hc '\uFEFF' (by decide)
  | table | element => simp

end Says

theorem applyAll_cons (line : Line) (lines : List Line) (d : Draft) :
    applyAll (line :: lines) d = (line.statement.apply d).bind (applyAll lines) :=
  List.foldlM_cons

theorem Statement.eq_blank {statement : Statement} (h : statement.isBlank = true) :
    statement = .blank := by
  cases statement with
  | blank => rfl
  | entry | table | element => cases h

theorem statements_cons_of_blank {line : Line} (h : line.statement.isBlank = true)
    (lines : List Line) : statements (line :: lines) = statements lines :=
  List.filter_cons_of_neg (by simp [h])

theorem statements_cons {line : Line} (h : line.statement.isBlank = false) (lines : List Line) :
    statements (line :: lines) = line.statement :: statements lines :=
  List.filter_cons_of_pos (by simp [h])

theorem applyAll_eq (lines : List Line) (d : Draft) :
    applyAll lines d = (statements lines).foldlM (fun d statement => statement.apply d) d := by
  induction lines generalizing d with
  | nil => rfl
  | cons line lines ih =>
    rw [applyAll_cons, funext ih]
    cases hblank : line.statement.isBlank with
    | true =>
      rw [statements_cons_of_blank hblank, Statement.eq_blank hblank]
      rfl
    | false =>
      rw [statements_cons hblank, List.foldlM_cons]
      rfl

theorem document_cons (line : Line) (lines : List Line) :
    document (line :: lines) = line.text ++ '\n' :: document lines := by
  simp [document]

theorem document_append (lines lines' : List Line) :
    document (lines ++ lines') = document lines ++ document lines' :=
  List.flatMap_append

theorem length_le_document (lines : List Line) : lines.length ≤ (document lines).length := by
  induction lines with
  | nil => exact Nat.le_refl 0
  | cons line lines ih =>
    rw [document_cons, List.length_append, List.length_cons, List.length_cons]
    omega

theorem lines?_document {lines : List Line} {fuel : Nat} (hfuel : lines.length ≤ fuel) (d : Draft) :
    Draft.lines? fuel d (document lines) = applyAll lines d := by
  induction lines generalizing fuel d with
  | nil => cases fuel <;> rfl
  | cons line lines ih =>
    obtain ⟨fuel, rfl⟩ := Nat.exists_eq_succ_of_ne_zero (Nat.ne_zero_of_lt hfuel)
    have hne : document (line :: lines) ≠ [] := by simp [document_cons]
    rw [Draft.lines?, document_cons, line.valid.line?_eq, applyAll, List.foldlM_cons]
    · cases line.statement.apply d with
      | none => rfl
      | some d => exact ih (Nat.le_of_succ_le_succ hfuel) d
    · exact hne

theorem skipMark_document (lines : List Line) : skipMark (document lines) = document lines := by
  cases lines with
  | nil => rfl
  | cons line lines =>
    obtain ⟨c, cs, hcs⟩ := List.exists_cons_of_ne_nil
      (show document (line :: lines) ≠ [] by simp [document_cons])
    have hmark : c.toNat ≠ 0xFEFF := by
      intro hc
      have hc' : c = '\uFEFF' := Char.toNat_inj.mp hc
      rw [document_cons] at hcs
      cases htext : line.text with
      | nil =>
        rw [htext, hc'] at hcs
        exact absurd (List.cons.inj hcs).1 (by decide)
      | cons d ds =>
        rw [htext, hc'] at hcs
        exact line.valid.head?_ne (by rw [htext, (List.cons.inj hcs).1]; rfl)
    rw [hcs, skipMark, if_neg hmark]

/-- A document says what its lines say one after another. -/
theorem parse?_document (lines : List Line) :
    parse? (String.ofList (document lines)) = (applyAll lines ⟨[], []⟩).map (·.root) := by
  have hfuel : lines.length ≤ (document lines).length + 1 :=
    Nat.le_succ_of_le (length_le_document lines)
  simp only [parse?, String.toList_ofList, skipMark_document, lines?_document hfuel]

def blankLine : Line := ⟨[], .blank, .blank⟩

end IntervalIndex.Toml
