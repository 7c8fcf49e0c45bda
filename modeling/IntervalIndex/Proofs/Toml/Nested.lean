import IntervalIndex.Proofs.Lookup
import IntervalIndex.Proofs.Toml.Words

namespace IntervalIndex.Toml

namespace Bare

variable {name : String} (hname : Bare name)

include hname

theorem exists_head :
    ∃ c cs, name.toList = c :: cs ∧ ∀ d, isBareKeyChar d = false → c ≠ d := by
  obtain ⟨hne, hchars⟩ := hname
  obtain ⟨c, cs, hcs⟩ := List.exists_cons_of_ne_nil hne
  refine ⟨c, cs, hcs, fun d hd => ne_of_apply_ne isBareKeyChar ?_⟩
  rw [List.all_eq_true.mp hchars c (hcs ▸ List.mem_cons_self), hd]
  decide

theorem simpleKey?_eq {c : Char} (hc : isBareKeyChar c = false) (rest : List Char) :
    simpleKey? (name.toList ++ c :: rest) = some (name, c :: rest) := by
  have hspan := span_append (List.all_eq_true.mp hname.2) hc rest
  have hempty : name.toList.isEmpty = false := by simpa using hname.1
  obtain ⟨d, ds, hds, hd⟩ := hname.exists_head
  unfold simpleKey?
  split
  · next h => exact absurd (List.cons.inj (hds ▸ h)).1 (hd '"' (by decide))
  · next h => exact absurd (List.cons.inj (hds ▸ h)).1 (hd '\'' (by decide))
  · simp only [hspan, hempty, Bool.false_eq_true, if_false, String.ofList_toList]

theorem named : Named [] name := ⟨List.forall_mem_nil _, hname, by decide⟩

end Bare

theorem dotted_nil (key : String) : dotted [] key = key.toList := rfl

theorem dotted_cons (name : String) (path : List String) (key : String) :
    dotted (name :: path) key = name.toList ++ '.' :: dotted path key := by
  simp [dotted]

namespace Named

variable {path : List String} {key : String} (h : Named path key)

include h

theorem exists_head :
    ∃ c cs, dotted path key = c :: cs ∧ ∀ d, isBareKeyChar d = false → c ≠ d := by
  cases path with
  | nil => exact h.bare_key.exists_head
  | cons name path =>
    obtain ⟨c, cs, hcs, hc⟩ := (h.bare_path name List.mem_cons_self).exists_head
    exact ⟨c, _, by rw [dotted_cons, hcs, List.cons_append], hc⟩

theorem exists_head_entryText (text : List Char) : ∃ c cs, entryText path key text = c :: cs ∧
    ∀ d, isBareKeyChar d = false → c ≠ d := by
  obtain ⟨c, cs, hcs, hc⟩ := h.exists_head
  exact ⟨c, _, by rw [entryText, hcs, List.cons_append, List.cons_append], hc⟩

theorem entryText_ne_nil (text : List Char) : entryText path key text ≠ [] := by
  obtain ⟨c, cs, hcs, -⟩ := h.exists_head_entryText text
  exact hcs ▸ List.cons_ne_nil c cs

theorem skipSpace_eq (rest : List Char) :
    skipSpace (dotted path key ++ rest) = dotted path key ++ rest := by
  obtain ⟨c, cs, hcs, hc⟩ := h.exists_head
  rw [hcs]
  exact skipSpace_cons (by simp [isSpace, hc ' ' (by decide), hc '\t' (by decide)]) _

omit h in
theorem tail {name : String} (h : Named (name :: path) key) : Named path key where
  bare_path other hother := h.bare_path other (List.mem_cons_of_mem name hother)
  bare_key := h.bare_key
  length_lt := Nat.lt_of_succ_lt h.length_lt

theorem keyParts?_eq {fuel : Nat} (hfuel : path.length < fuel) {c : Char}
    (hc : isBareKeyChar c = false) {rest : List Char}
    (hdot : (skipSpace (c :: rest)).head? ≠ some '.') :
    keyParts? fuel (dotted path key ++ c :: rest) = some (path ++ [key], skipSpace (c :: rest)) := by
  induction path generalizing fuel with
  | nil =>
    obtain ⟨fuel, rfl⟩ := Nat.exists_eq_succ_of_ne_zero (Nat.ne_zero_of_lt hfuel)
    rw [dotted_nil, keyParts?, h.bare_key.simpleKey?_eq hc]
    simp only [bind, Option.bind_some]
    split
    · next h => exact absurd (by rw [h]; rfl) hdot
    · rfl
  | cons name path ih =>
    obtain ⟨fuel, rfl⟩ := Nat.exists_eq_succ_of_ne_zero (Nat.ne_zero_of_lt hfuel)
    have hname := h.bare_path name List.mem_cons_self
    have hrest := ih h.tail (Nat.lt_of_succ_lt_succ hfuel)
    rw [dotted_cons, List.append_assoc, List.cons_append, keyParts?,
      hname.simpleKey?_eq (by decide)]
    simp only [bind, Option.bind_some, skipSpace_cons (show isSpace '.' = false by decide),
      h.tail.skipSpace_eq, hrest]
    rfl

/-- A key is read part by part, and the space behind it is skipped. -/
theorem key?_eq {c : Char} (hc : isBareKeyChar c = false) {rest : List Char}
    (hdot : (skipSpace (c :: rest)).head? ≠ some '.') :
    key? (dotted path key ++ c :: rest) = some ((path, key), skipSpace (c :: rest)) := by
  have hlength := h.length_lt
  rw [key?, h.keyParts?_eq (by omega) hc hdot]
  simp

theorem skipSpace_entryText {text : List Char} (rest : List Char) :
    skipSpace (entryText path key text ++ rest) = entryText path key text ++ rest := by
  rw [entryText, List.append_assoc, List.append_assoc, h.skipSpace_eq]

variable {depth : Nat} {text : List Char} {v : Value}

theorem entry?_eq (hv : Reads depth text v) {c : Char} (hc : c ∈ followers) {cs rest : List Char}
    (hcs : skipSpace cs = entryText path key text ++ c :: rest) :
    entry? (value? depth) cs = some (((path, key), v), c :: rest) := by
  have hkey : key? (dotted path key ++ ' ' :: '=' :: ' ' :: (text ++ c :: rest)) =
      some ((path, key), '=' :: ' ' :: (text ++ c :: rest)) :=
    h.key?_eq (by decide) (by simp [skipSpace, isSpace])
  have hfront : skipSpace (' ' :: (text ++ c :: rest)) = text ++ c :: rest := hv.skipSpace_eq _
  have htext : entryText path key text ++ c :: rest =
      dotted path key ++ ' ' :: '=' :: ' ' :: (text ++ c :: rest) := by simp [entryText]
  unfold entry?
  rw [hcs, htext, hkey]
  simp only [bind, Option.bind_some, skip?, if_true, hfront, hv.reads c hc]
  rfl

end Named

theorem insert_nil {es : Entries} {key : String} (h : es.lookup key = none) (v : Value) :
    es.insert [] key v = some (es ++ [(key, v)]) := by
  simp [Entries.insert, Entries.atPath, h]

section Nested

variable {depth : Nat}

theorem skipGap_eq {cs : List Char} {c : Char} {rest : List Char} (h : skipSpace cs = c :: rest)
    (hc : c ∉ ['#', '\n', '\r']) (fuel : Nat) : skipGap (fuel + 1) cs = c :: rest := by
  simp only [List.mem_cons, List.not_mem_nil, or_false, not_or] at hc
  obtain ⟨hmark, hfeed, hreturn⟩ := hc
  have hcomment : skipComment (c :: rest) = c :: rest := by
    unfold skipComment
    split
    · next h => exact absurd (List.cons.inj h).1 hmark
    · rfl
  have hline : newline? (c :: rest) = none := by
    unfold newline?
    split
    · next h => exact absurd (List.cons.inj h).1 hfeed
    · next h => exact absurd (List.cons.inj h).1 hreturn
    · rfl
  simp only [skipGap, h, hcomment, hline]

theorem length_le_separated {α : Type} (text : α → List Char) {xs : List α}
    (h : ∀ x ∈ xs, text x ≠ []) : xs.length ≤ (separated (xs.map text)).length := by
  induction xs with
  | nil => exact Nat.le_refl 0
  | cons x xs ih =>
    have hx := List.length_pos_iff.mpr (h x List.mem_cons_self)
    have hxs := ih fun y hy => h y (List.mem_cons_of_mem x hy)
    cases xs with
    | nil => exact hx
    | cons y ys =>
      simp only [List.map_cons, separated, List.length_append, List.length_cons] at hxs ⊢
      omega

theorem exists_separated (text : List Char) (texts : List (List Char)) :
    ∃ more, separated (text :: texts) = text ++ more := by
  cases texts with
  | nil => exact ⟨[], (List.append_nil text).symm⟩
  | cons text' texts => exact ⟨_, rfl⟩

theorem skipSpace_separated {α : Type} (text : α → List Char) {x : α} {xs : List α}
    (h : ∀ rest, skipSpace (text x ++ rest) = text x ++ rest) (rest : List Char) :
    skipSpace (separated ((x :: xs).map text) ++ rest) = separated ((x :: xs).map text) ++ rest := by
  obtain ⟨more, hmore⟩ := exists_separated (text x) (xs.map text)
  rw [List.map_cons, hmore, List.append_assoc]
  exact h _

theorem elements?_nil (fuel : Nat) (rest : List Char) :
    elements? (value? depth) (fuel + 1) (']' :: rest) = some ([], rest) := by
  rw [elements?, skipGap_eq (skipSpace_cons (by decide) rest) (by decide)]
  rfl

theorem elements?_value {text : List Char} {v : Value} (h : Reads depth text v) {c : Char}
    (hc : c = ',' ∨ c = ']') {cs rest : List Char} (hcs : skipSpace cs = text ++ c :: rest)
    (fuel : Nat) : elements? (value? depth) (fuel + 1) cs =
      if c = ',' then (elements? (value? depth) fuel rest).map fun p => (v :: p.1, p.2)
      else some ([v], rest) := by
  obtain ⟨d, ds, rfl, hd⟩ := h.front
  simp only [List.mem_cons, List.not_mem_nil, or_false, not_or] at hd
  have hgap : skipGap (cs.length + 1) cs = d :: ds ++ c :: rest :=
    skipGap_eq hcs (by simp [hd]) _
  have hread : value? depth (d :: ds ++ c :: rest) = some (v, c :: rest) :=
    h.reads c (by rcases hc with rfl | rfl <;> decide) rest
  rw [elements?, hgap]
  split
  · next h => exact absurd (List.cons.inj h).1 hd.2.2.2.2.2
  · rw [hread]
    rcases hc with rfl | rfl
    · simp only [bind, Option.bind_some, skipGap_eq (skipSpace_cons (show isSpace ',' = false by decide) rest)
        (by decide), if_true]
      cases elements? (value? depth) fuel rest <;> rfl
    · simp only [bind, Option.bind_some, skipGap_eq (skipSpace_cons (show isSpace ']' = false by decide) rest)
        (by decide)]
      rfl

theorem elements?_separated {e : List Char × Value} {es : List (List Char × Value)}
    (h : ∀ e' ∈ e :: es, Reads depth e'.1 e'.2) {fuel : Nat} (hfuel : es.length < fuel)
    {cs rest : List Char} (hcs : skipSpace cs = separated ((e :: es).map (·.1)) ++ ']' :: rest) :
    elements? (value? depth) fuel cs = some ((e :: es).map (·.2), rest) := by
  induction es generalizing e fuel cs with
  | nil =>
    obtain ⟨fuel, rfl⟩ := Nat.exists_eq_succ_of_ne_zero (Nat.ne_zero_of_lt hfuel)
    exact elements?_value (h e List.mem_cons_self) (.inr rfl) hcs fuel
  | cons e' es ih =>
    obtain ⟨fuel, rfl⟩ := Nat.exists_eq_succ_of_ne_zero (Nat.ne_zero_of_lt hfuel)
    have hes : ∀ d ∈ e' :: es, Reads depth d.1 d.2 := fun d hd => h d (List.mem_cons_of_mem e hd)
    have hfront : skipSpace (' ' :: (separated ((e' :: es).map (·.1)) ++ ']' :: rest)) =
        separated ((e' :: es).map (·.1)) ++ ']' :: rest :=
      skipSpace_separated Prod.fst (hes e' List.mem_cons_self).skipSpace_eq _
    have hnext : skipSpace cs =
        e.1 ++ ',' :: ' ' :: (separated ((e' :: es).map (·.1)) ++ ']' :: rest) := by
      rw [hcs]
      simp [separated]
    rw [elements?_value (h e List.mem_cons_self) (.inl rfl) hnext, if_pos rfl,
      ih hes (Nat.lt_of_succ_lt_succ hfuel) hfront]
    rfl

theorem entries?_entry {name : String} {text : List Char} {v : Value} (hname : Bare name)
    (hv : Reads depth text v) {es : Entries} (hes : es.lookup name = none) {c : Char}
    (hc : c = ',' ∨ c = '}') {cs rest : List Char}
    (hcs : skipSpace cs = entryText [] name text ++ c :: rest) (fuel : Nat) :
    entries? (value? depth) (fuel + 1) es cs =
      if c = ',' then entries? (value? depth) fuel (es ++ [(name, v)]) rest
      else some (es ++ [(name, v)], rest) := by
  have hentry : entry? (value? depth) cs = some ((([], name), v), c :: rest) :=
    hname.named.entry?_eq hv (by rcases hc with rfl | rfl <;> decide) hcs
  rw [entries?, hentry]
  rcases hc with rfl | rfl
  · simp only [bind, Option.bind_some, insert_nil hes, if_true,
      skipSpace_cons (show isSpace ',' = false by decide)]
  · simp only [bind, Option.bind_some, insert_nil hes,
      skipSpace_cons (show isSpace '}' = false by decide)]
    rfl

theorem entries?_separated {e : String × List Char × Value}
    {es : List (String × List Char × Value)} {before : Entries}
    (hkeys : (before.map (·.1) ++ (e :: es).map (·.1)).Nodup)
    (h : ∀ e' ∈ e :: es, Bare e'.1 ∧ Reads depth e'.2.1 e'.2.2) {fuel : Nat}
    (hfuel : es.length < fuel) {cs rest : List Char}
    (hcs : skipSpace cs = separated ((e :: es).map inlineText) ++ '}' :: rest) :
    entries? (value? depth) fuel before cs =
      some (before ++ (e :: es).map (fun e => (e.1, e.2.2)), rest) := by
  -- each entry joins those before it, and `hkeys` keeps the keys to come apart from theirs
  induction es generalizing e before fuel cs with
  | nil =>
    obtain ⟨fuel, rfl⟩ := Nat.exists_eq_succ_of_ne_zero (Nat.ne_zero_of_lt hfuel)
    obtain ⟨hname, hv⟩ := h e List.mem_cons_self
    exact entries?_entry hname hv (lookup_eq_none_of_nodup hkeys) (.inr rfl) hcs fuel
  | cons e' es ih =>
    obtain ⟨fuel, rfl⟩ := Nat.exists_eq_succ_of_ne_zero (Nat.ne_zero_of_lt hfuel)
    obtain ⟨hname, hv⟩ := h e List.mem_cons_self
    have hes : ∀ d ∈ e' :: es, Bare d.1 ∧ Reads depth d.2.1 d.2.2 := fun d hd =>
      h d (List.mem_cons_of_mem e hd)
    have hbefore : ((before ++ [(e.1, e.2.2)]).map (·.1) ++ (e' :: es).map (·.1)).Nodup := by
      simpa using hkeys
    have hfront : skipSpace (' ' :: (separated ((e' :: es).map inlineText) ++ '}' :: rest)) =
        separated ((e' :: es).map inlineText) ++ '}' :: rest :=
      skipSpace_separated inlineText (hes e' List.mem_cons_self).1.named.skipSpace_entryText _
    have hnext : skipSpace cs = entryText [] e.1 e.2.1 ++
        ',' :: ' ' :: (separated ((e' :: es).map inlineText) ++ '}' :: rest) := by
      rw [hcs]
      simp [separated, inlineText]
    rw [entries?_entry hname hv (lookup_eq_none_of_nodup hkeys) (.inl rfl) hnext, if_pos rfl,
      ih hbefore hes (Nat.lt_of_succ_lt_succ hfuel) hfront]
    simp

theorem value?_array {elements : List (List Char × Value)}
    (h : ∀ e ∈ elements, Reads depth e.1 e.2) (rest : List Char) :
    value? (depth + 1) ('[' :: (separated (elements.map (·.1)) ++ ']' :: rest)) =
      some (.array (elements.map (·.2)), rest) := by
  have hlength := length_le_separated Prod.fst fun e he => (h e he).ne_nil
  rw [value?]
  cases elements with
  | nil => rw [List.map_nil, separated, List.nil_append, elements?_nil]; rfl
  | cons e es =>
    have hfuel : es.length < (separated ((e :: es).map (·.1)) ++ ']' :: rest).length + 1 := by
      rw [List.length_append]
      exact Nat.lt_succ_of_lt (Nat.lt_of_lt_of_le hlength (Nat.le_add_right _ _))
    rw [elements?_separated h hfuel
      (skipSpace_separated Prod.fst (h e List.mem_cons_self).skipSpace_eq _)]
    rfl

theorem value?_inline {entries : List (String × List Char × Value)}
    (hkeys : (entries.map (·.1)).Nodup) (h : ∀ e ∈ entries, Bare e.1 ∧ Reads depth e.2.1 e.2.2)
    (rest : List Char) :
    value? (depth + 1) ('{' :: (separated (entries.map inlineText) ++ '}' :: rest)) =
      some (.table .inline (entries.map fun e => (e.1, e.2.2)), rest) := by
  cases entries with
  | nil => rfl
  | cons e es =>
    have hname := (h e List.mem_cons_self).1.named
    obtain ⟨c, cs, hcs, hc⟩ := hname.exists_head_entryText e.2.1
    obtain ⟨more, hmore⟩ := exists_separated (inlineText e) (es.map inlineText)
    have hfront : skipSpace (separated ((e :: es).map inlineText) ++ '}' :: rest) =
        separated ((e :: es).map inlineText) ++ '}' :: rest :=
      skipSpace_separated inlineText hname.skipSpace_entryText _
    have hlength : (e :: es).length ≤ (separated ((e :: es).map inlineText)).length :=
      length_le_separated inlineText fun e he => (h e he).1.named.entryText_ne_nil e.2.1
    have hfuel : es.length < (separated ((e :: es).map inlineText) ++ '}' :: rest).length + 1 := by
      rw [List.length_append]
      exact Nat.lt_succ_of_lt (Nat.lt_of_lt_of_le hlength (Nat.le_add_right _ _))
    have hnodup : ((([] : Entries).map (·.1)) ++ (e :: es).map (·.1)).Nodup := hkeys
    rw [value?, hfront]
    split
    · next heq =>
      rw [List.map_cons, hmore, show inlineText e = c :: cs from hcs] at heq
      exact absurd (List.cons.inj heq).1 (hc '}' (by decide))
    · rw [entries?_separated hnodup h hfuel hfront]
      rfl

end Nested

theorem Writes.reads {depth : Nat} {text : List Char} {v : Value} (h : Writes depth text v) :
    Reads depth text v := by
  induction h with
  | scalar h => exact h.reads _
  | array elements _ ih =>
    refine ⟨⟨'[', _, rfl, by decide⟩, fun c _ rest => ?_⟩
    rw [List.cons_append, List.append_assoc, List.singleton_append]
    exact value?_array ih _
  | table entries hkeys hbare _ ih =>
    refine ⟨⟨'{', _, rfl, by decide⟩, fun c _ rest => ?_⟩
    rw [List.cons_append, List.append_assoc, List.singleton_append]
    exact value?_inline hkeys (fun e he => ⟨hbare e he, ih e he⟩) _

end IntervalIndex.Toml
