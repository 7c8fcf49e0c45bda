import IntervalIndex.Proofs.Records.Offsets
import IntervalIndex.Proofs.Toml.Grammar
import Mathlib.Data.List.Basic
import Mathlib.Data.List.TakeDrop
import Mathlib.Data.List.TakeWhile

namespace IntervalIndex.Toml

open Text.Decimal (ofNat ofInt)

def followers : List Char := ['\n', ',', ']', '}']

/-- Text that is read as a value whatever stands behind it. Neither what is skipped in front of a value
nor the end of an array stands at its front. -/
structure Reads (depth : Nat) (text : List Char) (v : Value) : Prop where
  front : ∃ c cs, text = c :: cs ∧ c ∉ [' ', '\t', '#', '\n', '\r', ']']
  reads : ∀ c ∈ followers, ∀ rest, value? depth (text ++ c :: rest) = some (v, c :: rest)

theorem skipSpace_cons {c : Char} (hc : isSpace c = false) (cs : List Char) :
    skipSpace (c :: cs) = c :: cs :=
  List.dropWhile_cons_of_neg (by simp [hc])

theorem Reads.ne_nil {depth : Nat} {text : List Char} {v : Value} (h : Reads depth text v) :
    text ≠ [] := by
  obtain ⟨c, cs, rfl, -⟩ := h.front
  exact List.cons_ne_nil c cs

theorem Reads.skipSpace_eq {depth : Nat} {text : List Char} {v : Value} (h : Reads depth text v)
    (rest : List Char) : skipSpace (text ++ rest) = text ++ rest := by
  obtain ⟨c, cs, rfl, hc⟩ := h.front
  simp only [List.mem_cons, not_or] at hc
  exact skipSpace_cons (by simp [isSpace, hc.1, hc.2.1]) _

theorem span_append {p : Char → Bool} {w : List Char} (hw : ∀ c ∈ w, p c = true) {c : Char}
    (hc : p c = false) (rest : List Char) : (w ++ c :: rest).span p = (w, c :: rest) := by
  rw [List.span_eq_takeWhile_dropWhile, List.takeWhile_append_of_pos hw,
    List.dropWhile_append_of_pos hw, List.takeWhile_cons_of_neg (by simp [hc]),
    List.dropWhile_cons_of_neg (by simp [hc]), List.append_nil]

theorem word_append {w : List Char} (hw : ∀ c ∈ w, isWordChar c = true) {c : Char}
    (hc : c ∈ followers) (rest : List Char) : word (w ++ c :: rest) = (w, c :: rest) := by
  have hstop : ∀ d ∈ followers, isWordChar d = false ∧ d ≠ ' ' :=
    List.forall_iff_forall_mem.mp (by decide)
  obtain ⟨hword, hspace⟩ := hstop c hc
  rw [word, span_append hw hword]
  dsimp only
  split
  · next h => exact absurd (List.cons.inj h).1 hspace
  · rfl

theorem value?_word {w : List Char} (hne : w ≠ []) (hw : ∀ c ∈ w, isWordChar c = true)
    (depth : Nat) {c : Char} (hc : c ∈ followers) (rest : List Char) :
    value? depth (w ++ c :: rest) = (scalar? w).map fun v => (v, c :: rest) := by
  have hword := word_append hw hc rest
  obtain ⟨d, ds, rfl⟩ := List.exists_cons_of_ne_nil hne
  have hd : isWordChar d = true := hw d List.mem_cons_self
  have hopen : d ≠ '[' ∧ d ≠ '{' ∧ d ≠ '"' ∧ d ≠ '\'' := by
    refine ⟨?_, ?_, ?_, ?_⟩ <;> rintro rfl <;> exact absurd hd (by decide)
  have hscalar : scalarValue? (d :: ds ++ c :: rest) =
      (scalar? (d :: ds)).map fun v => (v, c :: rest) := by
    unfold scalarValue?
    split
    · next h => exact absurd (List.cons.inj h).1 hopen.2.2.1
    · next h => exact absurd (List.cons.inj h).1 hopen.2.2.2
    · rw [hword]
  cases depth <;> unfold value? <;> split <;> simp_all

theorem reads_word {w : List Char} {v : Value} (hne : w ≠ [])
    (hw : ∀ c ∈ w, isWordChar c = true) (hv : scalar? w = some v) (depth : Nat) :
    Reads depth w v where
  front := by
    obtain ⟨c, cs, rfl⟩ := List.exists_cons_of_ne_nil hne
    refine ⟨c, cs, rfl, fun hc => ?_⟩
    have hskipped : ∀ d ∈ [' ', '\t', '#', '\n', '\r', ']'], isWordChar d = false :=
      List.forall_iff_forall_mem.mp (by decide)
    exact absurd (hw c List.mem_cons_self) (Bool.eq_false_iff.mp (hskipped c hc))
  reads c hc rest := by rw [value?_word hne hw depth hc, hv, Option.map_some]

section Digits

variable {ds : List Char} (hds : ∀ c ∈ ds, isDigit c = true)

include hds

theorem not_mem_of_digits {c : Char} (hc : isDigit c = false) : c ∉ ds := by
  intro hmem
  rw [hds c hmem] at hc
  cases hc

theorem skip?_of_digits {c : Char} (hc : isDigit c = false) : skip? c ds = none := by
  cases ds with
  | nil => rfl
  | cons d ds =>
    have hne : c ≠ d := fun h => not_mem_of_digits hds hc (h ▸ List.mem_cons_self)
    rw [skip?, if_neg hne]

theorem skip?_after_digits {width n : Nat} {rest : List Char} (h : digits? width ds = some (n, rest))
    {c : Char} (hc : isDigit c = false) : skip? c rest = none := by
  simp only [digits?, Option.ite_none_right_eq_some, Option.some.injEq, Prod.mk.injEq] at h
  obtain ⟨-, -, rfl⟩ := h
  exact skip?_of_digits (fun d hd => hds d (List.mem_of_mem_drop hd)) hc

/-- Digits and nothing else are no date and no time, which have other characters between them. -/
theorem dateTime?_of_digits : dateTime? ds = none := by
  have hdate : date? ds = none := by
    rw [date?]
    cases hyear : digits? 4 ds with
    | none => rfl
    | some year => simp [skip?_after_digits hds hyear (show isDigit '-' = false by decide)]
  have htime : time? ds = none := by
    rw [time?]
    cases hhour : digits? 2 ds with
    | none => rfl
    | some hour => simp [skip?_after_digits hds hhour (show isDigit ':' = false by decide)]
  simp [dateTime?, hdate, htime]

theorem signed_of_digits : signed ds = (false, ds) := by
  unfold signed
  split
  · next cs => exact absurd List.mem_cons_self (not_mem_of_digits hds (by decide))
  · next cs => exact absurd List.mem_cons_self (not_mem_of_digits hds (by decide))
  · rfl

theorem float?_of_digits {w : List Char} {negative : Bool} (hw : signed w = (negative, ds)) :
    float? w = none := by
  have hinf : (ds == "inf".toList) = false := by
    rw [beq_eq_false_iff_ne]
    rintro rfl
    exact not_mem_of_digits hds (c := 'i') (by decide) (by decide)
  have hnan : (ds == "nan".toList) = false := by
    rw [beq_eq_false_iff_ne]
    rintro rfl
    exact not_mem_of_digits hds (c := 'n') (by decide) (by decide)
  have hgap : ∀ c ∈ ds, isDigitOrGap c = true := fun c hc => by simp [isDigitOrGap, hds c hc]
  have hspan : ds.span isDigitOrGap = (ds, []) := by
    rw [List.span_eq_takeWhile_dropWhile, List.takeWhile_eq_self_iff.mpr hgap,
      List.dropWhile_eq_nil_iff.mpr hgap]
  simp only [float?, hw, hinf, hnan, hspan, Bool.or_self, Bool.false_eq_true, if_false,
    List.drop_length, List.head?_nil]
  split <;> rfl

theorem isNumeral_of_digits (hne : ds ≠ []) : isNumeral isDigit ds = true := by
  fun_induction isNumeral isDigit ds with
  | case1 => exact absurd rfl hne
  | case2 c => exact hds c List.mem_cons_self
  | case3 c cs =>
    exact absurd (List.mem_cons_of_mem c List.mem_cons_self) (not_mem_of_digits hds (by decide))
  | case4 c cs hcs hgap ih =>
    rw [hds c List.mem_cons_self, Bool.true_and]
    exact ih (fun d hd => hds d (List.mem_cons_of_mem c hd)) (fun h => hcs h)

theorem isDecimal_of_digits (hne : ds ≠ []) (hzero : ds = ['0'] ∨ ds.head? ≠ some '0') :
    isDecimal ds = true := by
  simpa [isDecimal, isNumeral_of_digits hds hne] using hzero

theorem integer?_of_digits (hne : ds ≠ []) (hzero : ds = ['0'] ∨ ds.head? ≠ some '0') :
    integer? ds = integerOf false (numeralValue 10 ds) := by
  unfold integer?
  split
  · exact absurd (by simp) (not_mem_of_digits hds (c := 'x') (by decide))
  · exact absurd (by simp) (not_mem_of_digits hds (c := 'o') (by decide))
  · exact absurd (by simp) (not_mem_of_digits hds (c := 'b') (by decide))
  · simp only [signed_of_digits hds, isDecimal_of_digits hds hne hzero, if_true]

theorem scalar?_of_digits (hne : ds ≠ []) (hzero : ds = ['0'] ∨ ds.head? ≠ some '0') :
    scalar? ds = integerOf false (numeralValue 10 ds) := by
  have hword : ∀ w, 't' ∈ w ∨ 'f' ∈ w → (ds == w) = false := by
    intro w hw
    rw [beq_eq_false_iff_ne]
    rintro rfl
    rcases hw with hw | hw <;> exact absurd (hds _ hw) (by decide)
  rw [scalar?, hword _ (.inl (by decide)), hword _ (.inr (by decide)), dateTime?_of_digits hds,
    float?_of_digits hds (signed_of_digits hds), integer?_of_digits hds hne hzero]
  rfl

theorem scalar?_of_minus (hne : ds ≠ []) (hzero : ds = ['0'] ∨ ds.head? ≠ some '0') :
    scalar? ('-' :: ds) = integerOf true (numeralValue 10 ds) := by
  have hword : ∀ c cs, c ≠ '-' → ('-' :: ds == c :: cs) = false := by
    intro c cs hc
    rw [beq_eq_false_iff_ne]
    exact fun h => hc (List.cons.inj h).1.symm
  have hdigits : ∀ width, digits? (width + 1) ('-' :: ds) = none := fun width => by
    simp [digits?, show isDigit '-' = false by decide]
  have hdateTime : dateTime? ('-' :: ds) = none := by
    simp [dateTime?, date?, time?, hdigits]
  have hinteger : integer? ('-' :: ds) = integerOf true (numeralValue 10 ds) := by
    have hsigned : signed ('-' :: ds) = (true, ds) := rfl
    unfold integer?
    split
    · next h => exact absurd (List.cons.inj h).1 (by decide)
    · next h => exact absurd (List.cons.inj h).1 (by decide)
    · next h => exact absurd (List.cons.inj h).1 (by decide)
    · simp only [hsigned, isDecimal_of_digits hds hne hzero, if_true]
  rw [scalar?, show "true".toList = 't' :: "rue".toList from rfl,
    show "false".toList = 'f' :: "alse".toList from rfl, hword _ _ (by decide),
    hword _ _ (by decide), hdateTime, float?_of_digits hds rfl, hinteger]
  rfl

end Digits

theorem isDigit_of_mem_ofNat {n : Nat} {c : Char} (h : c ∈ ofNat n) : isDigit c = true := by
  have hdigit := Text.Decimal.isDigit_of_mem_ofNat h
  simpa [isDigit, Char.isDigit, Char.le_def] using hdigit

theorem head?_ofNat {n : Nat} (hn : n ≠ 0) : (ofNat n).head? ≠ some '0' := by
  have hdigit : ∀ d < 10, d ≠ 0 → Text.Decimal.digit d ≠ '0' := by decide
  induction n using Text.Decimal.ofNat.induct with
  | case1 n hlt =>
    rw [ofNat, if_pos hlt, List.head?_cons, ne_eq, Option.some.injEq]
    exact hdigit n hlt hn
  | case2 n hle ih =>
    rw [ofNat, if_neg hle, List.head?_append_of_ne_nil _ (Text.Decimal.ofNat_ne_nil _)]
    exact ih (by omega)

theorem numeralValue_ofNat (n : Nat) : numeralValue 10 (ofNat n) = n := by
  have hgaps : (ofNat n).filter (· != '_') = ofNat n := by
    refine List.filter_eq_self.mpr fun c hc => bne_iff_ne.mpr ?_
    rintro rfl
    exact absurd (isDigit_of_mem_ofNat hc) (by decide)
  have hdigit : ∀ d < 10, hexValue (Text.Decimal.digit d) = d := by decide
  rw [numeralValue, hgaps]
  clear hgaps
  induction n using Text.Decimal.ofNat.induct with
  | case1 n hlt =>
    rw [ofNat, if_pos hlt, List.foldl_cons, List.foldl_nil, hdigit n hlt]
    omega
  | case2 n hle ih =>
    rw [ofNat, if_neg hle, List.foldl_append, ih, List.foldl_cons, List.foldl_nil,
      hdigit _ (Nat.mod_lt n (by decide))]
    omega

theorem scalar?_ofInt {n : Int} (hmin : PosType.i64.min ≤ n) (hmax : n ≤ PosType.i64.max) :
    scalar? (ofInt n) = some (.integer n) := by
  have hds : ∀ m, ∀ c ∈ ofNat m, isDigit c = true := fun _ _ hc => isDigit_of_mem_ofNat hc
  have hzero : ∀ m, ofNat m = ['0'] ∨ (ofNat m).head? ≠ some '0' := by
    intro m
    by_cases h : m = 0
    · exact .inl (by rw [h, ofNat]; decide)
    · exact .inr (head?_ofNat h)
  have hfits : (Pos.ofInt? n : Option (Pos .i64)) = some ⟨n, hmin, hmax⟩ :=
    Pos.ofInt?_eq_some_iff.mpr rfl
  cases n with
  | ofNat m =>
    rw [ofInt, scalar?_of_digits (hds m) (Text.Decimal.ofNat_ne_nil m) (hzero m),
      numeralValue_ofNat, integerOf, if_neg (by decide)]
    exact congrArg (Option.map _) hfits
  | negSucc m =>
    rw [ofInt, scalar?_of_minus (hds _) (Text.Decimal.ofNat_ne_nil _) (hzero _),
      numeralValue_ofNat, integerOf, if_pos rfl]
    exact congrArg (Option.map _) hfits

theorem isWordChar_of_mem_ofInt {n : Int} {c : Char} (h : c ∈ ofInt n) : isWordChar c = true := by
  have hdigit {m : Nat} (h : c ∈ ofNat m) : isWordChar c = true := by
    simp [isWordChar, isDigit_of_mem_ofNat h]
  cases n with
  | ofNat m => exact hdigit h
  | negSucc m =>
    obtain rfl | h := List.mem_cons.mp h
    · decide
    · exact hdigit h

theorem basic_append {cs : List Char} (hcs : ∀ c ∈ cs, isPlain c = true) {fuel : Nat}
    (hfuel : cs.length < fuel) (rest : List Char) :
    basic fuel (cs ++ '"' :: rest) = some (cs, rest) := by
  induction cs generalizing fuel with
  | nil =>
    obtain ⟨fuel, rfl⟩ := Nat.exists_eq_succ_of_ne_zero (Nat.ne_zero_of_lt hfuel)
    rfl
  | cons c cs ih =>
    obtain ⟨fuel, rfl⟩ := Nat.exists_eq_succ_of_ne_zero (Nat.ne_zero_of_lt hfuel)
    obtain ⟨⟨htext, hquote⟩, hslash⟩ : (isText c = true ∧ c ≠ '"') ∧ c ≠ '\\' := by
      simpa [isPlain] using hcs c List.mem_cons_self
    rw [List.cons_append, basic, if_pos htext,
      ih (fun d hd => hcs d (List.mem_cons_of_mem c hd)) (Nat.lt_of_succ_lt_succ hfuel)]
    · rfl
    · exact hquote
    · exact hslash

theorem quoted?_append {cs : List Char} (hcs : ∀ c ∈ cs, isPlain c = true) {c : Char}
    (hc : c ≠ '"') (rest : List Char) :
    quoted? ('"' :: (cs ++ '"' :: c :: rest)) = some (cs, c :: rest) := by
  -- three quotes would open a text on many lines
  have hmany : ∀ more, cs ++ '"' :: c :: rest ≠ '"' :: '"' :: more := by
    rintro more h
    cases cs with
    | nil => exact hc (List.cons.inj (List.cons.inj h).2).1
    | cons d ds =>
      obtain rfl := (List.cons.inj h).1
      exact absurd (hcs _ List.mem_cons_self) (by decide)
  rw [quoted?, basic_append hcs (by rw [List.length_append, List.length_cons]; omega)]
  exact hmany

theorem reads_quoted {cs : List Char} (hcs : ∀ c ∈ cs, isPlain c = true) (depth : Nat) :
    Reads depth ('"' :: (cs ++ ['"'])) (.string (String.ofList cs)) where
  front := ⟨'"', _, rfl, by decide⟩
  reads c hc rest := by
    have hquote : '"' ∉ followers := by decide
    have hvalue : value? depth ('"' :: (cs ++ '"' :: c :: rest)) =
        (quoted? ('"' :: (cs ++ '"' :: c :: rest))).map fun p => (.string (String.ofList p.1), p.2) := by
      cases depth <;> rfl
    rw [List.cons_append, List.append_assoc, List.singleton_append, hvalue,
      quoted?_append hcs (ne_of_mem_of_not_mem hc hquote), Option.map_some]

theorem Scalar.reads {text : List Char} {v : Value} (h : Scalar text v) (depth : Nat) :
    Reads depth text v := by
  cases h with
  | @integer n hmin hmax =>
    exact reads_word (Text.Decimal.ofInt_ne_nil n) (fun c hc => isWordChar_of_mem_ofInt hc)
      (scalar?_ofInt hmin hmax) depth
  | false => exact reads_word (by decide) (List.all_eq_true.mp (by decide)) rfl depth
  | true => exact reads_word (by decide) (List.all_eq_true.mp (by decide)) rfl depth
  | text hcs => exact reads_quoted hcs depth

end IntervalIndex.Toml
