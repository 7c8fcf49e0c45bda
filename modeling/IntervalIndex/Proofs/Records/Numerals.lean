import IntervalIndex.Records.Offset
import Mathlib.Data.Nat.Digits.Defs

namespace IntervalIndex

namespace Text.Decimal

def value (ds : List Char) : Nat := Nat.ofDigits 10 (ds.reverse.map fun c => c.toNat - '0'.toNat)

theorem value_append (ds es : List Char) : value (ds ++ es) = value ds * 10 ^ es.length + value es := by
  rw [value, List.reverse_append, List.map_append, Nat.ofDigits_append, List.length_map,
    List.length_reverse, Nat.add_comm, Nat.mul_comm]
  rfl

theorem value_concat (ds : List Char) (c : Char) :
    value (ds ++ [c]) = value ds * 10 + (c.toNat - '0'.toNat) := by
  rw [value_append]
  simp [value]

theorem value_le_append (ds es : List Char) : value ds ≤ value (ds ++ es) := by
  rw [value_append]
  have hpos : 0 < 10 ^ es.length := Nat.pow_pos (by decide)
  exact Nat.le_trans (Nat.le_mul_of_pos_right _ hpos) (Nat.le_add_right _ _)

theorem digitValue?_of_isDigit {c : Char} (h : c.isDigit = true) :
    digitValue? c = some (c.toNat - '0'.toNat) := by
  rw [digitValue?, if_pos]
  simpa [Char.isDigit, Char.le_def] using h

theorem digitValue?_of_not_isDigit {c : Char} (h : c.isDigit = false) : digitValue? c = none := by
  rw [digitValue?, if_neg]
  simpa [Char.isDigit, Char.le_def] using h

end Text.Decimal

namespace Records.Offset

open Text.Decimal

theorem ofDigits_append (negative : Bool) (cs ds : List Char) (value : Offset) :
    ofDigits negative (cs ++ ds) value =
      (ofDigits negative cs value).bind (ofDigits negative ds) := by
  induction cs generalizing value with
  | nil => rfl
  | cons c cs ih =>
    simp only [List.cons_append, ofDigits]
    cases digitValue? c with
    | none => rfl
    | some d =>
      simp only
      cases (Pos.ofInt? _ : Option Offset) with
      | none => rfl
      | some next => exact ih next

def signed (negative : Bool) (n : Nat) : Int := if negative then -(n : Int) else n

/-- Digits whose number is an offset on the side of the sign. -/
def Fits (negative : Bool) (ds : List Char) : Prop :=
  ∃ x : Offset, x.val = signed negative (value ds)

theorem exists_closer {negative : Bool} {m n : Nat} (h : m ≤ n) {x : Offset}
    (hx : x.val = signed negative n) : ∃ y : Offset, y.val = signed negative m := by
  have hmin := PosType.i64.min_le_zero
  have hmax := PosType.i64.zero_le_max
  have hle := x.min_le
  have hge := x.le_max
  cases negative <;> simp only [signed, if_true, Bool.false_eq_true, if_false] at hx ⊢
  · exact ⟨⟨m, by omega, by omega⟩, rfl⟩
  · exact ⟨⟨-m, by omega, by omega⟩, rfl⟩

theorem Fits.front {negative : Bool} {ds es : List Char} (h : Fits negative (ds ++ es)) :
    Fits negative ds := by
  obtain ⟨x, hx⟩ := h
  exact exists_closer (value_le_append ds es) hx

/-- The first character that is no digit, or the first digit for which there is no room. -/
inductive DigitFault (negative : Bool) : List Char → OffsetError → Prop
  | notDigit {read : List Char} {c : Char} (rest : List Char) (hread : ∀ a ∈ read, a.isDigit = true)
    (hfits : Fits negative read) (hc : c.isDigit = false) :
    DigitFault negative (read ++ c :: rest) .invalidDigit
  | noRoom {read : List Char} {c : Char} (rest : List Char) (hread : ∀ a ∈ read, a.isDigit = true)
    (hfits : Fits negative read) (hc : c.isDigit = true) (hroom : ¬ Fits negative (read ++ [c])) :
    DigitFault negative (read ++ c :: rest) (if negative then .tooSmall else .tooLarge)

theorem value_digit {negative : Bool} {read : List Char} {c : Char} {x : Offset}
    (hx : x.val = signed negative (value read)) :
    x.val * 10 + signed negative (c.toNat - '0'.toNat) = signed negative (value (read ++ [c])) := by
  rw [value_concat, hx]
  cases negative <;> simp only [signed, if_true, Bool.false_eq_true, if_false] <;> omega

theorem ofDigits_of_fits {negative : Bool} {read : List Char} {c : Char} {x next : Offset}
    (hx : x.val = signed negative (value read)) (hc : c.isDigit = true)
    (hnext : next.val = signed negative (value (read ++ [c]))) (cs : List Char) :
    ofDigits negative (c :: cs) x = ofDigits negative cs next := by
  rw [← value_digit hx, signed] at hnext
  simp only [ofDigits, digitValue?_of_isDigit hc, Pos.ofInt?_eq_some_iff.mpr hnext]

theorem ofDigits_of_not_fits {negative : Bool} {read : List Char} {c : Char} {x : Offset}
    (hx : x.val = signed negative (value read)) (hc : c.isDigit = true)
    (hroom : ¬ Fits negative (read ++ [c])) (cs : List Char) :
    ofDigits negative (c :: cs) x = .error (if negative then .tooSmall else .tooLarge) := by
  have hnone : (Pos.ofInt? (x.val * 10 + signed negative (c.toNat - '0'.toNat)) : Option Offset) =
      none := by
    rw [value_digit hx, Option.eq_none_iff_forall_ne_some]
    exact fun y hy => hroom ⟨y, Pos.ofInt?_eq_some_iff.mp hy⟩
  rw [signed] at hnone
  simp only [ofDigits, digitValue?_of_isDigit hc, hnone]

/-- From digits that have been read, reading goes on to the number of all digits, or breaks off. -/
theorem ofDigits_cases {negative : Bool} {read : List Char} {x : Offset}
    (hread : ∀ a ∈ read, a.isDigit = true) (hx : x.val = signed negative (value read))
    (cs : List Char) :
    (∃ y, ofDigits negative cs x = .ok y ∧ (∀ a ∈ read ++ cs, a.isDigit = true) ∧
      y.val = signed negative (value (read ++ cs))) ∨
    ∃ why, ofDigits negative cs x = .error why ∧ DigitFault negative (read ++ cs) why := by
  -- at every step `read` is what has been read and `x` its number, so each new digit moves from the one
  -- list to the other
  induction cs generalizing read x with
  | nil => exact .inl ⟨x, rfl, by simpa using hread, by simpa using hx⟩
  | cons c cs ih =>
    cases hc : c.isDigit with
    | false =>
      refine .inr ⟨.invalidDigit, ?_, .notDigit cs hread ⟨x, hx⟩ hc⟩
      simp only [ofDigits, digitValue?_of_not_isDigit hc]
    | true =>
      by_cases hroom : Fits negative (read ++ [c])
      · obtain ⟨next, hnext⟩ := hroom
        have hread' : ∀ a ∈ read ++ [c], a.isDigit = true := by
          simpa [or_imp, forall_and, hc] using hread
        rw [ofDigits_of_fits hx hc hnext, ← List.singleton_append, ← List.append_assoc]
        exact ih hread' hnext
      · exact .inr ⟨_, ofDigits_of_not_fits hx hc hroom cs, .noRoom cs hread ⟨x, hx⟩ hc hroom⟩

theorem not_digitFault {negative : Bool} {ds : List Char} (hdigits : ∀ c ∈ ds, c.isDigit = true)
    (hfits : Fits negative ds) (why : OffsetError) : ¬ DigitFault negative ds why := by
  intro h
  cases h with
  | @notDigit read c rest hread _ hc =>
    rw [hdigits c (by simp)] at hc
    cases hc
  | @noRoom read c rest hread _ hc hroom =>
    rw [← List.singleton_append, ← List.append_assoc] at hfits
    exact hroom hfits.front

theorem ofDigits_eq_ok_iff {negative : Bool} {ds : List Char} {x : Offset} :
    ofDigits negative ds Pos.zero = .ok x ↔
      (∀ c ∈ ds, c.isDigit = true) ∧ x.val = signed negative (value ds) := by
  have hzero : (Pos.zero : Offset).val = signed negative (value []) := by cases negative <;> rfl
  obtain ⟨y, hy, hdigits, hval⟩ | ⟨why, hwhy, hfault⟩ :=
    ofDigits_cases (List.forall_mem_nil _) hzero ds
  · rw [hy, Except.ok.injEq]
    refine ⟨fun h => ⟨hdigits, h ▸ hval⟩, fun h => Pos.ext (hval.trans h.2.symm)⟩
  · rw [hwhy]
    refine ⟨nofun, fun h => ?_⟩
    exact absurd hfault (not_digitFault h.1 ⟨x, h.2⟩ why)

theorem ofDigits_eq_error_iff {negative : Bool} {ds : List Char} {why : OffsetError} :
    ofDigits negative ds Pos.zero = .error why ↔ DigitFault negative ds why := by
  have hzero : (Pos.zero : Offset).val = signed negative (value []) := by cases negative <;> rfl
  constructor
  · intro h
    obtain ⟨y, hy, -⟩ | ⟨why', hwhy, hfault⟩ :=
      ofDigits_cases (List.forall_mem_nil _) hzero ds
    · cases hy.symm.trans h
    · obtain rfl : why' = why := Except.error.inj (hwhy.symm.trans h)
      exact hfault
  · intro h
    cases h with
    | @notDigit read c rest hread hfits hc =>
      obtain ⟨x, hx⟩ := hfits
      rw [ofDigits_append, ofDigits_eq_ok_iff.mpr ⟨hread, hx⟩]
      simp only [Except.bind, ofDigits, digitValue?_of_not_isDigit hc]
    | @noRoom read c rest hread hfits hc hroom =>
      obtain ⟨x, hx⟩ := hfits
      rw [ofDigits_append, ofDigits_eq_ok_iff.mpr ⟨hread, hx⟩]
      exact ofDigits_of_not_fits hx hc hroom rest

inductive Sign where
  | none
  | plus
  | minus

def Sign.chars : Sign → List Char
  | none => []
  | plus => ['+']
  | minus => ['-']

def Sign.negative : Sign → Bool
  | none | plus => false
  | minus => true

def Numeral (cs : List Char) (x : Int) : Prop :=
  ∃ (sign : Sign) (ds : List Char), cs = sign.chars ++ ds ∧ ds ≠ [] ∧
    (∀ c ∈ ds, c.isDigit = true) ∧ x = signed sign.negative (value ds)

/-- Text that does not begin with a sign, as a sign that stands there is always taken for one. -/
def Unsigned (cs : List Char) : Prop := cs.head? ≠ some '+' ∧ cs.head? ≠ some '-'

/-- Why text is no offset: there is none, or no more than a sign, or its digits break off. -/
inductive Misread : List Char → OffsetError → Prop
  | empty : Misread [] .empty
  | loneSign (sign : Sign) (hsign : sign ≠ .none) : Misread sign.chars .invalidDigit
  | digits {sign : Sign} {ds : List Char} {why : OffsetError} (hds : ds ≠ [])
    (hsign : sign = .none → Unsigned ds) (hfault : DigitFault sign.negative ds why) :
    Misread (sign.chars ++ ds) why

theorem exists_sign (cs : List Char) :
    ∃ (sign : Sign) (ds : List Char), cs = sign.chars ++ ds ∧ (sign = .none → Unsigned ds) := by
  by_cases hplus : cs.head? = some '+'
  · obtain ⟨ds, rfl⟩ := List.head?_eq_some_iff.mp hplus
    exact ⟨.plus, ds, rfl, nofun⟩
  · by_cases hminus : cs.head? = some '-'
    · obtain ⟨ds, rfl⟩ := List.head?_eq_some_iff.mp hminus
      exact ⟨.minus, ds, rfl, nofun⟩
    · exact ⟨.none, cs, rfl, fun _ => ⟨hplus, hminus⟩⟩

theorem unsigned_of_digits {ds : List Char} (h : ∀ c ∈ ds, c.isDigit = true) : Unsigned ds := by
  constructor <;> intro hhead
  all_goals cases h _ (List.mem_of_head? hhead)

theorem ofChars_eq_ofDigits {sign : Sign} {ds : List Char} (hds : ds ≠ [])
    (hsign : sign = .none → Unsigned ds) :
    ofChars (sign.chars ++ ds) = ofDigits sign.negative ds Pos.zero := by
  obtain ⟨c, cs, rfl⟩ := List.exists_cons_of_ne_nil hds
  cases sign with
  | plus | minus => rfl
  | none =>
    obtain ⟨hplus, hminus⟩ := hsign rfl
    have hplus' : c ≠ '+' := by simpa using hplus
    have hminus' : c ≠ '-' := by simpa using hminus
    change ofChars (c :: cs) = ofDigits false (c :: cs) Pos.zero
    unfold ofChars
    split <;> simp_all

theorem ofChars_eq_ok_iff {cs : List Char} {x : Offset} :
    ofChars cs = .ok x ↔ Numeral cs x.val := by
  constructor
  · intro h
    obtain ⟨sign, ds, rfl, hsign⟩ := exists_sign cs
    by_cases hds : ds = []
    · subst hds
      cases sign <;> cases h
    · rw [ofChars_eq_ofDigits hds hsign] at h
      obtain ⟨hdigits, hval⟩ := ofDigits_eq_ok_iff.mp h
      exact ⟨sign, ds, rfl, hds, hdigits, hval⟩
  · rintro ⟨sign, ds, rfl, hds, hdigits, hval⟩
    rw [ofChars_eq_ofDigits hds fun _ => unsigned_of_digits hdigits]
    exact ofDigits_eq_ok_iff.mpr ⟨hdigits, hval⟩

theorem ofChars_eq_error_iff {cs : List Char} {why : OffsetError} :
    ofChars cs = .error why ↔ Misread cs why := by
  constructor
  · intro h
    obtain ⟨sign, ds, rfl, hsign⟩ := exists_sign cs
    by_cases hds : ds = []
    · subst hds
      cases sign with
      | none => cases h; exact .empty
      | plus => cases h; exact .loneSign .plus nofun
      | minus => cases h; exact .loneSign .minus nofun
    · rw [ofChars_eq_ofDigits hds hsign] at h
      exact .digits hds hsign (ofDigits_eq_error_iff.mp h)
  · intro h
    cases h with
    | empty => rfl
    | loneSign sign hsign => cases sign <;> first | rfl | exact absurd rfl hsign
    | digits hds hsign hfault =>
      rw [ofChars_eq_ofDigits hds hsign]
      exact ofDigits_eq_error_iff.mpr hfault

/-- Text is misread exactly when it is the numeral of no offset. -/
theorem exists_misread_iff {cs : List Char} :
    (∃ why, Misread cs why) ↔ ∀ x : Offset, ¬ Numeral cs x.val := by
  simp only [← ofChars_eq_ok_iff, ← ofChars_eq_error_iff]
  cases ofChars cs <;> simp

end Records.Offset

end IntervalIndex
