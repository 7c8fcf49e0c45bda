import IntervalIndex.Proofs.Records.Numerals
import IntervalIndex.Text.Blank

namespace IntervalIndex

namespace Text.Decimal

theorem isDigit_digit : ∀ d < 10, (digit d).isDigit = true := by decide

theorem toNat_digit : ∀ d < 10, (digit d).toNat - '0'.toNat = d := by decide

theorem not_blank_of_isDigit {c : Char} (h : c.isDigit = true) : isBlank c = false := by
  have hrange : 48 ≤ c.toNat ∧ c.toNat ≤ 57 := by
    simpa [Char.isDigit, UInt32.le_iff_toNat_le] using h
  simp only [isBlank, Bool.or_eq_false_iff, Bool.and_eq_false_iff, decide_eq_false_iff_not,
    beq_eq_false_iff_ne]
  omega

theorem isDigit_of_mem_ofNat {n : Nat} {c : Char} (h : c ∈ ofNat n) : c.isDigit = true := by
  induction n using ofNat.induct with
  | case1 n hn =>
    rw [ofNat, if_pos hn, List.mem_singleton] at h
    rw [h, isDigit_digit n hn]
  | case2 n hn ih =>
    rw [ofNat, if_neg hn, List.mem_append, List.mem_singleton] at h
    obtain h | rfl := h
    · exact ih h
    · exact isDigit_digit _ (Nat.mod_lt n (by decide))

theorem value_ofNat (n : Nat) : value (ofNat n) = n := by
  induction n using ofNat.induct with
  | case1 n hn =>
    rw [ofNat, if_pos hn, ← List.nil_append [digit n], value_concat, toNat_digit n hn]
    exact Nat.zero_add n
  | case2 n hn ih =>
    rw [ofNat, if_neg hn, value_concat, ih, toNat_digit _ (Nat.mod_lt n (by decide))]
    exact Nat.div_add_mod' n 10

theorem ofNat_ne_nil (n : Nat) : ofNat n ≠ [] := by
  rw [ofNat]
  split <;> simp

theorem ofInt_ne_nil (x : Int) : ofInt x ≠ [] := by
  cases x with
  | ofNat n => exact ofNat_ne_nil n
  | negSucc n => exact List.cons_ne_nil _ _

theorem not_blank_of_mem_ofInt {x : Int} {c : Char} (h : c ∈ ofInt x) : isBlank c = false := by
  have hdigit {n : Nat} (h : c ∈ ofNat n) : isBlank c = false :=
    not_blank_of_isDigit (isDigit_of_mem_ofNat h)
  cases x with
  | ofNat n => exact hdigit h
  | negSucc n =>
    obtain rfl | h := List.mem_cons.mp h
    · rfl
    · exact hdigit h

end Text.Decimal

namespace Pos

variable {T : PosType}

theorem toChars_ne_nil (x : Pos T) : x.toChars ≠ [] := Text.Decimal.ofInt_ne_nil x.val

theorem not_blank_of_mem_toChars {x : Pos T} {c : Char} (h : c ∈ x.toChars) :
    Text.isBlank c = false :=
  Text.Decimal.not_blank_of_mem_ofInt h

end Pos

namespace Records.Offset

open Text.Decimal

theorem numeral_toChars (x : Offset) : Numeral x.toChars x.val := by
  rw [Pos.toChars]
  cases x.val with
  | ofNat n =>
    refine ⟨.none, ofNat n, rfl, ofNat_ne_nil n, fun c hc => isDigit_of_mem_ofNat hc, ?_⟩
    rw [value_ofNat]
    rfl
  | negSucc n =>
    refine ⟨.minus, ofNat (n + 1), rfl, ofNat_ne_nil _, fun c hc => isDigit_of_mem_ofNat hc, ?_⟩
    rw [value_ofNat]
    rfl

/-- Every offset is read from what is written for it, the least one too. -/
theorem ofChars_toChars (x : Offset) : ofChars x.toChars = .ok x :=
  ofChars_eq_ok_iff.mpr (numeral_toChars x)

end Records.Offset

end IntervalIndex
