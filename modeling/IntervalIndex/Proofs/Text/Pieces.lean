import IntervalIndex.Text.Blank
import IntervalIndex.Text.Split
import Mathlib.Data.List.DropRight

namespace IntervalIndex.Text

section Ends

variable {drop : Char → Bool}

theorem dropTrailing_append (drop : Char → Bool) (cs : List Char) :
    ∃ ends, cs = dropTrailing drop cs ++ ends ∧ ∀ c ∈ ends, drop c = true :=
  ⟨cs.rtakeWhile drop, List.rdropWhile_append_rtakeWhile.symm,
    fun _ => List.mem_rtakeWhile_imp⟩

theorem dropTrailing_append_of_all {ends : List Char} (h : ∀ c ∈ ends, drop c = true)
    (cs : List Char) : dropTrailing drop (cs ++ ends) = dropTrailing drop cs := by
  rw [dropTrailing, List.reverse_append, List.dropWhile_append_of_pos, dropTrailing]
  simpa using h

theorem dropTrailing_append_cons {c : Char} (hc : drop c = false) (front cs : List Char) :
    dropTrailing drop (front ++ c :: cs) = front ++ c :: dropTrailing drop cs := by
  simp only [dropTrailing, List.reverse_append, List.reverse_cons, List.append_assoc,
    List.singleton_append, List.dropWhile_append]
  split
  · next hempty => simp [List.isEmpty_iff.mp hempty, hc]
  · simp

theorem dropTrailing_eq_self {cs : List Char} (h : ∀ c ∈ cs.getLast?, drop c = false) :
    dropTrailing drop cs = cs := by
  apply List.rdropWhile_eq_self_iff.mpr
  intro hne
  simp [h _ (List.getLast_mem_getLast? hne)]

theorem getLast?_dropTrailing {cs : List Char} {c : Char}
    (hc : c ∈ (dropTrailing drop cs).getLast?) : drop c = false := by
  have hlast := List.rdropWhile_last_not drop cs (List.ne_nil_of_mem (List.mem_of_getLast? hc))
  have hsame := List.getLast_of_mem_getLast? hc
  simpa [← hsame, dropTrailing, List.rdropWhile] using hlast

structure Bare (text cs : List Char) : Prop where
  around : ∃ front back, text = front ++ cs ++ back ∧ ∀ c ∈ front ++ back, isBlank c = true
  first : ∀ c ∈ cs.head?, isBlank c = false
  last : ∀ c ∈ cs.getLast?, isBlank c = false

theorem bare_trim (text : List Char) : Bare text (trim text) := by
  obtain ⟨back, hkept, hback⟩ := dropTrailing_append isBlank (text.dropWhile isBlank)
  refine ⟨⟨text.takeWhile isBlank, back, ?_, ?_⟩, ?_, fun c hc => getLast?_dropTrailing hc⟩
  · rw [List.append_assoc, trim, ← hkept, List.takeWhile_append_dropWhile]
  · intro c hc
    obtain hc | hc := List.mem_append.mp hc
    · exact List.mem_takeWhile_imp hc
    · exact hback c hc
  · intro c hc
    have hhead : (text.dropWhile isBlank).head? = some c := by
      rw [hkept, List.head?_append, show (dropTrailing _ _).head? = some c from hc, Option.some_or]
    have hnot := List.head?_dropWhile_not isBlank text
    rw [hhead] at hnot
    exact hnot

theorem Bare.trim_eq {text cs : List Char} (h : Bare text cs) : trim text = cs := by
  obtain ⟨⟨front, back, rfl, hblank⟩, hfirst, hlast⟩ := h
  obtain ⟨hfront, hback⟩ := List.forall_mem_append.mp hblank
  rw [trim, List.append_assoc, List.dropWhile_append_of_pos hfront]
  cases cs with
  | nil =>
    rw [List.nil_append, List.dropWhile_eq_nil_iff.mpr hback]
    rfl
  | cons c cs =>
    rw [List.cons_append, List.dropWhile_cons_of_neg (by simp [hfirst c rfl]), ← List.cons_append,
      dropTrailing_append_of_all hback, dropTrailing_eq_self hlast]

theorem exists_bare_iff {text : List Char} {p : List Char → Prop} :
    (∃ cs, Bare text cs ∧ p cs) ↔ p (trim text) := by
  constructor
  · rintro ⟨cs, hbare, hp⟩
    rwa [hbare.trim_eq]
  · exact fun hp => ⟨_, bare_trim text, hp⟩

theorem trim_eq_self {cs : List Char} (h : ∀ c ∈ cs, isBlank c = false) : trim cs = cs := by
  apply Bare.trim_eq
  refine ⟨⟨[], [], by simp, nofun⟩, fun c hc => ?_, fun c hc => ?_⟩
  · exact h c (List.mem_of_head? hc)
  · exact h c (List.mem_of_getLast? hc)

end Ends

section Pieces

variable {separator : Char}

theorem splitOn_cons_self (separator : Char) (cs : List Char) :
    splitOn separator (separator :: cs) =
      ([], (splitOn separator cs).1 :: (splitOn separator cs).2) := by
  simp [splitOn]

theorem splitOn_cons_of_ne {c : Char} (hc : c ≠ separator) (cs : List Char) :
    splitOn separator (c :: cs) = (c :: (splitOn separator cs).1, (splitOn separator cs).2) := by
  simp [splitOn, hc]

theorem splitOn_of_not_mem {cs : List Char} (h : separator ∉ cs) :
    splitOn separator cs = (cs, []) := by
  induction cs with
  | nil => rfl
  | cons c cs ih =>
    obtain ⟨hc, hcs⟩ := not_or.mp (mt List.mem_cons.mpr h)
    rw [splitOn_cons_of_ne (Ne.symm hc), ih hcs]

theorem splitOn_append {cs : List Char} (h : separator ∉ cs) (rest : List Char) :
    splitOn separator (cs ++ separator :: rest) =
      (cs, (splitOn separator rest).1 :: (splitOn separator rest).2) := by
  induction cs with
  | nil => rw [List.nil_append, splitOn_cons_self]
  | cons c cs ih =>
    obtain ⟨hc, hcs⟩ := not_or.mp (mt List.mem_cons.mpr h)
    rw [List.cons_append, splitOn_cons_of_ne (Ne.symm hc), ih hcs]

theorem splitOn_flatMap {first : List Char} {others : List (List Char)}
    (hfirst : separator ∉ first) (hothers : ∀ column ∈ others, separator ∉ column) :
    splitOn separator (first ++ others.flatMap (separator :: ·)) = (first, others) := by
  induction others generalizing first with
  | nil => rw [List.flatMap_nil, List.append_nil, splitOn_of_not_mem hfirst]
  | cons column others ih =>
    obtain ⟨hcolumn, hothers⟩ := List.forall_mem_cons.mp hothers
    rw [List.flatMap_cons, List.cons_append, splitOn_append hfirst, ih hcolumn hothers]

theorem splitOn_join (separator : Char) (cs : List Char) :
    cs = (splitOn separator cs).1 ++ (splitOn separator cs).2.flatMap (separator :: ·) := by
  induction cs with
  | nil => rfl
  | cons c cs ih =>
    by_cases hc : c = separator
    · subst hc
      rw [splitOn_cons_self, List.nil_append, List.flatMap_cons, List.cons_append, ← ih]
    · rw [splitOn_cons_of_ne hc, List.cons_append, ← ih]

theorem not_mem_splitOn (separator : Char) (cs : List Char) :
    separator ∉ (splitOn separator cs).1 ∧
      ∀ column ∈ (splitOn separator cs).2, separator ∉ column := by
  induction cs with
  | nil => simp [splitOn]
  | cons c cs ih =>
    by_cases hc : c = separator
    · subst hc
      rw [splitOn_cons_self]
      exact ⟨List.not_mem_nil, List.forall_mem_cons.mpr ih⟩
    · rw [splitOn_cons_of_ne hc]
      exact ⟨by simp [ih.1, Ne.symm hc], ih.2⟩

theorem length_splitOn (separator : Char) (cs : List Char) :
    (splitOn separator cs).2.length = cs.count separator := by
  induction cs with
  | nil => rfl
  | cons c cs ih =>
    by_cases hc : c = separator
    · subst hc
      rw [splitOn_cons_self, List.length_cons, List.count_cons_self, ih]
    · rw [splitOn_cons_of_ne hc, List.count_cons_of_ne hc, ih]

end Pieces

end IntervalIndex.Text
