import IntervalIndex.Proofs.Lookup
import IntervalIndex.Session

namespace IntervalIndex

namespace Session

variable {ν α σ : Type} (s : Session ν α)

theorem walk?_openWalk (name : String) (tree : LinkTree ν α) :
    (s.openWalk name tree).walk? name = some ⟨tree, .start tree s.pool.acquire.1⟩ := by
  simp [openWalk, walk?]

theorem walk?_close_of_ne {name other : String} (h : name ≠ other) :
    (s.close other).walk? name = s.walk? name := by
  rw [close]
  split
  · exact lookup_filter_of_ne h s.walks
  · rfl

theorem walk?_openWalk_of_ne {name other : String} (h : name ≠ other) (tree : LinkTree ν α) :
    (s.openWalk other tree).walk? name = s.walk? name := by
  have hne : (name == other) = false := beq_eq_false_iff_ne.mpr h
  have hclose := walk?_close_of_ne ⟨s.pool.acquire.2, s.walks⟩ h
  simp only [walk?] at hclose
  simp only [openWalk, walk?, List.lookup_cons, hne]
  exact hclose

theorem advance_pool (name : String) (visits : Nat) : (s.advance name visits).2.pool = s.pool := by
  rw [advance]
  split <;> rfl

theorem advance_fst {s : Session ν α} {name : String} {w : OpenWalk ν α}
    (hw : s.walk? name = some w) (visits : Nat) :
    (s.advance name visits).1 = (visit w.tree visits w.walk).1 := by
  simp only [advance, hw]

theorem walk?_advance (name other : String) (visits : Nat) :
    (s.advance other visits).2.walk? name = (s.walk? name).map fun w =>
      if name = other then { w with walk := (visit w.tree visits w.walk).2 } else w := by
  cases ho : s.walk? other with
  | none =>
    simp only [advance, ho]
    by_cases h : name = other
    · rw [h, ho, Option.map_none]
    · simp [h]
  | some w =>
    have hmap := lookup_map_snd (fun n (v : OpenWalk ν α) =>
      if n = other then { v with walk := (visit w.tree visits w.walk).2 } else v) name s.walks
    have hentries : (s.advance other visits).2.walks = s.walks.map fun entry => (entry.1,
        if entry.1 = other then { entry.2 with walk := (visit w.tree visits w.walk).2 }
        else entry.2) := by
      simp only [advance, ho]
      apply List.map_congr_left
      rintro ⟨n, v⟩ _
      by_cases hn : n = other <;> simp [hn]
    rw [walk?, hentries, hmap, ← walk?]
    by_cases h : name = other
    · subst h
      simp [ho]
    · simp [h]

theorem run_append (xs ys : List (Request ν σ α)) : s.run (xs ++ ys) =
    ((s.run xs).1 ++ ((s.run xs).2.run ys).1, ((s.run xs).2.run ys).2) := by
  induction xs generalizing s with
  | nil => rfl
  | cons x xs ih => simp only [List.cons_append, run, ih]

end Session

end IntervalIndex
