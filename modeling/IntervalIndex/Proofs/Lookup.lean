import Mathlib.Data.List.Nodup

namespace IntervalIndex

variable {β γ : Type} {entries : List (String × β)} {name other : String}

theorem lookup_filter_of_ne (h : name ≠ other) (entries : List (String × β)) :
    (entries.filter (·.1 != other)).lookup name = entries.lookup name := by
  induction entries with
  | nil => rfl
  | cons entry rest ih =>
    obtain ⟨n, v⟩ := entry
    by_cases hn : n = other
    · subst hn
      have hne : (name == n) = false := beq_eq_false_iff_ne.mpr h
      simp [List.lookup_cons, hne, ih]
    · simp [hn, List.lookup_cons, ih]

theorem lookup_map_snd (f : String → β → γ) (name : String) (entries : List (String × β)) :
    (entries.map fun entry => (entry.1, f entry.1 entry.2)).lookup name =
      (entries.lookup name).map (f name) := by
  induction entries with
  | nil => rfl
  | cons entry rest ih =>
    obtain ⟨n, v⟩ := entry
    by_cases hn : name = n
    · subst hn
      simp
    · have hne : (name == n) = false := beq_eq_false_iff_ne.mpr hn
      simp [List.lookup_cons, hne, ih]

theorem lookup_eq_none_iff_not_mem :
    entries.lookup name = none ↔ name ∉ entries.map (·.1) := by
  rw [List.lookup_eq_none_iff, List.mem_map]
  constructor
  · rintro hnone ⟨entry, he, rfl⟩
    exact bne_iff_ne.mp (hnone entry he) rfl
  · intro hname entry he
    exact bne_iff_ne.mpr fun hentry => hname ⟨entry, he, hentry.symm⟩

theorem lookup_eq_none_of_nodup {names : List String}
    (h : (entries.map (·.1) ++ name :: names).Nodup) : entries.lookup name = none :=
  lookup_eq_none_iff_not_mem.mpr fun hmem =>
    (List.nodup_append.mp h).2.2 name hmem name List.mem_cons_self rfl

theorem lookup_eq_some_iff_mem (hnodup : (entries.map (·.1)).Nodup) {v : β} :
    entries.lookup name = some v ↔ (name, v) ∈ entries := by
  induction entries with
  | nil => simp
  | cons entry rest ih =>
    obtain ⟨other, w⟩ := entry
    obtain ⟨hother, hrest⟩ := List.nodup_cons.mp hnodup
    rw [List.lookup_cons, List.mem_cons]
    by_cases h : name = other
    · subst h
      have hnone : (name, v) ∉ rest := fun hmem => hother (List.mem_map.mpr ⟨_, hmem, rfl⟩)
      simp [hnone, eq_comm]
    · simp [beq_eq_false_iff_ne.mpr h, h, ih hrest]

end IntervalIndex
