namespace IntervalIndex

/-- A finite map from names. No name has two entries. -/
structure NameMap (β : Type) where
  entries : List (String × β)
  nodup : (entries.map (·.1)).Nodup

namespace NameMap

variable {β : Type}

def empty : NameMap β := ⟨[], List.nodup_nil⟩

def get? (m : NameMap β) (name : String) : Option β := m.entries.lookup name

def names (m : NameMap β) : List String := m.entries.map (·.1)

def alterEntries (name : String) (change : Option β → β) : List (String × β) → List (String × β)
  | [] => [(name, change none)]
  | (other, v) :: rest =>
    if other = name then (other, change (some v)) :: rest
    else (other, v) :: alterEntries name change rest

theorem map_fst_alterEntries (name : String) (change : Option β → β) (entries : List (String × β)) :
    (alterEntries name change entries).map (·.1) =
      entries.map (·.1) ++ if name ∈ entries.map (·.1) then [] else [name] := by
  induction entries with
  | nil => rfl
  | cons entry rest ih =>
    obtain ⟨other, v⟩ := entry
    rw [alterEntries]
    by_cases h : other = name
    · simp [h]
    · have hne : name ≠ other := Ne.symm h
      rw [if_neg h, List.map_cons, ih, List.map_cons, List.cons_append]
      simp only [List.mem_cons, hne, false_or]

/-- Puts under a name what a change makes of the value there, or of none. -/
def alter (m : NameMap β) (name : String) (change : Option β → β) : NameMap β where
  entries := alterEntries name change m.entries
  nodup := by
    rw [map_fst_alterEntries]
    split
    · rw [List.append_nil]
      exact m.nodup
    · next h =>
      rw [List.nodup_append]
      refine ⟨m.nodup, by simp, fun a ha b hb => ?_⟩
      rw [List.mem_singleton.mp hb]
      exact fun hab => h (hab ▸ ha)

def insert (m : NameMap β) (name : String) (v : β) : NameMap β := m.alter name fun _ => v

end NameMap

end IntervalIndex
