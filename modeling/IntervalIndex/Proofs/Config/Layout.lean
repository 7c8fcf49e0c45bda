import IntervalIndex.Proofs.Config.Settings

namespace IntervalIndex.Config

open Toml

/-- A path that neither leads to a setting nor goes through one, and is none of their tables. -/
def Unknown (path : List String) : Prop := ∀ s : Setting, ¬ path <+: s.path ∧ ¬ s.path <+: path

inductive Part where
  | header (t : Table)
  | setting (s : Setting)

namespace Part

def all : List Part :=
  [header .pool, setting .maxBuffers, setting .maxCapacity,
    header .query, setting .relation, setting .firstOnly]

def statement (c : Config) : Part → Statement
  | header t => .table [] t.name
  | setting s => .entry [] s.name (c.value s)

def header? : Part → Option Table
  | header t => some t
  | setting _ => none

def setting? : Part → Option Setting
  | header _ => none
  | setting s => some s

def remains (kept : List Setting) (headed : List Table) : Part → Bool
  | header t => t ∈ headed
  | setting s => s ∈ kept

def Placed : List String → List Part → Prop
  | _, [] => True
  | _, header t :: parts => Placed [t.name] parts
  | current, setting s :: parts => current = [s.table.name] ∧ Placed current parts

theorem Placed.filter {kept : List Setting} {headed : List Table} (hkept : ∀ s ∈ kept, s.table ∈ headed)
    {parts : List Part} {current current' : List String}
    (hcurrent : ∀ t ∈ headed, current = [t.name] → current' = current) (h : Placed current parts) :
    Placed current' (parts.filter (remains kept headed)) := by
  induction parts generalizing current current' with
  | nil => trivial
  | cons part parts ih =>
    cases part with
    | header t =>
      by_cases ht : remains kept headed (header t) = true
      · rw [List.filter_cons_of_pos ht]
        exact ih (fun _ _ _ => rfl) h
      · rw [List.filter_cons_of_neg ht]
        refine ih (fun u hu heq => ?_) h
        rw [← Table.name_inj.mp (List.singleton_inj.mp heq)] at hu
        exact absurd (decide_eq_true hu) ht
    | setting s =>
      obtain ⟨hfits, hplaced⟩ := h
      by_cases hs : remains kept headed (setting s) = true
      · rw [List.filter_cons_of_pos hs]
        exact ⟨(hcurrent _ (hkept s (of_decide_eq_true hs)) hfits).trans hfits, ih hcurrent hplaced⟩
      · rw [List.filter_cons_of_neg hs]
        exact ih hcurrent hplaced

end Part

/-- A line of a file: a part of a configuration, however it is written, or anything else. -/
inductive FileLine (c : Config) where
  | part (p : Part) (line : Toml.Line) (valid : line.statement = p.statement c)
  | other (line : Toml.Line)

variable {c : Config}

namespace FileLine

def line : FileLine c → Toml.Line
  | part _ line _ | other line => line

def part? : FileLine c → Option Part
  | part p .. => some p
  | other _ => none

def setting? (line : FileLine c) : Option Setting := line.part?.bind Part.setting?

def rest? : FileLine c → Option Toml.Line
  | part (.header _) line _ | other line => some line
  | part (.setting _) .. => none

def remains (kept : List Setting) (headed : List Table) : FileLine c → Bool
  | part p .. => p.remains kept headed
  | other _ => true

/-- Whether a line may stand below a header: a setting only below that of its table. -/
def Fits (current : List String) : FileLine c → Prop
  | part (.header _) .. => True
  | part (.setting s) .. => current = [s.table.name]
  | other line => ∀ path ∈ line.statement.path? current, Unknown path

theorem fits_other {line : Toml.Line} {current path : List String}
    (hpath : line.statement.path? current = some path) (h : Unknown path) :
    Fits current (other line : FileLine c) :=
  fun _ hmem => Option.some.inj (hpath.symm.trans hmem) ▸ h

end FileLine

def Placed : List String → List (FileLine c) → Prop
  | _, [] => True
  | current, line :: lines => line.Fits current ∧ Placed (line.line.statement.target current) lines

theorem Part.Placed.lines {lines : List (FileLine c)}
    (hblank : ∀ line, .other line ∈ lines → line.statement = .blank) {current : List String}
    (h : Part.Placed current (lines.filterMap FileLine.part?)) : Config.Placed current lines := by
  induction lines generalizing current with
  | nil => trivial
  | cons line lines ih =>
    have ih {current : List String} := @ih (fun line hline => hblank line (List.mem_cons_of_mem _ hline)) current
    cases line with
    | other line =>
      have hline := hblank line List.mem_cons_self
      refine ⟨?_, ih ?_⟩
      · rw [FileLine.Fits, hline]
        exact nofun
      · rw [FileLine.line, hline]
        exact h
    | part p line valid =>
      cases p with
      | header t => exact ⟨trivial, ih (by rw [FileLine.line, valid]; exact h)⟩
      | setting s => exact ⟨h.1, ih (by rw [FileLine.line, valid]; exact h.2)⟩

section Step

variable {taken : List Setting} {t : Table}

theorem Filled.puts {es₀ es es₀' es' : Entries} (h : Filled c taken t es₀ es) {key : String}
    (hkey : ∀ s : Setting, s.path ≠ [t.name, key]) {v : Value} (h₀ : es₀.Puts key v es₀')
    (h₁ : es.Puts key v es') : Filled c taken t es₀' es' where
  others k hk := by rw [h₀, h₁, h.others k hk]
  settings s hs := by
    have hne : s.name ≠ key := by
      rintro rfl
      exact hkey s (by rw [Setting.path, hs])
    rw [h₁.lookup_of_ne hne, h.settings s hs]

theorem Filled.set {es₀ es es' : Entries} {s : Setting} (h : Filled c taken s.table es₀ es)
    (hs : es.Puts s.name (c.value s) es') : Filled c (taken ++ [s]) s.table es₀ es' where
  others k hk := by
    have hne : k ≠ s.name := by
      rintro rfl
      exact hk s rfl
    rw [hs.lookup_of_ne hne, h.others k hk]
  settings s' hs' := by
    rw [hs, h.settings s' hs']
    by_cases heq : s' = s
    · subst heq
      simp
    · simp [heq, Setting.name_inj]

theorem Filled.edits {es₀ es : Entries} (h : Filled c taken t es₀ es) {key : String}
    (hkey : ∀ s : Setting, s.path ≠ [t.name, key]) {f : Entries → Option Entries}
    {put : Option Value → Option Value} (hput : Edits f key put) :
    Option.Rel (Filled c taken t) (f es₀) (f es) :=
  rel_mono (hput.rel_of_lookup_eq (h.others key hkey)) fun _ _ ⟨_, h₀, h₁⟩ => h.puts hkey h₀ h₁

/-- Below the name of a table the same becomes of both documents, unless the path is that of a
setting. -/
theorem Matched.within {old₀ old : Option Value} (h : Matched c taken t old₀ old) {key : String}
    (hkey : ∀ s : Setting, s.path ≠ [t.name, key]) {change : Change} {path : List String}
    (hchange : EditsAlong (key :: path) change) (isDotted : Bool) :
    Option.Rel (fun v₀ v => Matched c taken t (some v₀) (some v))
      (within isDotted change old₀) (within isDotted change old) := by
  cases h with
  | absent unset =>
    have hmade : (if isDotted then Origin.dotted else .implied) ≠ .inline := by
      cases isDotted <;> nofun
    obtain ⟨put, hput⟩ := hchange.edits (if isDotted then .dotted else .implied)
    exact rel_map ((Filled.nil unset).edits hkey hput) fun _ _ h => .present hmade h
  | @present origin es₀ es grows filled =>
    obtain ⟨put, hput⟩ := hchange.edits origin
    rw [within_table grows, within_table grows]
    split
    · exact .none
    · exact rel_map (filled.edits hkey hput) fun _ _ h => .present grows h

theorem Matched.append {old₀ old : Option Value} (h : Matched c taken t old₀ old) {s : Setting}
    (hs : s.table ≠ t) : Matched c (taken ++ [s]) t old₀ old := by
  have hmem : ∀ s' : Setting, s'.table = t → (s' ∈ taken ++ [s] ↔ s' ∈ taken) := by
    rintro s' rfl
    have hne : s' ≠ s := fun h => hs (h ▸ rfl)
    simp [hne]
  cases h with
  | absent unset => exact .absent fun s' hs' ht => unset s' ((hmem s' ht).mp hs') ht
  | present grows filled =>
    refine .present grows ⟨filled.others, fun s' ht => ?_⟩
    rw [filled.settings s' ht]
    simp only [hmem s' ht]

theorem Matched.exists_table {old₀ old : Option Value} (h : Matched c taken t old₀ old)
    (hold : old ≠ none) : ∃ origin es₀ es, old₀ = some (.table origin es₀) ∧
      old = some (.table origin es) ∧ origin ≠ .inline ∧ Filled c taken t es₀ es := by
  cases h with
  | absent => exact absurd rfl hold
  | present grows filled => exact ⟨_, _, _, rfl, rfl, grows, filled⟩

theorem Matched.opened {old₀ old : Option Value} (h : Matched c taken t old₀ old) :
    Option.Rel (fun v₀ v => Matched c taken t (some v₀) (some v)) (opened old₀) (opened old) := by
  cases h with
  | absent unset => exact .some (.present nofun (Filled.nil unset))
  | @present origin _ _ grows filled =>
    cases origin with
    | implied => exact .some (.present nofun filled)
    | header | dotted | inline => exact .none

/-- The whole document without settings and with those that are taken. -/
structure Grown (c : Config) (taken : List Setting) (root₀ root : Entries) : Prop where
  others : ∀ key, (∀ t : Table, t.name ≠ key) → root.lookup key = root₀.lookup key
  tables : ∀ t : Table, Matched c taken t (root₀.lookup t.name) (root.lookup t.name)

namespace Grown

variable {root₀ root root₀' root' : Entries}

theorem puts_other (h : Grown c taken root₀ root) {key : String} (hkey : ∀ t : Table, t.name ≠ key)
    {v : Value} (h₀ : root₀.Puts key v root₀') (h₁ : root.Puts key v root') :
    Grown c taken root₀' root' where
  others k hk := by rw [h₀, h₁, h.others k hk]
  tables t := by
    rw [h₀.lookup_of_ne (hkey t), h₁.lookup_of_ne (hkey t)]
    exact h.tables t

theorem puts_table (h : Grown c taken root₀ root) {v₀ v : Value}
    (hv : Matched c taken t (some v₀) (some v)) (h₀ : root₀.Puts t.name v₀ root₀')
    (h₁ : root.Puts t.name v root') : Grown c taken root₀' root' where
  others k hk := by
    rw [h₀.lookup_of_ne (hk t).symm, h₁.lookup_of_ne (hk t).symm, h.others k hk]
  tables u := by
    by_cases hu : u = t
    · rw [hu, h₀.lookup_self, h₁.lookup_self]
      exact hv
    · have hne : u.name ≠ t.name := fun h => hu (Table.name_inj.mp h)
      rw [h₀.lookup_of_ne hne, h₁.lookup_of_ne hne]
      exact h.tables u

theorem change (h : Grown c taken root₀ root) {path : List String} (hpath : Unknown path)
    {change : Change} (hchange : EditsAlong path change) (origin : Origin) :
    Option.Rel (fun root₀' root' => Grown c taken root₀' root' ∧ ∃ key v, root.Puts key v root')
      (change origin root₀) (change origin root) := by
  obtain ⟨key, rest, rfl⟩ : ∃ key rest, path = key :: rest := by
    cases hchange with
    | last => exact ⟨_, _, rfl⟩
    | enter => exact ⟨_, _, rfl⟩
  by_cases hkey : ∃ t : Table, t.name = key
  · obtain ⟨t, rfl⟩ := hkey
    obtain ⟨s, hs⟩ := Setting.exists_table t
    cases rest with
    | nil => exact absurd ⟨[s.name], by rw [Setting.path, hs]; rfl⟩ (hpath s).1
    | cons key rest =>
      have hkey : ∀ s : Setting, s.path ≠ [t.name, key] := fun s heq =>
        (hpath s).2 ⟨rest, by rw [heq]; rfl⟩
      obtain ⟨isDotted, inner, hinner, hput⟩ := hchange.exists_inner
      exact rel_mono ((hput origin).rel ((h.tables t).within hkey hinner isDotted))
        fun _ _ ⟨_, _, hv, h₀, h₁⟩ => ⟨h.puts_table hv h₀ h₁, _, _, h₁⟩
  · have hother : ∀ t : Table, t.name ≠ key := fun t ht => hkey ⟨t, ht⟩
    obtain ⟨put, hput⟩ := hchange.edits origin
    exact rel_mono (hput.rel_of_lookup_eq (h.others key hother))
      fun _ _ ⟨_, h₀, h₁⟩ => ⟨h.puts_other hother h₀ h₁, _, _, h₁⟩

theorem openTable (h : Grown c taken root₀ root) (t : Table) :
    Option.Rel (fun root₀' root' => Grown c taken root₀' root' ∧ ∃ v, root.Puts t.name v root')
      (root₀.openTable [] t.name) (root.openTable [] t.name) :=
  rel_mono ((edits_open t.name).rel (h.tables t).opened)
    fun _ _ ⟨_, _, hv, h₀, h₁⟩ => ⟨h.puts_table hv h₀ h₁, _, h₁⟩

theorem setting (h : Grown c taken root₀ root) {s : Setting} (hs : s ∉ taken)
    (hopened : root.lookup s.table.name ≠ none) : ∃ root' v,
      root.atPath false (fun _ es => es.insert [] s.name (c.value s)) [s.table.name] .header =
        some root' ∧ Grown c (taken ++ [s]) root₀ root' ∧ root.Puts s.table.name v root' := by
  obtain ⟨origin, es₀, es, hes₀, hes, grows, hfilled⟩ := (h.tables s.table).exists_table hopened
  have hnone : es.lookup s.name = none := by rw [hfilled.settings s rfl, if_neg hs]
  have hput : within false (fun _ es => es.insert [] s.name (c.value s)) (root.lookup s.table.name) =
      some (.table origin (es ++ [(s.name, c.value s)])) := by
    rw [hes, within_table grows, insert_nil hnone]
    rfl
  obtain ⟨root', happly, hputs⟩ := (edits_atPath false
    (fun _ es => es.insert [] s.name (c.value s)) s.table.name [] .header).exists_of_put hput
  refine ⟨root', _, happly, ⟨fun key hkey => ?_, fun t => ?_⟩, hputs⟩
  · rw [hputs.lookup_of_ne (hkey _).symm, h.others key hkey]
  · by_cases ht : t = s.table
    · rw [ht, hputs.lookup_self, hes₀]
      exact .present grows (hfilled.set (Entries.puts_concat hnone _))
    · rw [hputs.lookup_of_ne fun heq => ht (Table.name_inj.mp heq)]
      exact (h.tables t).append (Ne.symm ht)

theorem carries (h : Grown c taken root₀ root) : Carries c taken root := fun t => (h.tables t).carried

end Grown

/-- Two drafts below the same header. If that is the header of a table of settings, the table is
there. -/
structure GrownDraft (c : Config) (taken : List Setting) (current : List String) (d₀ d : Draft) :
    Prop where
  below₀ : d₀.current = current
  below : d.current = current
  root : Grown c taken d₀.root d.root
  opened : ∀ t : Table, current = [t.name] → d.root.lookup t.name ≠ none

namespace GrownDraft

variable {current : List String} {d₀ d : Draft}

theorem other (h : GrownDraft c taken current d₀ d) {statement : Statement}
    (hpath : ∀ path ∈ statement.path? current, Unknown path) :
    Option.Rel (GrownDraft c taken (statement.target current))
      (statement.apply d₀) (statement.apply d) := by
  obtain ⟨root₀, _⟩ := d₀
  obtain ⟨root, current⟩ := d
  obtain ⟨rfl, rfl, hroot, hopened⟩ := h
  cases hstatement : statement.path? current with
  | none =>
    obtain rfl := Statement.eq_blank_of_path? hstatement
    exact .some ⟨rfl, rfl, hroot, hopened⟩
  | some path =>
    obtain ⟨change, hchange, happly⟩ := Statement.apply_eq_of_path? hstatement
    rw [happly, happly]
    refine rel_map (hroot.change (hpath path hstatement) hchange .header) fun root₀' root' hgrown => ?_
    obtain ⟨hroot', key, v, hputs⟩ := hgrown
    refine ⟨rfl, rfl, hroot', fun t ht => ?_⟩
    rcases statement.target_eq current with htarget | htarget
    · exact hputs.lookup_ne_none (hopened t (htarget.symm.trans ht))
    · obtain ⟨s, hs⟩ := Setting.exists_table t
      exact absurd ⟨[s.name], by rw [ht, Setting.path, hs]; rfl⟩ (hpath _ htarget s).1

theorem header (h : GrownDraft c taken current d₀ d) (t : Table) :
    Option.Rel (GrownDraft c taken [t.name]) (d₀.openTable [] t.name) (d.openTable [] t.name) :=
  rel_map (h.root.openTable t) fun _ _ ⟨hroot, _, hputs⟩ => {
    below₀ := rfl
    below := rfl
    root := hroot
    opened := fun u hu => by
      obtain rfl := Table.name_inj.mp (List.singleton_inj.mp hu)
      rw [hputs.lookup_self]
      exact nofun }

theorem setting {s : Setting} (h : GrownDraft c taken [s.table.name] d₀ d) (hs : s ∉ taken) :
    ∃ d', d.addEntry [] s.name (c.value s) = some d' ∧
      GrownDraft c (taken ++ [s]) [s.table.name] d₀ d' := by
  obtain ⟨root, _⟩ := d
  obtain ⟨hbelow₀, rfl, hroot, hopened⟩ := h
  obtain ⟨root', v, happly, hroot', hputs⟩ := hroot.setting hs (hopened s.table rfl)
  refine ⟨⟨root', [s.table.name]⟩, ?_, hbelow₀, rfl, hroot', fun t ht => ?_⟩
  · rw [Draft.addEntry, happly, Option.map_some]
  · exact hputs.lookup_ne_none (hopened t ht)

theorem run (h : GrownDraft c taken current d₀ d) {lines : List (FileLine c)}
    (hplaced : Placed current lines) (honce : (taken ++ lines.filterMap FileLine.setting?).Nodup) :
    Option.Rel (fun d₀ d => Grown c (taken ++ lines.filterMap FileLine.setting?) d₀.root d.root)
      (applyAll (lines.filterMap FileLine.rest?) d₀) (applyAll (lines.map FileLine.line) d) := by
  -- a header changes where the next line stands, a setting adds to what is taken
  induction lines generalizing taken current d₀ d with
  | nil =>
    rw [List.filterMap_nil, List.append_nil]
    exact .some h.root
  | cons line lines ih =>
    obtain ⟨hfits, hplaced⟩ := hplaced
    cases line with
    | part p line valid =>
      cases p with
      | header t =>
        simp only [List.filterMap_cons, FileLine.setting?, FileLine.part?, Part.setting?,
          FileLine.rest?, Option.bind_some, List.map_cons, applyAll_cons, FileLine.line,
          valid] at honce hplaced ⊢
        exact rel_bind (h.header t) fun _ _ h => ih h hplaced honce
      | setting s =>
        obtain rfl : current = [s.table.name] := hfits
        simp only [List.filterMap_cons, FileLine.setting?, FileLine.part?, Part.setting?,
          FileLine.rest?, Option.bind_some, List.map_cons, applyAll_cons, FileLine.line,
          valid] at honce hplaced ⊢
        have hs : s ∉ taken := fun hmem =>
          (List.nodup_append.mp honce).2.2 s hmem s List.mem_cons_self rfl
        rw [List.append_cons] at honce ⊢
        obtain ⟨d', happly, h'⟩ := h.setting hs
        have hline : (Part.statement c (.setting s)).apply d = some d' := happly
        rw [hline]
        exact ih h' hplaced honce
    | other line =>
      simp only [List.filterMap_cons, FileLine.setting?, FileLine.part?, Option.bind_none,
        FileLine.rest?, List.map_cons, applyAll_cons, FileLine.line] at honce hplaced ⊢
      exact rel_bind (h.other hfits) fun _ _ h => ih h hplaced honce

end GrownDraft

end Step

end IntervalIndex.Config
