import IntervalIndex.Config
import IntervalIndex.Proofs.Toml.Edits
import IntervalIndex.Proofs.Toml.Faithful

namespace IntervalIndex.Config

open Toml

inductive Table where
  | pool
  | query
deriving DecidableEq

namespace Table

def all : List Table := [pool, query]

theorem mem_all (t : Table) : t ∈ all := by cases t <;> decide

def name : Table → String
  | pool => "pool"
  | query => "query"

theorem name_inj {t u : Table} : t.name = u.name ↔ t = u := by
  cases t <;> cases u <;> decide

theorem bare (t : Table) : Bare t.name := by cases t <;> decide

end Table

inductive Setting where
  | maxBuffers
  | maxCapacity
  | relation
  | firstOnly
deriving DecidableEq

namespace Setting

def all : List Setting := [maxBuffers, maxCapacity, relation, firstOnly]

theorem mem_all (s : Setting) : s ∈ all := by cases s <;> decide

def table : Setting → Table
  | maxBuffers | maxCapacity => .pool
  | relation | firstOnly => .query

def name : Setting → String
  | maxBuffers => "max_buffers"
  | maxCapacity => "max_capacity"
  | relation => "predicate"
  | firstOnly => "first_only"

def path (s : Setting) : List String := [s.table.name, s.name]

theorem name_inj {s s' : Setting} : s.name = s'.name ↔ s = s' := by
  cases s <;> cases s' <;> decide

theorem bare (s : Setting) : Bare s.name := by cases s <;> decide

theorem exists_table (t : Table) : ∃ s : Setting, s.table = t := by
  cases t with
  | pool => exact ⟨maxBuffers, rfl⟩
  | query => exact ⟨relation, rfl⟩

end Setting

def value (c : Config) : Setting → Value
  | .maxBuffers => .integer c.limits.maxBuffers
  | .maxCapacity => .integer c.limits.maxCapacity
  | .relation => .string c.query.relation.name
  | .firstOnly => .boolean c.query.firstOnly

structure Writable (c : Config) : Prop where
  maxBuffers_le : (c.limits.maxBuffers : Int) ≤ PosType.i64.max
  maxCapacity_le : (c.limits.maxCapacity : Int) ≤ PosType.i64.max

theorem Writable.scalar {c : Config} (hc : c.Writable) (s : Setting) :
    ∃ text, Scalar text (c.value s) := by
  have hnatural {n : Nat} (hn : (n : Int) ≤ PosType.i64.max) : ∃ text, Scalar text (.integer n) :=
    ⟨_, .integer (PosType.i64.min_le_zero.trans n.cast_nonneg) hn⟩
  cases s with
  | maxBuffers => exact hnatural hc.maxBuffers_le
  | maxCapacity => exact hnatural hc.maxCapacity_le
  | relation =>
    have hplain : ∀ r : Relation, r.name.toList.all isPlain = true := by
      intro r
      cases r <;> decide
    refine ⟨'"' :: (c.query.relation.name.toList ++ ['"']), ?_⟩
    have htext := Scalar.text (List.all_eq_true.mp (hplain c.query.relation))
    rwa [String.ofList_toList] at htext
  | firstOnly =>
    rw [value]
    cases c.query.firstOnly with
    | false => exact ⟨_, .false⟩
    | true => exact ⟨_, .true⟩

/-- The configuration with the settings that are not kept at their defaults. -/
def keeping (c : Config) (kept : List Setting) : Config where
  limits := {
    maxBuffers := if .maxBuffers ∈ kept then c.limits.maxBuffers else ({} : Scratch.Limits).maxBuffers
    maxCapacity :=
      if .maxCapacity ∈ kept then c.limits.maxCapacity else ({} : Scratch.Limits).maxCapacity }
  query := {
    relation := if .relation ∈ kept then c.query.relation else ({} : QueryDefaults).relation
    firstOnly := if .firstOnly ∈ kept then c.query.firstOnly else ({} : QueryDefaults).firstOnly }

/-- A table without settings and the same one with those of its settings that are taken. -/
structure Filled (c : Config) (taken : List Setting) (t : Table) (es₀ es : Entries) : Prop where
  others : ∀ key, (∀ s : Setting, s.path ≠ [t.name, key]) → es.lookup key = es₀.lookup key
  settings : ∀ s : Setting, s.table = t →
    es.lookup s.name = if s ∈ taken then some (c.value s) else none

inductive Matched (c : Config) (taken : List Setting) (t : Table) : Option Value → Option Value → Prop
  | absent (unset : ∀ s ∈ taken, s.table ≠ t) : Matched c taken t none none
  | present {origin : Origin} {es₀ es : Entries} (grows : origin ≠ .inline)
      (filled : Filled c taken t es₀ es) :
      Matched c taken t (some (.table origin es₀)) (some (.table origin es))

variable {c : Config} {taken : List Setting} {t : Table} {old₀ old : Option Value}

theorem Filled.nil (unset : ∀ s ∈ taken, s.table ≠ t) : Filled c taken t [] [] where
  others _ _ := rfl
  settings s hs := by
    rw [if_neg fun h => unset s h hs]
    rfl

inductive Carried (c : Config) (kept : List Setting) (t : Table) : Option Value → Prop
  | absent (unset : ∀ s ∈ kept, s.table ≠ t) : Carried c kept t none
  | present {made : Origin} {es : Entries} (settings : ∀ s : Setting, s.table = t →
      es.lookup s.name = if s ∈ kept then some (c.value s) else none) :
      Carried c kept t (some (.table made es))

/-- A document with just the settings that are kept, and whatever else. -/
def Carries (c : Config) (kept : List Setting) (root : Entries) : Prop :=
  ∀ t : Table, Carried c kept t (root.lookup t.name)

theorem Matched.carried (h : Matched c taken t old₀ old) : Carried c taken t old := by
  cases h with
  | absent unset => exact .absent unset
  | present _ filled => exact .present filled.settings

theorem eq_value_of_alike {s : Setting} {v : Value} (h : Alike v (c.value s)) : v = c.value s := by
  cases s <;> cases h <;> rfl

theorem Carried.of_alike (h : Carried c taken t old) {old' : Option Value}
    (halike : Option.Rel Alike old' old) : Carried c taken t old' := by
  cases h with
  | absent unset =>
    cases halike
    exact .absent unset
  | present settings =>
    cases halike with
    | some halike =>
      cases halike with
      | refl => exact .present settings
      | @table made _ es es' hentries =>
        refine .present fun s hs => ?_
        have hentry := hentries s.name
        rw [settings s hs] at hentry
        split at hentry
        · next hkept =>
          rw [if_pos hkept]
          generalize es.lookup s.name = w at hentry
          cases hentry with
          | some hw => rw [eq_value_of_alike hw]
        · next hkept =>
          rw [if_neg hkept]
          generalize es.lookup s.name = w at hentry
          cases hentry
          rfl

theorem Carries.of_agree {root root' : Entries} (h : Carries c taken root) (hagree : Agree root' root) :
    Carries c taken root' := fun t => (h t).of_alike (hagree t.name)

theorem read?_ite {α : Type} {f : Toml.Field α} {v : Value} {a b : α} (hread : f.codec.read? v = some a)
    (hdefault : f.default? = some b) (p : Prop) [Decidable p] :
    f.read? (if p then some v else none) = some (if p then a else b) := by
  split
  · exact hread
  · exact hdefault

section Reading

variable {lib : Library} (hlib : lib.Faithful) {kept : List Setting}

include hlib

theorem read?_limits (hc : c.Writable) (made : Origin) {es : Entries}
    (h : ∀ s : Setting, s.table = .pool →
      es.lookup s.name = if s ∈ kept then some (c.value s) else none) :
    (lib.record (limitsDeclaration lib)).read? (.table made es) = some (c.keeping kept).limits := by
  have hnames : (limitsDeclaration lib).first.name ≠ (limitsDeclaration lib).second.name := by
    change "max_buffers" ≠ "max_capacity"
    decide
  have hbuffers : (limitsDeclaration lib).first.read? (es.lookup Setting.maxBuffers.name) =
      some (c.keeping kept).limits.maxBuffers := by
    rw [h .maxBuffers rfl]
    exact read?_ite (hlib.natural_read hc.maxBuffers_le) rfl _
  have hcapacity : (limitsDeclaration lib).second.read? (es.lookup Setting.maxCapacity.name) =
      some (c.keeping kept).limits.maxCapacity := by
    rw [h .maxCapacity rfl]
    exact read?_ite (hlib.natural_read hc.maxCapacity_le) rfl _
  rw [hlib.record_read _ hnames made es]
  exact Option.bind_eq_some_iff.mpr ⟨_, hbuffers, congrArg (Option.map _) hcapacity⟩

theorem read?_query (made : Origin) {es : Entries} (h : ∀ s : Setting, s.table = .query →
      es.lookup s.name = if s ∈ kept then some (c.value s) else none) :
    (lib.record (queryDeclaration lib)).read? (.table made es) = some (c.keeping kept).query := by
  have hnames : (queryDeclaration lib).first.name ≠ (queryDeclaration lib).second.name := by
    change "predicate" ≠ "first_only"
    decide
  have hall : c.query.relation ∈ Relation.all := by cases c.query.relation <;> decide
  have hinj : ∀ r ∈ Relation.all, r.name = c.query.relation.name → r = c.query.relation := by
    cases c.query.relation <;> decide
  have hrelation : (queryDeclaration lib).first.read? (es.lookup Setting.relation.name) =
      some (c.keeping kept).query.relation := by
    rw [h .relation rfl]
    exact read?_ite (hlib.choice_read hall hinj) rfl _
  have hfirst : (queryDeclaration lib).second.read? (es.lookup Setting.firstOnly.name) =
      some (c.keeping kept).query.firstOnly := by
    rw [h .firstOnly rfl]
    exact read?_ite (hlib.boolean_read _) rfl _
  rw [hlib.record_read _ hnames made es]
  exact Option.bind_eq_some_iff.mpr ⟨_, hrelation, congrArg (Option.map _) hfirst⟩

theorem read?_carries (hc : c.Writable) (made : Origin) {root : Entries} (h : Carries c kept root) :
    (codec lib).read? (.table made root) = some (c.keeping kept) := by
  have hnames : (declaration lib).first.name ≠ (declaration lib).second.name := by
    change "pool" ≠ "query"
    decide
  have hlimits : (declaration lib).first.read? (root.lookup Table.pool.name) =
      some (c.keeping kept).limits := by
    have hpool := h .pool
    generalize root.lookup Table.pool.name = old at hpool
    cases hpool with
    | absent unset =>
      have hunset : .maxBuffers ∉ kept ∧ .maxCapacity ∉ kept :=
        ⟨fun hs => unset _ hs rfl, fun hs => unset _ hs rfl⟩
      rw [keeping, if_neg hunset.1, if_neg hunset.2]
      rfl
    | present settings => exact read?_limits hlib hc _ settings
  have hquery : (declaration lib).second.read? (root.lookup Table.query.name) =
      some (c.keeping kept).query := by
    have hquery := h .query
    generalize root.lookup Table.query.name = old at hquery
    cases hquery with
    | absent unset =>
      have hunset : .relation ∉ kept ∧ .firstOnly ∉ kept :=
        ⟨fun hs => unset _ hs rfl, fun hs => unset _ hs rfl⟩
      rw [keeping, if_neg hunset.1, if_neg hunset.2]
      rfl
    | present settings => exact read?_query hlib _ settings
  rw [codec, hlib.record_read _ hnames made root]
  exact Option.bind_eq_some_iff.mpr ⟨_, hlimits, congrArg (Option.map _) hquery⟩

end Reading

end IntervalIndex.Config
