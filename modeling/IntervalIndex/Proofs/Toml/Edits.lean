import IntervalIndex.Proofs.Toml.Lines

namespace IntervalIndex.Toml

namespace Entries

/-- The second table is the first one with a value under a key, be the key new or not. -/
def Puts (es : Entries) (key : String) (v : Value) (es' : Entries) : Prop :=
  ∀ k, es'.lookup k = if k = key then some v else es.lookup k

namespace Puts

variable {es es' : Entries} {key : String} {v : Value} (h : es.Puts key v es')

include h

theorem lookup_self : es'.lookup key = some v := by rw [h, if_pos rfl]

theorem lookup_of_ne {k : String} (hk : k ≠ key) : es'.lookup k = es.lookup k := by
  rw [h, if_neg hk]

theorem lookup_ne_none {k : String} (hk : es.lookup k ≠ none) : es'.lookup k ≠ none := by
  rw [h]
  split
  · exact nofun
  · exact hk

end Puts

theorem puts_concat {es : Entries} {key : String} (h : es.lookup key = none) (v : Value) :
    es.Puts key v (es ++ [(key, v)]) := by
  intro k
  by_cases hk : k = key
  · subst hk
    simp [List.lookup_append, h]
  · simp [List.lookup_append, List.lookup_cons, hk, beq_eq_false_iff_ne.mpr hk]

theorem puts_replace {es : Entries} {key : String} {w : Value} (h : es.lookup key = some w)
    (v : Value) : es.Puts key v (es.replace key v) := by
  intro k
  have hreplace : es.replace key v =
      es.map fun entry => (entry.1, if entry.1 = key then v else entry.2) := by
    refine List.map_congr_left fun entry _ => ?_
    by_cases hk : entry.1 = key
    · simp only [if_pos hk]
    · simp only [if_neg hk]
  rw [hreplace, lookup_map_snd fun k w => if k = key then v else w]
  by_cases hk : k = key
  · rw [if_pos hk, hk, h, Option.map_some, if_pos rfl]
  · simp only [if_neg hk, Option.map_id']

theorem puts_moved (es : Entries) (key : String) (v : Value) :
    es.Puts key v (es.filter (·.1 != key) ++ [(key, v)]) := by
  have hnone : (es.filter (·.1 != key)).lookup key = none := by
    rw [List.lookup_eq_none_iff]
    intro entry hentry
    exact bne_iff_ne.mpr (bne_iff_ne.mp (List.mem_filter.mp hentry).2).symm
  intro k
  rw [puts_concat hnone]
  by_cases hk : k = key
  · rw [if_pos hk, if_pos hk]
  · rw [if_neg hk, if_neg hk, lookup_filter_of_ne hk]

end Entries

/-- A change of a table that knows how the table came to be. -/
abbrev Change := Origin → Entries → Option Entries

section Rel

variable {α β γ δ : Type} {R : α → β → Prop} {S : γ → δ → Prop}

theorem rel_mono {R' : α → β → Prop} {x : Option α} {y : Option β} (hxy : Option.Rel R x y)
    (h : ∀ a b, R a b → R' a b) : Option.Rel R' x y := by
  cases hxy with
  | none => exact .none
  | some hab => exact .some (h _ _ hab)

theorem rel_map {x : Option α} {y : Option β} (hxy : Option.Rel R x y) {f : α → γ} {g : β → δ}
    (h : ∀ a b, R a b → S (f a) (g b)) : Option.Rel S (x.map f) (y.map g) := by
  cases hxy with
  | none => exact .none
  | some hab => exact .some (h _ _ hab)

theorem rel_bind {x : Option α} {y : Option β} (hxy : Option.Rel R x y) {f : α → Option γ}
    {g : β → Option δ} (h : ∀ a b, R a b → Option.Rel S (f a) (g b)) :
    Option.Rel S (x.bind f) (y.bind g) := by
  cases hxy with
  | none => exact .none
  | some hab => exact h _ _ hab

theorem rel_self (x : Option α) : Option.Rel Eq x x := by
  cases x with
  | none => exact .none
  | some a => exact .some rfl

end Rel

/-- A change of tables puts under a key what it makes of the value there, and leaves all else alone. -/
def Edits (f : Entries → Option Entries) (key : String) (put : Option Value → Option Value) : Prop :=
  ∀ es, Option.Rel (es.Puts key) (put (es.lookup key)) (f es)

theorem Edits.rel {f : Entries → Option Entries} {key : String} {put : Option Value → Option Value}
    (h : Edits f key put) {es₁ es₂ : Entries} {R : Value → Value → Prop}
    (hR : Option.Rel R (put (es₁.lookup key)) (put (es₂.lookup key))) :
    Option.Rel (fun es₁' es₂' => ∃ v₁ v₂, R v₁ v₂ ∧ es₁.Puts key v₁ es₁' ∧ es₂.Puts key v₂ es₂')
      (f es₁) (f es₂) := by
  have h₁ := h es₁
  have h₂ := h es₂
  revert hR h₁ h₂
  generalize put (es₁.lookup key) = x, put (es₂.lookup key) = y, f es₁ = z, f es₂ = w
  rintro (hR | _) (h₁ | _) (h₂ | _)
  · exact .some ⟨_, _, hR, h₁, h₂⟩
  · exact .none

theorem Edits.rel_of_lookup_eq {f : Entries → Option Entries} {key : String}
    {put : Option Value → Option Value} (h : Edits f key put) {es₁ es₂ : Entries}
    (heq : es₂.lookup key = es₁.lookup key) :
    Option.Rel (fun es₁' es₂' => ∃ v, es₁.Puts key v es₁' ∧ es₂.Puts key v es₂')
      (f es₁) (f es₂) := by
  have hput : Option.Rel Eq (put (es₁.lookup key)) (put (es₂.lookup key)) := heq ▸ rel_self _
  exact rel_mono (h.rel hput) fun _ _ ⟨v, _, hv, h₁, h₂⟩ => ⟨v, h₁, hv ▸ h₂⟩

theorem Edits.exists_of_put {f : Entries → Option Entries} {key : String}
    {put : Option Value → Option Value} (h : Edits f key put) {es : Entries} {v : Value}
    (hv : put (es.lookup key) = some v) : ∃ es', f es = some es' ∧ es.Puts key v es' := by
  have hes := h es
  rw [hv] at hes
  cases hf : f es with
  | none => exact absurd (hf ▸ hes) Option.not_rel_some_none
  | some es' => exact ⟨es', rfl, Option.rel_some_some.mp (hf ▸ hes)⟩

/-- What a path makes of the value under its first key, when the rest of it leads to the change. -/
def within (isDotted : Bool) (change : Change) : Option Value → Option Value
  | none =>
    let origin := if isDotted then Origin.dotted else .implied
    (change origin []).map (.table origin)
  | some (.tables elements) =>
    match elements.getLast? with
    | some (.table origin last) =>
      (change origin last).map fun inner => .tables (elements.dropLast ++ [.table origin inner])
    | _ => none
  | some (.table .inline _) => none
  | some (.table origin inner) =>
    if isDotted && origin = .header then none else (change origin inner).map (.table origin)
  | some _ => none

theorem within_table {origin : Origin} (h : origin ≠ .inline) (isDotted : Bool) (change : Change)
    (es : Entries) : within isDotted change (some (.table origin es)) =
      if isDotted && origin = .header then none else (change origin es).map (.table origin) := by
  cases origin with
  | inline => exact absurd rfl h
  | header | implied | dotted => rfl

theorem edits_atPath (isDotted : Bool) (change : Change) (key : String) (path : List String)
    (origin : Origin) : Edits (Entries.atPath isDotted change (key :: path) origin) key
      (within isDotted (Entries.atPath isDotted change path)) := by
  intro es
  simp only [Entries.atPath]
  cases h : es.lookup key with
  | none => exact rel_map (rel_self _) fun _ _ heq => heq ▸ Entries.puts_concat h _
  | some v =>
    cases v with
    | tables elements =>
      simp only [within]
      cases elements.getLast? with
      | none => exact .none
      | some last =>
        cases last with
        | table made inner => exact rel_map (rel_self _) fun _ _ heq => heq ▸ Entries.puts_replace h _
        | string | integer | float | boolean | dateTime | array | tables => exact .none
    | table made inner =>
      cases made with
      | inline => exact .none
      | header | implied | dotted =>
        simp only [within]
        split
        · exact .none
        · exact rel_map (rel_self _) fun _ _ heq => heq ▸ Entries.puts_replace h _
    | string | integer | float | boolean | dateTime | array => exact .none

/-- A change goes down a path, key by key, and ends with an edit under the last one. -/
inductive EditsAlong : List String → Change → Prop
  | last {key : String} {change : Change} (put : Origin → Option Value → Option Value) :
      (∀ origin, Edits (change origin) key (put origin)) → EditsAlong [key] change
  | enter {key : String} {path : List String} {change inner : Change} (isDotted : Bool) :
      EditsAlong path inner → (∀ origin, Edits (change origin) key (within isDotted inner)) →
      EditsAlong (key :: path) change

namespace EditsAlong

variable {key key' : String} {path : List String} {change : Change}

theorem atPath (h : EditsAlong path change) (isDotted : Bool) (front : List String) :
    EditsAlong (front ++ path) (fun origin es => es.atPath isDotted change front origin) := by
  induction front with
  | nil => exact h
  | cons key front ih => exact .enter isDotted ih (edits_atPath isDotted change key front)

theorem const (h : EditsAlong path change) (origin : Origin) :
    EditsAlong path fun _ => change origin := by
  cases h with
  | last put hput => exact .last (fun _ => put origin) fun _ => hput origin
  | enter isDotted hinner hput => exact .enter isDotted hinner fun _ => hput origin

theorem edits (h : EditsAlong (key :: path) change) (origin : Origin) :
    ∃ put, Edits (change origin) key put := by
  cases h with
  | last put hput => exact ⟨put origin, hput origin⟩
  | enter isDotted _ hput => exact ⟨_, hput origin⟩

theorem exists_inner (h : EditsAlong (key :: key' :: path) change) : ∃ isDotted inner,
    EditsAlong (key' :: path) inner ∧ ∀ origin, Edits (change origin) key (within isDotted inner) := by
  cases h with
  | enter isDotted hinner hput => exact ⟨isDotted, _, hinner, hput⟩

end EditsAlong

theorem edits_add (isEmpty : Bool) (key : String) (v : Value) (origin : Origin) :
    Edits (fun es =>
      if (origin = .dotted) = isEmpty then none
      else if (es.lookup key).isSome then none
      else some (es ++ [(key, v)])) key fun old =>
        if (origin = .dotted) = isEmpty then none else if old.isSome then none else some v := by
  intro es
  dsimp only
  by_cases hmade : (origin = .dotted) = isEmpty
  · rw [if_pos hmade, if_pos hmade]
    exact .none
  · rw [if_neg hmade, if_neg hmade]
    cases h : es.lookup key with
    | none => exact .some (Entries.puts_concat h v)
    | some w => exact .none

def opened : Option Value → Option Value
  | none => some (.table .header [])
  | some (.table .implied kept) => some (.table .header kept)
  | some _ => none

theorem edits_open (key : String) : Edits (fun es =>
    let others := es.filter (·.1 != key)
    match es.lookup key with
    | none => some (others ++ [(key, .table .header [])])
    | some (.table .implied kept) => some (others ++ [(key, .table .header kept)])
    | some _ => none) key opened := by
  intro es
  dsimp only
  cases es.lookup key with
  | none => exact .some (Entries.puts_moved es key _)
  | some v =>
    cases v with
    | table made kept =>
      cases made with
      | implied => exact .some (Entries.puts_moved es key _)
      | header | dotted | inline => exact .none
    | string | integer | float | boolean | dateTime | array | tables => exact .none

theorem edits_grow (key : String) : Edits (fun es =>
    match es.lookup key with
    | none => some (es ++ [(key, .tables [.table .header []])])
    | some (.tables elements) => some (es.replace key (.tables (elements ++ [.table .header []])))
    | some _ => none) key fun
      | none => some (.tables [.table .header []])
      | some (.tables elements) => some (.tables (elements ++ [.table .header []]))
      | some _ => none := by
  intro es
  dsimp only
  cases h : es.lookup key with
  | none => exact .some (Entries.puts_concat h _)
  | some v =>
    cases v with
    | tables elements => exact .some (Entries.puts_replace h _)
    | string | integer | float | boolean | dateTime | array | table => exact .none

theorem editsAlong_insert (path : List String) (key : String) (v : Value) :
    EditsAlong (path ++ [key]) fun _ es => es.insert path key v :=
  ((EditsAlong.last _ (edits_add path.isEmpty key v)).atPath true path).const .header

theorem editsAlong_openTable (path : List String) (key : String) :
    EditsAlong (path ++ [key]) fun _ es => es.openTable path key :=
  ((EditsAlong.last _ fun _ => edits_open key).atPath false path).const .header

theorem editsAlong_openElement (path : List String) (key : String) :
    EditsAlong (path ++ [key]) fun _ es => es.openElement path key :=
  ((EditsAlong.last _ fun _ => edits_grow key).atPath false path).const .header

namespace Statement

/-- The path from the outermost table to what a statement adds below a header. -/
def path? (current : List String) : Statement → Option (List String)
  | blank => none
  | entry path key _ => some (current ++ (path ++ [key]))
  | table path key | element path key => some (path ++ [key])

def target (current : List String) : Statement → List String
  | blank | entry .. => current
  | table path key | element path key => path ++ [key]

theorem target_eq (statement : Statement) (current : List String) :
    statement.target current = current ∨
      statement.path? current = some (statement.target current) := by
  cases statement with
  | blank | entry => exact .inl rfl
  | table | element => exact .inr rfl

theorem apply_eq_of_path? {statement : Statement} {current path : List String}
    (h : statement.path? current = some path) : ∃ change, EditsAlong path change ∧
      ∀ root, statement.apply ⟨root, current⟩ =
        (change .header root).map fun root => ⟨root, statement.target current⟩ := by
  cases statement with
  | blank => cases h
  | entry path key v =>
    cases h
    exact ⟨_, (editsAlong_insert path key v).atPath false current, fun _ => rfl⟩
  | table path key =>
    cases h
    exact ⟨_, editsAlong_openTable path key, fun _ => rfl⟩
  | element path key =>
    cases h
    exact ⟨_, editsAlong_openElement path key, fun _ => rfl⟩

theorem eq_blank_of_path? {statement : Statement} {current : List String}
    (h : statement.path? current = none) : statement = blank := by
  cases statement <;> simp_all [path?]

/-- Headers of tables that are none of another one, and entries with a key that is none of theirs. -/
def isPlain : Statement → Bool
  | blank => true
  | entry path _ _ | table path _ => path.isEmpty
  | element .. => false

end Statement

def paths : List String → List Statement → List (List String)
  | _, [] => []
  | current, statement :: statements =>
    (statement.path? current).toList ++ paths (statement.target current) statements

/-- A draft in which nothing stands yet under some paths. -/
structure Fresh (unseen : List (List String)) (d : Draft) : Prop where
  root : ∀ key, [key] ∈ unseen → d.root.lookup key = none
  below : d.current = [] ∨ ∃ name es, d.current = [name] ∧
    d.root.lookup name = some (.table .header es) ∧
    ∀ key, [name, key] ∈ unseen → es.lookup key = none

namespace Fresh

variable {unseen : List (List String)} {root : Entries} {current : List String} {key : String}

theorem openTable (h : Fresh ([key] :: unseen) ⟨root, current⟩) (hkey : [key] ∉ unseen) :
    ∃ d, Draft.openTable ⟨root, current⟩ [] key = some d ∧ d.current = [key] ∧ Fresh unseen d := by
  have hnone : root.lookup key = none := h.root key List.mem_cons_self
  have hput : opened (root.lookup key) = some (.table .header []) := by rw [hnone]; rfl
  obtain ⟨root', hroot', hputs⟩ := (edits_open key).exists_of_put hput
  have hopen : root.openTable [] key = some root' := hroot'
  refine ⟨⟨root', [key]⟩, by rw [Draft.openTable, hopen]; rfl, rfl, fun other hother => ?_,
    .inr ⟨key, [], rfl, hputs.lookup_self, fun _ _ => rfl⟩⟩
  have hne : other ≠ key := fun heq => hkey (heq ▸ hother)
  exact (hputs.lookup_of_ne hne).trans (h.root other (List.mem_cons_of_mem _ hother))

theorem addEntry_root (h : Fresh ([key] :: unseen) ⟨root, []⟩) (hkey : [key] ∉ unseen) (v : Value) :
    ∃ d, Draft.addEntry ⟨root, []⟩ [] key v = some d ∧ d.current = [] ∧ Fresh unseen d := by
  have hnone : root.lookup key = none := h.root key List.mem_cons_self
  have hinsert : Draft.addEntry ⟨root, []⟩ [] key v = some ⟨root ++ [(key, v)], []⟩ :=
    congrArg (Option.map _) (insert_nil hnone v)
  refine ⟨_, hinsert, rfl, fun other hother => ?_, .inl rfl⟩
  have hne : other ≠ key := fun heq => hkey (heq ▸ hother)
  exact (Entries.puts_concat hnone v).lookup_of_ne hne |>.trans
    (h.root other (List.mem_cons_of_mem _ hother))

theorem addEntry_below {name : String} (h : Fresh ([name, key] :: unseen) ⟨root, [name]⟩)
    (hkey : [name, key] ∉ unseen) (v : Value) :
    ∃ d, Draft.addEntry ⟨root, [name]⟩ [] key v = some d ∧ d.current = [name] ∧ Fresh unseen d := by
  obtain ⟨name, es, heq, hes, hbelow⟩ := h.below.resolve_left (List.cons_ne_nil _ _)
  obtain rfl := List.singleton_inj.mp heq
  have hnone : es.lookup key = none := hbelow key List.mem_cons_self
  have hput : within false (fun _ es => es.insert [] key v) (root.lookup name) =
      some (.table .header (es ++ [(key, v)])) := by
    rw [hes, within_table Origin.noConfusion, insert_nil hnone]
    rfl
  obtain ⟨root', hroot', hputs⟩ := (edits_atPath false
    (fun _ es => es.insert [] key v) name [] .header).exists_of_put hput
  refine ⟨⟨root', _⟩, by rw [Draft.addEntry, hroot']; rfl, rfl, fun other hother => ?_,
    .inr ⟨_, _, rfl, hputs.lookup_self, fun other hother => ?_⟩⟩
  · have hold : root.lookup other = none := h.root other (List.mem_cons_of_mem _ hother)
    exact (hputs.lookup_of_ne fun heq => nomatch (heq ▸ hold).symm.trans hes).trans hold
  · have hne : other ≠ key := fun heq => hkey (heq ▸ hother)
    exact (Entries.puts_concat hnone v).lookup_of_ne hne |>.trans
      (hbelow other (List.mem_cons_of_mem _ hother))

theorem apply {d : Draft} {statement : Statement} (hplain : statement.isPlain = true)
    (hnodup : ((statement.path? d.current).toList ++ unseen).Nodup)
    (h : Fresh ((statement.path? d.current).toList ++ unseen) d) :
    ∃ d', statement.apply d = some d' ∧ d'.current = statement.target d.current ∧
      Fresh unseen d' := by
  obtain ⟨root, current⟩ := d
  cases statement with
  | blank => exact ⟨_, rfl, rfl, h⟩
  | element => cases hplain
  | table path key =>
    obtain rfl := List.isEmpty_iff.mp hplain
    exact h.openTable (List.nodup_cons.mp hnodup).1
  | entry path key v =>
    obtain rfl := List.isEmpty_iff.mp hplain
    rcases h.below with hcurrent | ⟨name, es, hcurrent, -⟩
    · obtain rfl : current = [] := hcurrent
      exact h.addEntry_root (List.nodup_cons.mp hnodup).1 v
    · obtain rfl : current = [name] := hcurrent
      exact h.addEntry_below (List.nodup_cons.mp hnodup).1 v

end Fresh

/-- Lines that give each key of a table and each table only once make a document. -/
theorem isSome_applyAll {lines : List Line} (hplain : ∀ line ∈ lines, line.statement.isPlain = true)
    (hnodup : (paths [] (lines.map (·.statement))).Nodup) : (applyAll lines ⟨[], []⟩).isSome := by
  have hrun : ∀ d, (paths d.current (lines.map (·.statement))).Nodup →
      Fresh (paths d.current (lines.map (·.statement))) d → (applyAll lines d).isSome := by
    clear hnodup
    induction lines with
    | nil => exact fun _ _ _ => rfl
    | cons line lines ih =>
      intro d hnodup hfresh
      obtain ⟨d', happly, hcurrent, hfresh'⟩ := hfresh.apply (hplain line List.mem_cons_self) hnodup
      rw [← hcurrent] at hfresh'
      rw [applyAll_cons, happly]
      refine ih (fun line' h => hplain line' (List.mem_cons_of_mem line h)) d' ?_ hfresh'
      rw [hcurrent]
      exact (List.nodup_append.mp hnodup).2.1
  exact hrun _ hnodup ⟨fun _ _ => rfl, .inl rfl⟩

end IntervalIndex.Toml
