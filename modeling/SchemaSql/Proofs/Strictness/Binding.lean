import SchemaSql.Command.Basic
import SchemaSql.Proofs.Binding.Bound

/-!
Strict and lenient bindings. Two requests that differ in strictness alone are prepared side by side:
where the strict one goes on, so does the lenient one, to the same; where the strict one minds
something, it fails, whatever becomes of the other. What a step of bindings minds are names that no
column answers to.
-/

set_option autoImplicit false
set_option relaxedAutoImplicit false

namespace SchemaSql

/-! ### Outcomes side by side -/

/-- The outcomes of a strict and a lenient run. They are related results, if there is nothing to
mind, or one error of both; or the strict run fails with an error that tells what it minds. -/
inductive Tightens {α β : Type} (minds : Error → Prop) (R : α → β → Prop) :
    Except Error α → Except Error β → Prop
  | ok {a : α} {b : β} (unminded : ∀ e, ¬ minds e) (related : R a b) :
      Tightens minds R (.ok a) (.ok b)
  | same (e : Error) : Tightens minds R (.error e) (.error e)
  | minded {e : Error} (h : minds e) (y : Except Error β) : Tightens minds R (.error e) y

/-- Nothing is minded. -/
abbrev Unminded : Error → Prop := fun _ ↦ False

namespace Tightens

variable {α β γ δ : Type} {minds minds' : Error → Prop} {R : α → β → Prop} {S : γ → δ → Prop}
  {x : Except Error α} {y : Except Error β}

theorem congr (h : Tightens minds R x y) (hminds : ∀ e, minds e ↔ minds' e) :
    Tightens minds' R x y := by
  obtain rfl : minds = minds' := funext fun e ↦ propext (hminds e)
  exact h

theorem of_eq {x y : Except Error α} (h : x = y) : Tightens Unminded (· = ·) x y := by
  subst h
  cases x with
  | error e => exact .same e
  | ok a => exact .ok (fun _ ↦ id) rfl

/-- One run after another minds what either of them does. -/
theorem bind {k : α → Except Error γ} {l : β → Except Error δ} (h : Tightens minds R x y)
    (hkl : ∀ a b, R a b → Tightens minds' S (k a) (l b)) :
    Tightens (fun e ↦ minds e ∨ minds' e) S (x.bind k) (y.bind l) := by
  cases h with
  | same e => exact .same e
  | minded h y => exact .minded (.inl h) _
  | @ok a b hnone hab =>
    have hnext := hkl a b hab
    simp only [Except.bind]
    generalize k a = u at hnext
    generalize l b = v at hnext
    cases hnext with
    | same e => exact .same e
    | minded h v => exact .minded (.inr h) v
    | ok hnone' hcd => exact .ok (fun e he ↦ he.elim (hnone e) (hnone' e)) hcd

/-- A step that both runs take alike. -/
theorem bind_same {x : Except Error α} {k : α → Except Error γ} {l : α → Except Error δ}
    (hkl : ∀ a, Tightens minds S (k a) (l a)) : Tightens minds S (x.bind k) (x.bind l) := by
  cases x with
  | error e => exact .same e
  | ok a => exact hkl a

/-- Nothing more is minded afterwards. -/
theorem bind_unminded {k : α → Except Error γ} {l : β → Except Error δ} (h : Tightens minds R x y)
    (hkl : ∀ a b, R a b → Tightens Unminded S (k a) (l b)) :
    Tightens minds S (x.bind k) (y.bind l) :=
  (h.bind hkl).congr fun e ↦ by rw [or_false]

theorem map {k : α → γ} {l : β → δ} (h : Tightens minds R x y)
    (hkl : ∀ a b, R a b → S (k a) (l b)) : Tightens minds S (x.map k) (y.map l) := by
  cases h with
  | same e => exact .same e
  | minded h y => exact .minded h _
  | ok hnone hab => exact .ok hnone (hkl _ _ hab)

theorem strict_ok_iff {x y : Except Error α} (h : Tightens minds (· = ·) x y) (a : α) :
    x = .ok a ↔ y = .ok a ∧ ∀ e, ¬ minds e := by
  cases h with
  | same e => simp
  | @minded e h y =>
    constructor
    · intro hx
      cases hx
    · rintro ⟨-, hnone⟩
      exact absurd h (hnone e)
  | @ok a' b hnone hab =>
    obtain rfl : a' = b := hab
    exact ⟨fun hx ↦ ⟨hx, hnone⟩, fun hy ↦ hy.1⟩

theorem minded_of_error {e : Error} {b : β} (h : Tightens minds R x y) (hx : x = .error e)
    (hy : y = .ok b) : minds e := by
  cases h with
  | same e' => cases hy
  | ok => cases hx
  | @minded e' h y =>
    obtain rfl := Except.error.inj hx
    exact h

end Tightens

/-- An error that tells of one of the names that it is unknown. -/
def MindsNames (known : String → Bool) (names : List String) (cause : String → Mismatch)
    (e : Error) : Prop :=
  ∃ n ∈ names, known n = false ∧ e = .mapping (cause n)

@[simp] theorem mindsNames_nil (known : String → Bool) (cause : String → Mismatch) (e : Error) :
    MindsNames known [] cause e ↔ False := by
  simp [MindsNames]

theorem mindsNames_cons {known : String → Bool} {n : String} {names : List String}
    {cause : String → Mismatch} {e : Error} :
    MindsNames known [n] cause e ∨ MindsNames known names cause e ↔
      MindsNames known (n :: names) cause e := by
  simp [MindsNames]

/-- The names that the caller gives of wanted columns. -/
def Desired.names : Desired → List String
  | .named names => names
  | _ => []

/-- Whether one of the columns answers to a name. -/
def knownAmong (columns : List Column) (name : String) : Bool :=
  columns.any fun c ↦ c.answersTo name

/-! ### Bindings side by side -/

namespace Binding

/-- A strict binding for the columns of a target, and the lenient one that is like it otherwise. -/
structure Loosens (target : Target) (columns : List Column) (a b : Binding) : Prop where
  strict : a.strict = true
  target : a.target = target
  columns : a.entries.map (·.column) = columns
  lenient : b = { a with strict := false }

variable {target : Target} {columns : List Column} {a b : Binding}

namespace Loosens

theorem known (h : Loosens target columns a b) (name : String) :
    (a.entry? name).isSome = knownAmong columns name := by
  rw [Binding.entry?, List.isSome_find?, knownAmong, ← h.columns, List.any_map]
  rfl

theorem object (h : Loosens target columns a b) : a.object = target.quoted := by
  rw [Binding.object, h.target]

/-- Both bindings are changed alike. -/
theorem of_entries (h : Loosens target columns a b) {c : Binding} (hstrict : c.strict = a.strict)
    (htarget : c.target = a.target)
    (hcolumns : c.entries.map (·.column) = a.entries.map (·.column)) :
    Loosens target columns c { c with strict := false } :=
  ⟨hstrict.trans h.strict, htarget.trans h.target, hcolumns.trans h.columns, rfl⟩

theorem mapEntries (h : Loosens target columns a b) {f : Entry → Entry}
    (hf : ∀ e, (f e).column = e.column) :
    Loosens target columns (a.mapEntries f) (b.mapEntries f) := by
  obtain rfl := h.lenient
  exact h.of_entries rfl rfl (by simp [Binding.mapEntries, Function.comp_def, hf])

theorem refreshed (h : Loosens target columns a b) :
    Loosens target columns a.refreshed b.refreshed := by
  obtain rfl := h.lenient
  exact h.of_entries rfl rfl (by simp [Binding.refreshed, Binding.mapEntries, Binding.withParts])

theorem changed (h : Loosens target columns a b) (name : String) {f : Entry → Entry}
    (hf : ∀ e, (f e).column = e.column) :
    Loosens target columns (a.changed name f) (b.changed name f) := by
  obtain rfl := h.lenient
  exact h.of_entries rfl rfl (map_changeFirst hf)

end Loosens

/-- The lenient binding passes over a name that the strict one minds. -/
theorem changeIfKnown_tightens (h : Loosens target columns a b) {f : Entry → Entry}
    (hf : ∀ e, (f e).column = e.column) (name : String) {missing : Binding → Error}
    {cause : String → Mismatch} (hmissing : missing a = .mapping (cause name)) :
    Tightens (MindsNames (knownAmong columns) [name] cause) (Loosens target columns)
      (a.apply (changeIfKnown name f missing)) (b.apply (changeIfKnown name f missing)) := by
  have hentry : (b.entry? name).isSome = (a.entry? name).isSome := by
    obtain rfl := h.lenient
    rfl
  rw [apply_changeIfKnown, apply_changeIfKnown, hentry, h.known]
  cases hknown : knownAmong columns name with
  | true => exact .ok (fun e ↦ by simp [MindsNames, hknown]) (h.changed name hf)
  | false =>
    simp only [Bool.false_eq_true, if_false, h.strict, if_true]
    exact .minded ⟨name, List.mem_singleton_self name, hknown, hmissing⟩ _

theorem bindProperties_tightens (h : Loosens target columns a b) (marks : Bool)
    (ps : List Property) :
    Tightens (MindsNames (knownAmong columns) (ps.map (·.name)) (.unknownProperty · target.quoted))
      (Loosens target columns) (a.apply (bindProperties marks ps))
      (b.apply (bindProperties marks ps)) := by
  induction ps generalizing a b with
  | nil => exact .ok (fun e ↦ (mindsNames_nil _ _ e).mp) h
  | cons p ps ih =>
    rw [apply_bindProperties_cons, apply_bindProperties_cons]
    refine Tightens.congr ?_ fun e ↦ mindsNames_cons
    refine Tightens.bind ?_ fun _ _ hab ↦ ih hab
    exact changeIfKnown_tightens h (column_bound marks p) p.name (by rw [h.object])

theorem bindArgument_tightens (h : Loosens target columns a b) (arg : Argument) (marks : Bool) :
    Tightens
      (MindsNames (knownAmong columns) (arg.toProperties.map (·.name))
        (.unknownProperty · target.quoted))
      (Loosens target columns) (a.apply (bindArgument arg marks))
      (b.apply (bindArgument arg marks)) := by
  have hobject : b.object = a.object := by
    obtain rfl := h.lenient
    rfl
  have hmarked : Loosens target columns (a.marked marks) (b.marked marks) := by
    cases marks with
    | false => exact h
    | true => exact h.mapEntries fun _ ↦ rfl
  rw [apply_bindArgument, apply_bindArgument, hobject]
  split
  · exact .same _
  · exact (bindProperties_tightens hmarked marks _).map fun _ _ hab ↦ hab.refreshed

theorem readNamed_tightens (h : Loosens target columns a b) (names : List String) :
    Tightens (MindsNames (knownAmong columns) names (.unknownDesired · target.quoted))
      (Loosens target columns) (a.apply (readNamed names)) (b.apply (readNamed names)) := by
  induction names generalizing a b with
  | nil => exact .ok (fun e ↦ (mindsNames_nil _ _ e).mp) h
  | cons name names ih =>
    rw [apply_readNamed_cons, apply_readNamed_cons]
    refine Tightens.congr ?_ fun e ↦ mindsNames_cons
    refine Tightens.bind ?_ fun _ _ hab ↦ ih hab
    exact changeIfKnown_tightens h (f := markRead) (fun _ ↦ rfl) name (by rw [h.object])

theorem applyDesired_tightens (h : Loosens target columns a b) (desired : Desired) :
    Tightens (MindsNames (knownAmong columns) desired.names (.unknownDesired · target.quoted))
      (Loosens target columns) (a.apply (applyDesired desired))
      (b.apply (applyDesired desired)) := by
  cases desired with
  | none => exact .ok (fun e ↦ (mindsNames_nil _ _ e).mp) h
  | all => exact .ok (fun e ↦ (mindsNames_nil _ _ e).mp) (h.mapEntries fun _ ↦ rfl)
  | named names =>
    cases names with
    | nil => exact .ok (fun e ↦ (mindsNames_nil _ _ e).mp) h
    | cons name names =>
      rw [apply_applyDesired_named, apply_applyDesired_named]
      refine (readNamed_tightens h (name :: names)).bind_unminded fun c d hcd ↦ ?_
      have hknown (n : String) : (d.entry? n).isSome = (c.entry? n).isSome := by
        obtain rfl := hcd.lenient
        rfl
      have hobject : d.object = c.object := by
        obtain rfl := hcd.lenient
        rfl
      simp only [hknown, hobject]
      split
      · exact .ok (fun _ ↦ id) hcd
      · exact .same _

theorem bindUpdates_tightens (h : Loosens target columns a b) (origin : Origin)
    (values : List (String × Value)) :
    Tightens Unminded (Loosens target columns) (a.apply (bindUpdates origin values))
      (b.apply (bindUpdates origin values)) := by
  induction values generalizing a b with
  | nil => exact .ok (fun _ ↦ id) h
  | cons v values ih =>
    obtain ⟨name, value⟩ := v
    rw [apply_bindUpdates_cons, apply_bindUpdates_cons]
    refine Tightens.bind_unminded ?_ fun _ _ hab ↦ ih hab
    have hb : (b.entry? name).isSome = (a.entry? name).isSome ∧ b.object = a.object := by
      obtain rfl := h.lenient
      exact ⟨rfl, rfl⟩
    rw [apply_change, apply_change, hb.1, hb.2]
    split
    · exact .ok (fun _ ↦ id) (h.changed name (f := updated value origin) fun _ ↦ rfl)
    · exact .same _

theorem applyUpdateValues_tightens (h : Loosens target columns a b)
    (values : List (String × Value)) (origin : Origin) :
    Tightens Unminded (Loosens target columns) (a.apply (applyUpdateValues values origin))
      (b.apply (applyUpdateValues values origin)) := by
  rw [apply_applyUpdateValues, apply_applyUpdateValues]
  exact bindUpdates_tightens (h.mapEntries (f := fun e ↦ { e with update := false }) fun _ ↦ rfl)
    origin values

/-! ### Conditions -/

theorem filterCriterion_tightens (h : Loosens target columns a b) (ignoreNulls : Bool)
    (p : Property) :
    Tightens (MindsNames (knownAmong columns) [p.name] (.unknownFilterProperty · target.quoted))
      (· = ·) (a.filterCriterion ignoreNulls p) (b.filterCriterion ignoreNulls p) := by
  have hb : b.entry? p.name = a.entry? p.name ∧ b.strict = false := by
    obtain rfl := h.lenient
    exact ⟨rfl, rfl⟩
  have hknown := h.known p.name
  rw [filterCriterion, filterCriterion, hb.1, hb.2, h.strict, h.object]
  cases hentry : a.entry? p.name with
  | none =>
    rw [hentry, Option.isSome_none] at hknown
    exact .minded ⟨p.name, List.mem_singleton_self _, hknown.symm, rfl⟩ _
  | some e =>
    rw [hentry, Option.isSome_some] at hknown
    refine (Tightens.of_eq rfl).congr fun e ↦ ?_
    simp [MindsNames, ← hknown]

theorem filterEach_tightens (h : Loosens target columns a b) (ignoreNulls : Bool)
    (ps : List Property) :
    Tightens
      (MindsNames (knownAmong columns) (ps.map (·.name)) (.unknownFilterProperty · target.quoted))
      (· = ·) (a.filterEach ignoreNulls ps) (b.filterEach ignoreNulls ps) := by
  induction ps with
  | nil => exact (Tightens.of_eq rfl).congr fun e ↦ (mindsNames_nil _ _ e).symm
  | cons p ps ih =>
    refine Tightens.congr ?_ fun e ↦ mindsNames_cons
    refine (filterCriterion_tightens h ignoreNulls p).bind fun q _ hq ↦ ?_
    subst hq
    refine ih.bind_unminded fun qs _ hqs ↦ ?_
    subst hqs
    exact .of_eq rfl

end Binding

/-- The names of properties that criteria filter by. -/
def Criteria.names : Criteria → List String
  | .filter f _ => f.toProperties.map (·.name)
  | _ => []

theorem Criteria.predicates_tightens {target : Target} {columns : List Column} {a b : Binding}
    (h : Binding.Loosens target columns a b) (c : Criteria) :
    Tightens (MindsNames (knownAmong columns) c.names (.unknownFilterProperty · target.quoted))
      (· = ·) (c.predicates a) (c.predicates b) := by
  cases c with
  | none | written => exact (Tightens.of_eq rfl).congr fun e ↦ (mindsNames_nil _ _ e).symm
  | filter f ignoreNulls =>
    refine (Binding.filterEach_tightens h ignoreNulls f.toProperties).bind_unminded
      fun qs _ hqs ↦ ?_
    subst hqs
    obtain rfl := h.lenient
    exact .of_eq rfl

end SchemaSql
