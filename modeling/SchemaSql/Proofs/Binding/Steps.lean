import SchemaSql.Binding.Clauses

/-!
Steps over bindings as functions that may fail. An outcome of `Binding.apply` forgets what a failed
step had changed, so a sequence of steps is a sequence of such functions; where the parts of a
sequence commute with a view of entries, the whole does.
-/

set_option autoImplicit false
set_option relaxedAutoImplicit false

namespace SchemaSql

theorem bind_eq_ok {ε α β : Type} {x : Except ε α} {f : α → Except ε β} {b : β} :
    x.bind f = .ok b ↔ ∃ a, x = .ok a ∧ f a = .ok b := by
  cases x <;> simp [Except.bind]

theorem map_eq_ok {α β : Type} {x : Except Error α} {f : α → β} {b : β} :
    x.map f = .ok b ↔ ∃ a, x = .ok a ∧ f a = b := by
  cases x <;> simp [Except.map]

theorem exists_ok_of_isSome {α : Type} {x : Except Error α} (h : x.toOption.isSome) :
    ∃ a, x = .ok a := by
  cases x with
  | error e => exact absurd h Bool.false_ne_true
  | ok a => exact ⟨a, rfl⟩

/-- What is decided of an outcome holds of a result. -/
theorem exists_ok_of_any {α : Type} {x : Except Error α} {p : α → Bool}
    (h : x.toOption.any p) : ∃ a, x = .ok a ∧ p a := by
  cases x with
  | error e => exact absurd h Bool.false_ne_true
  | ok a => exact ⟨a, rfl, h⟩

namespace Binding

@[simp] theorem apply_modify (b : Binding) (f : Binding → Binding) :
    b.apply (modify f) = .ok (f b) := rfl

theorem apply_andThen (b : Binding) (s t : Step) :
    b.apply (do s; t) = (b.apply s).bind fun b ↦ b.apply t := by
  show b.apply (EStateM.bind s fun _ ↦ t) = _
  unfold EStateM.bind apply
  dsimp only
  cases s b <;> rfl

theorem apply_get (b : Binding) (s : Binding → Step) :
    b.apply (do let b ← get; s b) = b.apply (s b) := rfl

theorem apply_change (b : Binding) (name : String) (f : Entry → Entry)
    (missing : Binding → Error) :
    b.apply (change name f missing) =
      if (b.entry? name).isSome then .ok { b with entries := changeFirst name f b.entries }
      else .error (missing b) := by
  by_cases hknown : (b.entry? name).isSome <;> simp [apply, change, hknown]

theorem apply_changeIfKnown (b : Binding) (name : String) (f : Entry → Entry)
    (missing : Binding → Error) :
    b.apply (changeIfKnown name f missing) =
      if (b.entry? name).isSome then .ok { b with entries := changeFirst name f b.entries }
      else if b.strict then .error (missing b) else .ok b := by
  by_cases hknown : (b.entry? name).isSome
  · simp [apply, changeIfKnown, change, hknown]
  · cases hstrict : b.strict <;> simp [apply, changeIfKnown, change, hknown, hstrict]

/-- The properties are bound one after another. -/
theorem apply_bindProperties_cons (b : Binding) (marks : Bool) (p : Property)
    (ps : List Property) :
    b.apply (bindProperties marks (p :: ps)) =
      (b.apply (bindProperty marks p)).bind fun b ↦ b.apply (bindProperties marks ps) :=
  apply_andThen b _ _

theorem apply_bindUpdates_cons (b : Binding) (origin : Origin) (name : String) (value : Value)
    (rest : List (String × Value)) :
    b.apply (bindUpdates origin ((name, value) :: rest)) =
      (b.apply (change name (fun e ↦ { e.bind value origin with update := true })
        fun b ↦ .mapping (.unknownColumn name b.object))).bind fun b ↦
          b.apply (bindUpdates origin rest) :=
  apply_andThen b _ _

theorem apply_readNamed_cons (b : Binding) (name : String) (names : List String) :
    b.apply (readNamed (name :: names)) =
      (b.apply (changeIfKnown name markRead fun b ↦ .mapping (.unknownDesired name b.object))).bind
        fun b ↦ b.apply (readNamed names) :=
  apply_andThen b _ _

/-- The binding in which an argument's key marks, if they count, take the place of the table's keys,
before any property is bound. -/
def marked (b : Binding) (marks : Bool) : Binding :=
  if marks then b.mapEntries fun e ↦ { e with isKey := false } else b

theorem apply_bindArgument (b : Binding) (a : Argument) (marks : Bool) :
    b.apply (bindArgument a marks) =
      if marks && !a.toProperties.any (·.isKey) then .error (.mapping (.noKeyMarks b.object))
      else ((b.marked marks).apply (bindProperties marks a.toProperties)).map refreshed := by
  have hrefresh (b : Binding) : b.apply (do bindProperties marks a.toProperties; refresh) =
      (b.apply (bindProperties marks a.toProperties)).map refreshed := by
    rw [apply_andThen]
    rfl
  cases marks with
  | false => exact hrefresh b
  | true =>
    rw [bindArgument, marked]
    cases hmarks : a.toProperties.any (·.isKey) with
    | false => rfl
    | true => exact hrefresh _

theorem apply_applyUpdateValues (b : Binding) (values : List (String × Value)) (origin : Origin) :
    b.apply (applyUpdateValues values origin) =
      (b.mapEntries fun e ↦ { e with update := false }).apply (bindUpdates origin values) := by
  rw [applyUpdateValues, apply_andThen, apply_modify]
  rfl

theorem apply_applyDesired_named (b : Binding) (name : String) (names : List String) :
    b.apply (applyDesired (.named (name :: names))) =
      (b.apply (readNamed (name :: names))).bind fun b ↦
        if (name :: names).any fun n ↦ (b.entry? n).isSome then .ok b
        else .error (.mapping (.noneDesired (name :: names) b.object)) := by
  rw [applyDesired, apply_andThen]
  · congr 1
    funext b
    rw [apply_get]
    split <;> rfl
  · simp

/-! ### Views of entries

A view replaces some data of every entry, though never its column. Steps that treat the rest of an
entry alike commute with it. -/

section View

variable {view : Entry → Entry} (hcolumn : ∀ e, (view e).column = e.column)

include hcolumn

theorem entry?_mapEntries (b : Binding) (name : String) :
    Binding.entry? (b.mapEntries view) name = (b.entry? name).map view := by
  rw [Binding.entry?, mapEntries, List.find?_map]
  congr 2
  funext e
  exact congrArg (Column.answersTo · name) (hcolumn e)

theorem isSome_entry?_mapEntries (b : Binding) (name : String) :
    (Binding.entry? (b.mapEntries view) name).isSome = (b.entry? name).isSome := by
  rw [entry?_mapEntries hcolumn, Option.isSome_map]

variable {f g : Entry → Entry} (hview : ∀ e, view (f e) = g (view e))

include hview

theorem changeFirst_map (name : String) (es : List Entry) :
    (changeFirst name f es).map view = changeFirst name g (es.map view) := by
  induction es with
  | nil => rfl
  | cons e es ih =>
    rw [changeFirst, List.map_cons, changeFirst, hcolumn]
    split
    · rw [List.map_cons, hview]
    · rw [List.map_cons, ih]

theorem change_mapEntries (name : String) (missing : Binding → Error)
    (hmissing : ∀ b : Binding, missing (b.mapEntries view) = missing b) (b : Binding) :
    (b.mapEntries view).apply (change name g missing) =
      (b.apply (change name f missing)).map (mapEntries view) := by
  rw [apply_change, apply_change, isSome_entry?_mapEntries hcolumn]
  split
  · simp [Except.map, mapEntries, changeFirst_map hcolumn hview]
  · simp [Except.map, hmissing]

theorem changeIfKnown_mapEntries (name : String) (missing : Binding → Error)
    (hmissing : ∀ b : Binding, missing (b.mapEntries view) = missing b) (b : Binding) :
    (b.mapEntries view).apply (changeIfKnown name g missing) =
      (b.apply (changeIfKnown name f missing)).map (mapEntries view) := by
  have hstrict : (b.mapEntries view).strict = b.strict := rfl
  rw [apply_changeIfKnown, apply_changeIfKnown, isSome_entry?_mapEntries hcolumn, hstrict]
  split
  · simp [Except.map, mapEntries, changeFirst_map hcolumn hview]
  · split <;> simp [Except.map, hmissing]

end View

/-- If a view commutes with two steps, it does with one after the other. -/
theorem bind_mapEntries {view : Entry → Entry} {x y : Except Error Binding} {s t : Step}
    (hx : y = x.map (mapEntries view))
    (hst : ∀ b : Binding, (b.mapEntries view).apply t = (b.apply s).map (mapEntries view)) :
    (y.bind fun b ↦ b.apply t) = (x.bind fun b ↦ b.apply s).map (mapEntries view) := by
  subst hx
  cases x with
  | error e => rfl
  | ok b => exact hst b

/-- The choice of columns to read goes by names alone. -/
theorem applyDesired_mapEntries {view : Entry → Entry} (hcolumn : ∀ e, (view e).column = e.column)
    (hview : ∀ e, view (markRead e) = markRead (view e)) (desired : Desired) (b : Binding) :
    (b.mapEntries view).apply (applyDesired desired) =
      (b.apply (applyDesired desired)).map (mapEntries view) := by
  have hnamed (names : List String) (b : Binding) : (b.mapEntries view).apply (readNamed names) =
      (b.apply (readNamed names)).map (mapEntries view) := by
    induction names generalizing b with
    | nil => rfl
    | cons name names ih =>
      rw [apply_readNamed_cons, apply_readNamed_cons]
      exact bind_mapEntries (changeIfKnown_mapEntries hcolumn hview name _ (fun _ ↦ rfl) b) ih
  cases desired with
  | none => rfl
  | all =>
    refine congrArg Except.ok ?_
    simp [mapEntries, hview]
  | named names =>
    cases names with
    | nil => rfl
    | cons name names =>
      rw [apply_applyDesired_named, apply_applyDesired_named, hnamed]
      cases b.apply (readNamed (name :: names)) with
      | error e => rfl
      | ok b =>
        simp only [Except.map, Except.bind, isSome_entry?_mapEntries hcolumn]
        split <;> rfl

end Binding

end SchemaSql
