import SchemaSql.Proofs.Command.Assigned
import SchemaSql.Proofs.Command.Restriction
import SchemaSql.Proofs.Statement.Conditions

/-!
What an update writes, and to which rows. A column is assigned if it may be updated and has a value,
which is the one that the last rule for updates gives it or else the last property of the argument.
The rows are found by the argument's own values for its key, or by the criteria as they would be for
any other request: the rules come too late to change which rows are updated, also where one of them
is about a column of the key.
-/

set_option autoImplicit false
set_option relaxedAutoImplicit false

namespace SchemaSql

/-! ### Rows to update -/

/-- The conditions compare every column of the key with the argument's own value for it, in the
order of the table and each once. -/
def Argument.ComparesOwnKey (a : Argument) (t : Table) (marks : Bool) (criteria : List Predicate) :
    Prop :=
  ∃ keys : List (Column × Value),
    criteria = keys.map (fun x ↦ .equals x.1 (x.1.parameter x.2 .argument)) ∧ keys ≠ [] ∧
      (keys.map (·.1)).Sublist t.columns ∧ (keys.map (·.1)).Nodup ∧
      (∀ c v, (c, v) ∈ keys ↔ c ∈ t.columns ∧ a.isKeyOf t marks c ∧ a.valueFor? t c = some v) ∧
      ∀ c ∈ t.columns, a.isKeyOf t marks c → (a.valueFor? t c).isSome

namespace Binding

variable {b c : Binding}

end Binding

namespace WritePlan

variable {p : WritePlan} {chain : Chain}

end WritePlan

namespace Command

variable {env : Environment} {desired : Desired} {t : Table} {a : Argument} {marks : Bool}
  {b : Binding} {chain : Chain}

/-- The condition of an update by key is taken from the argument before any rule counts. -/
theorem comparesOwnKey_of_bindArgument
    (h : (binding env t).apply (Binding.bindArgument a marks) = .ok b) {criteria : List Predicate}
    (hcriteria : b.keyCriteria = .ok criteria) : a.ComparesOwnKey t marks criteria := by
  have hmakes := Binding.Makes.ofArgument h
  have honce := (boundOnce_binding env t).bindArgument h
  obtain ⟨hsome, hbound, rfl⟩ := Binding.keyCriteria_ok hcriteria
  have hkeys : ∀ e ∈ b.entries, e.isKey → e.isBound := fun e he hkey ↦
    hbound e (List.mem_filter.mpr ⟨he, hkey⟩)
  have hkey (c : Column) : (b.withParts (a.entryFor t marks c)).isKey = a.isKeyOf t marks c :=
    Argument.entryFor_isKey
  have hmem (c : Column) (v : Value) : (c, v) ∈ b.keyValues ↔
      c ∈ t.columns ∧ a.isKeyOf t marks c ∧ a.valueFor? t c = some v := by
    rw [← hkey, ← Argument.entryFor_value]
    exact hmakes.mem_valuesWhere honce hkeys
  have hparameter : ∀ e ∈ b.entries.filter (·.isKey),
      e.parameter = e.column.parameter (e.value.getD .null) .argument := by
    intro e he
    rw [Entry.parameter,
      (Binding.bound_of_bindArgument h honce (List.mem_filter.mp he).1 (hbound e he)).2]
  obtain ⟨hordered, hdistinct⟩ := hmakes.columns_valuesWhere honce hkeys
  refine ⟨b.keyValues, ?_, ?_, hordered, hdistinct, hmem, fun c hc hc' ↦ ?_⟩
  · rw [Binding.keyValues, Binding.valuesWhere, List.map_map]
    exact List.map_congr_left fun e he ↦ congrArg (Predicate.equals e.column) (hparameter e he)
  · simpa [Binding.keyValues, Binding.valuesWhere] using hsome
  · have hentry := hmakes.entry c
    rw [if_pos hc] at hentry
    have hvalue := hkeys _ (Binding.mem_of_entryOf? hentry) ((hkey c).trans hc')
    exact Argument.entryFor_value ▸ hvalue

/-! ### Updates -/

end Command

end SchemaSql
