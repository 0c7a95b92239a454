import SchemaSql.Binding.Clauses
import SchemaSql.Proofs.Binding.Bound

/-!
The parts of a statement that a binding gives: the cells of a row, the assignments of an update, and
conditions, each about an entry of the binding.
-/

set_option autoImplicit false
set_option relaxedAutoImplicit false

namespace SchemaSql

namespace Binding

variable {b : Binding} {criteria : List Predicate}

theorem insertRow_ok {row : List Cell} (h : b.insertRow = .ok row) :
    row = (b.entries.filter (·.insert)).map Entry.cell := by
  rw [insertRow] at h
  split at h
  · exact (Except.ok.inj h).symm
  · simp at h

theorem assignments_ok {as : List Assignment} (h : b.assignments = .ok as) :
    as = (b.entries.filter (·.update)).map fun e ↦ ⟨e.column, .parameter e.parameter⟩ := by
  rw [assignments] at h
  split at h
  · exact (Except.ok.inj h).symm
  · simp at h

/-! ### Conditions -/

theorem equalities_ok {object : String} {es : List Entry}
    (h : equalities object es = .ok criteria) :
    (∀ e ∈ es, e.isBound) ∧ criteria = es.map fun e ↦ .equals e.column e.parameter := by
  induction es generalizing criteria with
  | nil =>
    obtain rfl := Except.ok.inj h
    exact ⟨by simp, rfl⟩
  | cons e es ih =>
    rw [equalities] at h
    split at h
    · rename_i hbound
      obtain ⟨rest, hrest, rfl⟩ := map_eq_ok.mp h
      obtain ⟨hall, rfl⟩ := ih hrest
      exact ⟨List.forall_mem_cons.mpr ⟨hbound, hall⟩, rfl⟩
    · simp at h

theorem keyCriteria_ok (h : b.keyCriteria = .ok criteria) :
    (b.entries.filter (·.isKey)) ≠ [] ∧ (∀ e ∈ b.entries.filter (·.isKey), e.isBound) ∧
      criteria = (b.entries.filter (·.isKey)).map fun e ↦ .equals e.column e.parameter := by
  rw [keyCriteria] at h
  split at h
  · simp at h
  · rename_i hkeys
    exact ⟨hkeys, equalities_ok h⟩

theorem keyListCriterion_ok {keys : List Value} {p : Predicate}
    (h : b.keyListCriterion keys = .ok p) :
    ∃ e ∈ b.entries, e.isKey ∧
      ((∃ key, keys = [key] ∧ p = .equals e.column (keyParameter e.column 0 key)) ∨
        keys ≠ [] ∧ p = .among e.column (keys.mapIdx (keyParameter e.column))) := by
  rw [keyListCriterion] at h
  split at h
  · simp at h
  · rename_i c hc
    have hmem : c ∈ b.keyColumns := by simp [hc]
    obtain ⟨e, he, rfl⟩ := List.mem_map.mp hmem
    obtain ⟨hentry, hkey⟩ := List.mem_filter.mp he
    refine ⟨e, hentry, hkey, ?_⟩
    split at h
    · simp at h
    · exact .inl ⟨_, rfl, (Except.ok.inj h).symm⟩
    · rename_i hempty _
      exact .inr ⟨hempty, (Except.ok.inj h).symm⟩
  · simp at h

theorem filterEach_ok {ignoreNulls : Bool} {ps : List Property} {criteria : List Predicate}
    (h : b.filterEach ignoreNulls ps = .ok criteria) :
    ∀ p ∈ criteria, ∃ q ∈ ps, ∃ e, b.entry? q.name = some e ∧
      (q.value.isNull = false ∧ p = .equals e.column (e.column.parameter q.value .filter) ∨
        q.value.isNull = true ∧ ignoreNulls = false ∧ p = .isNull e.column) := by
  induction ps generalizing criteria with
  | nil =>
    obtain rfl := Except.ok.inj h
    simp
  | cons q ps ih =>
    obtain ⟨first, hfirst, h⟩ := bind_eq_ok.mp h
    obtain ⟨rest, hrest, h⟩ := bind_eq_ok.mp h
    obtain rfl := Except.ok.inj h
    intro p hp
    rcases List.mem_append.mp hp with hmem | hmem
    · refine ⟨q, List.mem_cons_self, ?_⟩
      obtain rfl := Option.mem_toList.mp hmem
      rw [filterCriterion] at hfirst
      split at hfirst
      · split at hfirst <;> simp at hfirst
      · rename_i e he
        refine ⟨e, he, ?_⟩
        split at hfirst
        · rename_i hnull
          cases ignoreNulls with
          | true => simp at hfirst
          | false => exact .inr ⟨hnull, rfl, (Option.some.inj (Except.ok.inj hfirst)).symm⟩
        · rename_i hvalue
          exact .inl ⟨by simpa using hvalue, (Option.some.inj (Except.ok.inj hfirst)).symm⟩
    · obtain ⟨q', hq', hrest'⟩ := ih hrest p hmem
      exact ⟨q', List.mem_cons_of_mem _ hq', hrest'⟩

theorem filterCriteria_ok {f : Argument} {ignoreNulls : Bool}
    (h : b.filterCriteria f ignoreNulls = .ok criteria) :
    criteria ≠ [] ∧ b.filterEach ignoreNulls f.toProperties = .ok criteria := by
  rw [filterCriteria] at h
  obtain ⟨each, heach, h⟩ := bind_eq_ok.mp h
  cases each with
  | nil => simp at h
  | cons p ps =>
    obtain rfl := Except.ok.inj h
    exact ⟨by simp, heach⟩

/-- A filter of which nothing is left is refused. -/
theorem filterCriteria_of_nothing {f : Argument} {ignoreNulls : Bool}
    (h : ∀ q ∈ f.toProperties,
      b.entry? q.name = none ∨ ignoreNulls = true ∧ q.value.isNull = true) :
    ∃ e, b.filterCriteria f ignoreNulls = .error e := by
  cases hcriteria : b.filterCriteria f ignoreNulls with
  | error e => exact ⟨e, rfl⟩
  | ok criteria =>
    obtain ⟨hnonempty, heach⟩ := filterCriteria_ok hcriteria
    obtain ⟨p, hp⟩ := List.exists_mem_of_ne_nil criteria hnonempty
    obtain ⟨q, hq, e, he, hcondition⟩ := filterEach_ok heach p hp
    rcases h q hq with hnone | ⟨rfl, hnull⟩
    · rw [hnone] at he
      simp at he
    · rcases hcondition with ⟨hvalue, -⟩ | ⟨-, hkept, -⟩
      · rw [hvalue] at hnull
        simp at hnull
      · simp at hkept

end Binding

end SchemaSql
