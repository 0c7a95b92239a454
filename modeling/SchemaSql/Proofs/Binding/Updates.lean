import SchemaSql.Proofs.Binding.Bound

/-!
Updates of named columns to given values. A column may be given several values under its names, and
takes the last of them.
-/

set_option autoImplicit false
set_option relaxedAutoImplicit false

namespace SchemaSql

/-- The last of some values that is given under a name of the column. -/
def Table.lastFor? (t : Table) (c : Column) (values : List (String × Value)) : Option Value :=
  (values.reverse.find? fun x ↦ t.column? x.1 = some c).map (·.2)

theorem Table.lastFor?_append (t : Table) (c : Column) (values : List (String × Value))
    (name : String) (value : Value) :
    t.lastFor? c (values ++ [(name, value)]) =
      if t.column? name = some c then some value else t.lastFor? c values := by
  by_cases hcolumn : t.column? name = some c <;> simp [lastFor?, hcolumn]

namespace Binding

/-- After some values exactly their columns are updated, each to the last value that it is given. -/
structure Updated (t : Table) (values : List (String × Value)) (b : Binding) : Prop where
  columns : b.entries.map (·.column) = t.columns
  once : b.BoundOnce
  value : ∀ e ∈ b.entries, e.update → ∃ v, t.lastFor? e.column values = some v ∧ e.value = some v
  reached : ∀ c v, t.lastFor? c values = some v → ∃ e ∈ b.entries, e.update ∧ e.column = c

namespace Updated

variable {t : Table} {values : List (String × Value)} {b b' : Binding} {origin : Origin}

theorem change (h : b.Updated t values) {name : String} (value : Value)
    (hname : (b.entry? name).isSome) :
    (b.changed name (updated value origin)).Updated t (values ++ [(name, value)]) := by
  obtain ⟨e₀, he₀⟩ := Option.isSome_iff_exists.mp hname
  have hcolumn : t.column? name = some e₀.column := by
    rw [Table.column?, ← h.columns, List.find?_map]
    exact congrArg (Option.map (·.column)) he₀
  have hanswers : e₀.column.answersTo name = true := by simpa using List.find?_some he₀
  obtain ⟨before, after, hentries, hbefore, hchanged⟩ :=
    changeFirst_eq (f := updated value origin) he₀
  have honce := h.once
  rw [BoundOnce, hentries] at honce
  obtain ⟨-, hpost, -⟩ := List.pairwise_append.mp honce
  have hother {c : Column} (hc : e₀.column ≠ c) :
      t.lastFor? c (values ++ [(name, value)]) = t.lastFor? c values := by
    rw [Table.lastFor?_append, hcolumn, if_neg fun heq ↦ hc (Option.some.inj heq)]
  have hlast : t.lastFor? e₀.column (values ++ [(name, value)]) = some value := by
    rw [Table.lastFor?_append, if_pos hcolumn]
  have hmem {e : Entry} : e ∈ (b.changed name (updated value origin)).entries ↔
      e ∈ before ∨ e = updated value origin e₀ ∨ e ∈ after := by
    rw [changed, hchanged, List.mem_append, List.mem_cons]
  have hold {e : Entry} : e ∈ b.entries ↔ e ∈ before ∨ e = e₀ ∨ e ∈ after := by
    rw [hentries, List.mem_append, List.mem_cons]
  refine ⟨?_, h.once.changed name fun _ ↦ rfl, ?_, ?_⟩
  · rw [← h.columns]
    exact map_changeFirst fun _ ↦ rfl
  · intro e he hupdate
    rcases hmem.mp he with hin | rfl | hin
    · have hne : e₀.column ≠ e.column := by
        intro heq
        rw [heq, hbefore e hin] at hanswers
        simp at hanswers
      rw [hother hne]
      exact h.value e (hold.mpr (.inl hin)) hupdate
    · exact ⟨value, hlast, rfl⟩
    · -- A bound entry behind the changed one has another column.
      obtain ⟨v, hv, hvalue⟩ := h.value e (hold.mpr (.inr (.inr hin))) hupdate
      have hbound : e.isBound := by rw [Entry.isBound, hvalue]; rfl
      have hne : e.column ≠ e₀.column := (List.pairwise_cons.mp hpost).1 e hin hbound
      rw [hother hne.symm]
      exact ⟨v, hv, hvalue⟩
  · intro c v hv
    by_cases hc : e₀.column = c
    · exact ⟨updated value origin e₀, hmem.mpr (.inr (.inl rfl)), rfl, hc⟩
    · rw [hother hc] at hv
      obtain ⟨e, he, hupdate, rfl⟩ := h.reached c v hv
      rcases hold.mp he with hin | rfl | hin
      · exact ⟨e, hmem.mpr (.inl hin), hupdate, rfl⟩
      · exact absurd rfl hc
      · exact ⟨e, hmem.mpr (.inr (.inr hin)), hupdate, rfl⟩

theorem bindUpdates {more : List (String × Value)} (h : b.Updated t values)
    (hok : b.apply (Binding.bindUpdates origin more) = .ok b') : b'.Updated t (values ++ more) := by
  induction more generalizing b values with
  | nil =>
    obtain rfl := Except.ok.inj hok
    rwa [List.append_nil]
  | cons x more ih =>
    rw [apply_bindUpdates_cons] at hok
    obtain ⟨c, hchange, hok⟩ := bind_eq_ok.mp hok
    obtain ⟨hname, rfl⟩ := apply_change_ok hchange
    rw [List.append_cons]
    exact ih (h.change x.2 hname) hok

theorem applyUpdateValues (hcolumns : b.entries.map (·.column) = t.columns) (hb : b.BoundOnce)
    (hok : b.apply (Binding.applyUpdateValues values origin) = .ok b') : b'.Updated t values := by
  rw [apply_applyUpdateValues] at hok
  have hstart : (b.mapEntries fun e ↦ { e with update := false }).Updated t [] := by
    refine ⟨?_, hb.mapEntries (fun _ ↦ rfl) fun _ ↦ id, ?_, ?_⟩
    · rw [← hcolumns]
      simp [Binding.mapEntries]
    · intro e he hupdate
      obtain ⟨e₀, -, rfl⟩ := List.mem_map.mp he
      simp at hupdate
    · intro c v hv
      cases hv
  exact hstart.bindUpdates hok

/-- Updated entries are bound, so that no two of them have one column. -/
theorem pairwise (h : b.Updated t values) :
    (b.entries.filter (·.update)).Pairwise fun e e' ↦ e.column ≠ e'.column := by
  refine List.Pairwise.imp_of_mem ?_ (List.Pairwise.filter _ h.once)
  intro e e' _ he' hdistinct hsame
  obtain ⟨hentry, hupdate⟩ := List.mem_filter.mp he'
  obtain ⟨v, -, hvalue⟩ := h.value e' hentry hupdate
  exact hdistinct (by rw [Entry.isBound, hvalue]; rfl) hsame.symm

end Updated

end Binding

end SchemaSql
