import SchemaSql.Proofs.Command.Listed
import SchemaSql.Proofs.Statement.Texts

/-!
What an insert writes. A column of the table is listed if it has a value and may be written, and its
value is the one that the last rule for inserts gives it or else the last property of the argument.
The row keeps the order of the table and repeats no column, and the text lists its columns and the
placeholders of their values in that same order, so that no value is lost or lands elsewhere.
-/

set_option autoImplicit false
set_option relaxedAutoImplicit false

namespace SchemaSql

namespace Command

variable {env : Environment} {desired : Desired} {t : Table} {a : Argument} {o : InsertOptions}
  {b : Binding} {chain : Chain}

/-- The value that an insert gives a column: that of the last rule for inserts that means it or,
without one, that of the last property that does. -/
def insertedValue? (env : Environment) (t : Table) (a : Argument) (c : Column) : Option Value :=
  match ((env.rules.about t c).filter (·.onInsert)).getLast? with
  | some v => some (v.value.resolve env.now)
  | none => a.valueFor? t c

theorem ruled_insertedValue? (marks : Bool) (c : Column) :
    ((a.entryFor t marks c).ruled env.now ((env.rules.about t c).filter (·.onInsert))).value =
      insertedValue? env t a c := by
  rw [Entry.value_ruled, Argument.entryFor_value]
  rfl

/-- The binding of an insert makes of every column what the argument and then the rules give it. -/
theorem insertBinding_makes (hb : insertBinding env t a o = .ok b) :
    b.BoundOnce ∧ b.Makes t (o.identityInsert, false, false) fun c ↦
      (a.entryFor t false c).ruled env.now ((env.rules.about t c).filter (·.onInsert)) := by
  obtain ⟨c, hc, rfl⟩ := map_eq_ok.mp hb
  constructor
  · have honce := (boundOnce_binding env t).bindArgument hc
    exact (honce.withIdentities o.identityInsert).bindWhere env.rules (·.onInsert) env.now
  · have hmakes := Binding.Makes.ofArgument hc
    exact (hmakes.withIdentities o.identityInsert).bindWhere env.rules (·.onInsert) env.now

/-- An insert writes the columns of the table that have a value and may be written. -/
theorem mem_insertBinding_iff (hb : insertBinding env t a o = .ok b) {c : Column} {v : Value} :
    (c, v) ∈ b.insertValues ↔ c ∈ t.columns ∧
      (c.isWritable ∨ o.identityInsert ∧ c.isIdentity) ∧ insertedValue? env t a c = some v := by
  obtain ⟨honce, hmakes⟩ := insertBinding_makes hb
  rw [hmakes.mem_insertValues honce, ruled_insertedValue?, Binding.insertable_eq hmakes.choices,
    Entry.ruled_column, Argument.entryFor_column]
  simp

/-- The first link of an insert adds the row of its binding. -/
theorem prepareInsert_addsRow (h : prepareInsert env desired t a o = .ok chain) :
    ∃ (b : Binding) (p : WritePlan), insertBinding env t a o = .ok b ∧
      p.binding.frame = (binding env t).frame ∧ p.binding.unread = b.unread ∧
      p.binding.BoundOnce ∧ p.AddsRow chain := by
  rw [prepareInsert_eq] at h
  obtain ⟨b, hb, h⟩ := bind_eq_ok.mp h
  obtain ⟨r, hr, h⟩ := bind_eq_ok.mp h
  have hadded : insertBinding env t a o =
      .ok (env.rules.bindInsert env.now (b.withIdentities o.identityInsert)) := by
    rw [insertBinding, hb]
    rfl
  obtain ⟨hframe, hunread, honce⟩ := returningFor_ok hr
  refine ⟨_, _, hadded, ?_, hunread, honce (insertBinding_makes hadded).1,
    WritePlan.insertChain_addsRow h⟩
  calc r.1.frame
      = (env.rules.bindInsert env.now (b.withIdentities o.identityInsert)).frame := hframe
    _ = (b.withIdentities o.identityInsert).frame := Binding.frame_bindWhere _ _ _ _
    _ = b.frame := Binding.frame_withIdentities _ b
    _ = (binding env t).frame := Binding.frame_bindArgument hb

end Command

end SchemaSql
