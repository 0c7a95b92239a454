import SchemaSql.Proofs.Binding.Clauses
import SchemaSql.Proofs.Command.SoftDelete
import SchemaSql.Proofs.Store.Updates

/-!
Which rows a query reads of a table whose rows a rule marks as deleted. The query that is to leave
marked rows out has one condition more than the query that reads them, that the marked column
differs from the mark or is null. Nothing differs from null, so that if the mark is null the
condition holds of the marked rows and of no others.
-/

set_option autoImplicit false
set_option relaxedAutoImplicit false

namespace SchemaSql

/-! ### The condition on the mark -/

/-- A row is without a mark that is not null, or with one that is. -/
theorem Predicate.truth_unmarked {sc : Scope} {r : Row} {c : Column} {p : Parameter} {mark : Value}
    (hvalue : sc.value p = mark) (hstored : (r.cell c.name).stored = r.cell c.name) :
    (unmarked c p).truth sc r = .yes ↔
      ((r.cell c.name).Holds mark ↔ mark.stored.isNull) := by
  rw [truth, hvalue, Truth.or_eq_yes, Truth.not_eq_yes, Truth.ofBool_eq_yes, Value.Holds,
    Value.equal, hstored]
  -- What is compared with null neither equals nor differs.
  cases hcell : (r.cell c.name).isNull <;> cases hmark : mark.stored.isNull <;>
    cases (r.cell c.name).same mark.stored <;> simp [Truth.ofBool]

section Reading

variable {d : Dialect} {shown found : Link} {sel : Select} {c : Column} {p : Parameter}
  (hshown : shown.statement = .select { sel with criteria := sel.criteria ++ [.unmarked c p] })
  (hwritten : shown.WrittenIn d)
  {r : Row} (hstored : (r.cell c.name).stored = r.cell c.name)
  (written : String → List Parameter → Row → Truth) (lastIdentity : Value)

include hshown

theorem Link.mem_parameters_of_unmarked {x : Parameter}
    (hx : x ∈ sel.criteria.flatMap Predicate.parameters ++ [p]) :
    x ∈ shown.statement.fragment.parameters := by
  rw [hshown, Statement.query_parameters, List.flatMap_append]
  exact List.mem_append_left _ (List.mem_append_right _ hx)

include hwritten hstored

theorem Link.truth_unmarked :
    (Predicate.unmarked c p).truth (shown.scope written lastIdentity) r = .yes ↔
      ((r.cell c.name).Holds p.value ↔ p.value.stored.isNull) := by
  refine Predicate.truth_unmarked (hwritten.valueAmong ?_) hstored
  exact mem_parameters_of_unmarked hshown
    (List.mem_append_right _ (List.mem_singleton_self p))

theorem Link.meets_unmarked (hfoundWritten : found.WrittenIn d)
    (hfound : found.statement = .select sel) :
    r.meets (shown.scope written lastIdentity) (sel.criteria ++ [.unmarked c p]) ↔
      r.meets (found.scope written lastIdentity) sel.criteria ∧
        ((r.cell c.name).Holds p.value ↔ p.value.stored.isNull) := by
  have hmeets : r.meets (shown.scope written lastIdentity) sel.criteria =
      r.meets (found.scope written lastIdentity) sel.criteria := by
    refine Link.meets_congr hwritten hfoundWritten (fun x hx ↦ ?_) (fun x hx ↦ ?_) _ _ r
    · exact mem_parameters_of_unmarked hshown (List.mem_append_left _ hx)
    · rw [hfound, Statement.query_parameters]
      exact List.mem_append_left _ (List.mem_append_right _ hx)
  rw [← hmeets, Row.meets_iff, Row.meets_iff, List.forall_mem_append, List.forall_mem_singleton,
    truth_unmarked hshown hwritten hstored]

end Reading

namespace Query

variable {env : Environment} {desired : Desired} {q : Query} {p : Predicate}

/-- The query that reads rows marked as deleted too. -/
def withDeleted (q : Query) : Query := { q with includeDeleted := true }

theorem predicates_withDeleted {b : Binding} {criteria : List Predicate}
    (hhides : q.includeDeleted = false) (hp : q.source.readCriterion? env.rules = some p)
    (h : q.predicates env b = .ok criteria) :
    ∃ found, q.withDeleted.predicates env b = .ok found ∧ criteria = found ++ [p] := by
  rw [predicates_eq] at h
  obtain ⟨found, hfound, h⟩ := bind_eq_ok.mp h
  obtain ⟨keys, hkeys, h⟩ := bind_eq_ok.mp h
  obtain rfl := Except.ok.inj h
  refine ⟨found ++ keys, ?_, by simp [hhides, hp]⟩
  rw [predicates_eq]
  refine bind_eq_ok.mpr ⟨found, hfound, bind_eq_ok.mpr ⟨keys, hkeys, ?_⟩⟩
  simp [withDeleted]

theorem statement_withDeleted {s : Statement} (hhides : q.includeDeleted = false)
    (hp : q.source.readCriterion? env.rules = some p) (h : q.statement env desired = .ok s) :
    ∃ found : Select, q.withDeleted.statement env desired = .ok (.select found) ∧
      s = .select { found with criteria := found.criteria ++ [p] } := by
  obtain ⟨⟨projection, terms, limits, b⟩, hplan, h⟩ := bind_eq_ok.mp h
  obtain ⟨source, hsource, h⟩ := bind_eq_ok.mp h
  obtain ⟨criteria, hcriteria, h⟩ := bind_eq_ok.mp h
  obtain ⟨found, hfound, rfl⟩ := predicates_withDeleted hhides hp hcriteria
  obtain rfl := Except.ok.inj h
  refine ⟨_, bind_eq_ok.mpr ⟨(projection, terms, limits, b), hplan,
    bind_eq_ok.mpr ⟨source, hsource, bind_eq_ok.mpr ⟨found, hfound, rfl⟩⟩⟩, rfl⟩

/-- A query has one condition more than the query that reads marked rows too. -/
theorem prepare_withDeleted {chain : Chain} (hhides : q.includeDeleted = false)
    (hp : q.source.readCriterion? env.rules = some p) (h : q.prepare env desired = .ok chain) :
    ∃ (shown found : Link) (s : Select), chain = [shown] ∧
      q.withDeleted.prepare env desired = .ok [found] ∧
      shown.WrittenIn env.dialect ∧ found.WrittenIn env.dialect ∧
      shown.statement = .select { s with criteria := s.criteria ++ [p] } ∧
      found.statement = .select s := by
  obtain ⟨s, hs, h⟩ := bind_eq_ok.mp h
  obtain ⟨shown, hshown, h⟩ := bind_eq_ok.mp h
  obtain rfl := Except.ok.inj h
  obtain ⟨found, hfound, rfl⟩ := statement_withDeleted hhides hp hs
  obtain ⟨hwritten, -, hstatement, -⟩ := Link.ofStatement_ok hshown
  -- The query without the condition has only some of the parameters, so that it can be written.
  have hfewer : List.Sublist (Statement.select found).fragment.parameters
      shown.statement.fragment.parameters := by
    rw [hstatement, Statement.query_parameters, Statement.query_parameters, List.flatMap_append]
    exact ((List.Sublist.refl _).append (List.sublist_append_left _ _)).append (List.Sublist.refl _)
  obtain ⟨l, hl⟩ := Link.ofStatement_of_distinctNames (d := env.dialect) q.withDeleted.operation
    (hwritten.distinctNames.sublist hfewer)
  obtain ⟨hlWritten, -, hlStatement, -⟩ := Link.ofStatement_ok hl
  exact ⟨shown, l, found, rfl, bind_eq_ok.mpr ⟨_, hfound, bind_eq_ok.mpr ⟨l, hl, rfl⟩⟩, hwritten,
    hlWritten, hstatement, hlStatement⟩

end Query

/-! ### Rows that deletions leave -/

/-- A chain whose other links read rows has at most one update. -/
theorem Link.eq_of_update {before after : List Link} {l write : Link}
    (hreads : ∀ l ∈ before ++ after, ∃ q, l.statement = .select q)
    (hl : l ∈ before ++ write :: after) {u : Update} (hu : l.statement = .update u) :
    l = write := by
  by_contra hother
  have hread : l ∈ before ++ after := by
    simp only [List.mem_append, List.mem_cons, hother, false_or] at hl ⊢
    exact hl
  obtain ⟨q, hq⟩ := hreads l hread
  cases hu.symm.trans hq

/-- An update that sets a column leaves the rows that it changes with the value in the column, if no
other column that it assigns has the name. -/
theorem Link.Sets.cell_eq {l : Link} {c : Column} {v : Value} (h : l.Sets c v) {u : Update}
    (hu : l.statement = .update u)
    (hname : ∀ a ∈ u.assignments, Text.sameAscii a.column.name c.name → a.column = c)
    {written : String → List Parameter → Row → Truth} {lastIdentity : Value}
    {stored stored' : StoredTable} {changes : List Change} (hfits : stored.Fits)
    (hupdate : stored.update (l.scope written lastIdentity) u = .ok (stored', changes))
    {change : Change} (hchange : change ∈ changes) :
    ∃ w, change.after = some w ∧ (stored'.row w).cell c.name = v.stored := by
  obtain ⟨u', p, hu', hsets, hvalue⟩ := h
  obtain rfl := Statement.update.inj (hu.symm.trans hu')
  obtain ⟨hcolumns, hsame, hchanges⟩ := StoredTable.update_ok hupdate
  obtain ⟨w, hw, -, rfl⟩ := hchanges change hchange
  have hmem : (⟨c, .parameter p⟩ : Assignment) ∈ u.assignments := by
    refine List.mem_of_mem_filter (p := fun a ↦ a.column = c) ?_
    rw [hsets]
    exact List.mem_singleton_self _
  have hfirst : u.assignments.find? (fun a ↦ Text.sameAscii a.column.name c.name) =
      some ⟨c, .parameter p⟩ := by
    have hnamed : u.assignments.filter (fun a ↦ Text.sameAscii a.column.name c.name) =
        u.assignments.filter (fun a ↦ a.column = c) := by
      refine List.filter_congr fun a ha ↦ Bool.eq_iff_iff.mpr ⟨fun hsame ↦ ?_, fun hsame ↦ ?_⟩
      · exact decide_eq_true (hname a ha hsame)
      · rw [of_decide_eq_true hsame, Text.sameAscii_self]
    rw [← List.head?_filter, hnamed, hsets]
    rfl
  refine ⟨_, rfl, ?_⟩
  have hrow (v : List Value) : stored'.row v = stored.row v := by
    rw [StoredTable.row, StoredTable.columnNames, hsame]
    rfl
  rw [hrow, StoredTable.cell_assign (hfits w hw) (hcolumns _ hmem) hfirst]
  exact congrArg Value.stored hvalue

namespace Command

variable {env : Environment} {desired : Desired} {t : Table} {s : SoftDelete} {flag : Column}
  {b : Binding} {chain : Chain}

theorem DeletesFrom.prepareDeletion {c : Command} (hc : c.DeletesFrom t)
    (h : prepare env desired c = .ok chain) :
    ∃ b criteria byKey check, b.frame = (binding env t).frame ∧ b.BoundOnce ∧
      prepareDeletion env desired t b criteria byKey check = .ok chain := by
  obtain ⟨x, hx, hprepare⟩ := hc.exists_deletion env desired
  obtain ⟨d, hd, h⟩ := bind_eq_ok.mp ((hprepare env.rules).symm.trans h)
  obtain ⟨hframe, honce⟩ := hx d hd
  exact ⟨d.binding, d.criteria, d.byKey, d.check, hframe, honce, h⟩

section Deletion

variable {criteria : List Predicate} {byKey : Bool} {check : RowCheck}
  (hframe : b.frame = (binding env t).frame)
  (hrule : env.rules.softDelete? t = some (s, flag))
  (h : prepareDeletion env desired t b criteria byKey check = .ok chain)
  {l : Link} (hl : l ∈ chain) {u : Update} (hu : l.statement = .update u)

include hframe hrule h hl hu

theorem prepareDeletion_columns : ∀ a ∈ u.assignments, a.column ∈ t.columns := by
  obtain ⟨values, hvalues⟩ : ∃ values, env.rules.softDeleteValues? env.now t = some values :=
    ⟨_, by rw [Rules.softDeleteValues?, hrule]; rfl⟩
  rw [prepareDeletion_of_some env desired t b criteria byKey check hvalues] at h
  obtain ⟨c, hc, h⟩ := bind_eq_ok.mp h
  obtain ⟨r, hr, h⟩ := bind_eq_ok.mp h
  obtain ⟨as, output, has, -, before, write, after, rfl, hwrite, hreads⟩ :=
    WritePlan.updateChain_ok h
  have hcolumns : r.1.entries.map (·.column) = t.columns :=
    columns_eq (((returningFor_ok hr).1.trans (Binding.frame_applyUpdateValues hc)).trans hframe)
  obtain rfl := Link.eq_of_update (fun l hl ↦ ⟨_, hreads l hl⟩) hl hu
  obtain rfl := Statement.update.inj (hu.symm.trans hwrite)
  intro a ha
  rw [Binding.assignments_ok has] at ha
  obtain ⟨e, he, rfl⟩ := List.mem_map.mp ha
  rw [← hcolumns]
  exact List.mem_map_of_mem (List.mem_of_mem_filter he)

theorem prepareDeletion_sets (honce : b.BoundOnce)
    (hkeeps : env.rules.KeepsMark env.now t s flag) : l.Sets flag s.deleted := by
  obtain ⟨plain, write, -, ⟨⟨before, after, rfl, hreads⟩, -⟩, hsets⟩ :=
    prepareDeletion_softDelete hframe honce hrule h
  obtain rfl := Link.eq_of_update hreads hl hu
  exact hsets.mpr hkeeps

end Deletion

/-- A row as an update leaves it that stands for a deletion by the rule, where the mark is the last
value that the update means for the marked column. -/
def LeavesMarked (t : Table) (s : SoftDelete) (flag : Column) (r : Row) : Prop :=
  ∃ env desired c chain, env.rules.softDelete? t = some (s, flag) ∧
    env.rules.KeepsMark env.now t s flag ∧ DeletesFrom t c ∧ prepare env desired c = .ok chain ∧
    ∃ l ∈ chain, ∃ u, l.statement = .update u ∧
      ∃ written lastIdentity, ∃ stored stored' : StoredTable, ∃ changes, stored.Fits ∧
        stored.update (l.scope written lastIdentity) u = .ok (stored', changes) ∧
        ∃ change ∈ changes, ∃ v, change.after = some v ∧ r = stored'.row v

theorem LeavesMarked.cell_eq {r : Row} (h : LeavesMarked t s flag r)
    (hname : ∀ c ∈ t.columns, Text.sameAscii c.name flag.name → c = flag) :
    r.cell flag.name = s.deleted.stored := by
  obtain ⟨env, desired, c, chain, hrule, hkeeps, hc, h, l, hl, u, hu, written, lastIdentity,
    stored, stored', changes, hfits, hupdate, change, hchange, v, hafter, rfl⟩ := h
  obtain ⟨b, criteria, byKey, check, hframe, honce, h⟩ := hc.prepareDeletion h
  have hcolumns := prepareDeletion_columns hframe hrule h hl hu
  have hsets := prepareDeletion_sets hframe hrule h hl hu honce hkeeps
  obtain ⟨w, hw, hcell⟩ := hsets.cell_eq hu (fun a ha ↦ hname a.column (hcolumns a ha)) hfits
    hupdate hchange
  obtain rfl := Option.some.inj (hafter.symm.trans hw)
  exact hcell

/-- A query that leaves marked rows out has one condition more than the query that reads them. If
the mark is not null, the condition holds of the rows without the mark, and of none that a deletion
has left; but if the mark is null, it holds of the rows with the mark, those of deletions among
them, and of no others. -/
theorem prepare_query_unmarked {q : Query} (hsource : q.source = .table t)
    (hhides : q.includeDeleted = false) (hrule : env.rules.softDelete? t = some (s, flag))
    (h : prepare env desired (.query q) = .ok chain) :
    ∃ (shown found : Link) (sel : Select) (p : Predicate), chain = [shown] ∧
      prepare env desired (.query q.withDeleted) = .ok [found] ∧
      shown.statement = .select { sel with criteria := sel.criteria ++ [p] } ∧
      found.statement = .select sel ∧ env.rules.readCriterion? t = some p ∧
      (∀ written lastIdentity, ∀ r : Row, (r.cell flag.name).stored = r.cell flag.name →
        (p.truth (shown.scope written lastIdentity) r = .yes ↔
          ((r.cell flag.name).Holds s.deleted ↔ s.deleted.stored.isNull)) ∧
        (r.meets (shown.scope written lastIdentity) (sel.criteria ++ [p]) ↔
          r.meets (found.scope written lastIdentity) sel.criteria ∧
            ((r.cell flag.name).Holds s.deleted ↔ s.deleted.stored.isNull))) ∧
      ((∀ c ∈ t.columns, Text.sameAscii c.name flag.name → c = flag) →
        ∀ r, LeavesMarked t s flag r → ∀ written lastIdentity,
          (r.meets (shown.scope written lastIdentity) (sel.criteria ++ [p]) ↔
            r.meets (found.scope written lastIdentity) sel.criteria ∧
              s.deleted.stored.isNull)) := by
  obtain ⟨p, hp, hread⟩ : ∃ p, env.rules.readCriterion? t = some (.unmarked flag p) ∧
      p.value = s.deleted := ⟨_, by rw [Rules.readCriterion?, hrule]; rfl, rfl⟩
  obtain ⟨shown, found, sel, rfl, hfound, hshownWritten, hfoundWritten, hshown, hall⟩ :=
    Query.prepare_withDeleted hhides (by rw [hsource]; exact hp) h
  rw [← hread]
  have hmeets (written : String → List Parameter → Row → Truth) (lastIdentity : Value) {r : Row}
      (hstored : (r.cell flag.name).stored = r.cell flag.name) :=
    Link.meets_unmarked hshown hshownWritten hstored written lastIdentity hfoundWritten hall
  refine ⟨shown, found, sel, .unmarked flag p, rfl, hfound, hshown, hall, hp, ?_, ?_⟩
  · intro written lastIdentity r hstored
    exact ⟨Link.truth_unmarked hshown hshownWritten hstored written lastIdentity,
      hmeets written lastIdentity hstored⟩
  · intro hname r hmarked written lastIdentity
    have hcell : r.cell flag.name = p.value.stored := hread ▸ hmarked.cell_eq hname
    have hholds : (r.cell flag.name).Holds p.value := hcell ▸ Value.holds_stored p.value
    rw [hmeets written lastIdentity (by rw [hcell, Value.stored_stored])]
    simp only [hholds, true_iff]

/-- Removed users are marked by null. -/
def nullMarks (d : Dialect) : Environment where
  dialect := d
  rules := { softDeletes := [⟨"Removed", .null⟩] }

/-- A user as it is stored, with a mark. -/
def storedUser (d : Dialect) (key mark : Value) : Row :=
  ⟨(Users.table d).columns.map (·.name), [key, .text "Ann", mark]⟩

/-- Users as they are stored, with their marks. -/
def storedUsers (d : Dialect) (users : List (Value × Value)) : StoredTable where
  name := ⟨none, "Users"⟩
  columns := (Users.table d).columns.map fun c ↦ { name := c.name }
  rows := users.map fun u ↦ (storedUser d u.1 u.2).values

/-- The update that stands for a deletion of a user by key. -/
def removal (d : Dialect) (key : Value) : Update where
  target := (Users.table d).target
  assignments := [⟨Users.removed d, .parameter ((Users.removed d).parameter .null .audit)⟩]
  criteria := [.equals (Users.id d) (Binding.keyParameter (Users.id d) 0 key)]

def removalLink (d : Dialect) (key : Value) : Link where
  operation := "SoftDelete"
  statement := .update (removal d key)
  text := "UPDATE \"Users\" SET \"Removed\" = ? WHERE \"Id\" = ?;"
  parameters := (Statement.update (removal d key)).fragment.parameters
  mode := .count
  check := .atMostOne

theorem leavesMarked_storedUser :
    LeavesMarked (Users.table .sqlite) ⟨"Removed", .null⟩ (Users.removed .sqlite)
      (storedUser .sqlite (.int 2) .null) := by
  have hupdate : (storedUsers .sqlite [(.int 1, .int 0), (.int 2, .int 0)]).update
      ((removalLink .sqlite (.int 2)).scope (fun _ _ _ ↦ .unknown) .null)
      (removal .sqlite (.int 2)) =
        .ok (storedUsers .sqlite [(.int 1, .int 0), (.int 2, .null)],
          [⟨some (storedUser .sqlite (.int 2) (.int 0)).values,
            some (storedUser .sqlite (.int 2) .null).values⟩]) := by decide +kernel
  refine ⟨nullMarks .sqlite, .none, .deleteKeys (Users.table .sqlite) [.int 2],
    [removalLink .sqlite (.int 2)], by decide +kernel, by decide +kernel, rfl, by decide +kernel,
    _, List.mem_singleton_self _, removal .sqlite (.int 2), rfl, _, _, _, _, _, ?_, hupdate,
    _, List.mem_singleton_self _, _, rfl, rfl⟩
  decide +kernel

/-- If null is the mark, the users that are removed are read, and no others. -/
theorem users_marked_by_null :
    ∃ shown sel, prepare (nullMarks .sqlite) .none (.query (Query.ofTable (Users.table .sqlite))) =
        .ok [shown] ∧ shown.statement = .select sel ∧ ∀ written lastIdentity,
      (storedUser .sqlite (.int 2) .null).meets (shown.scope written lastIdentity) sel.criteria ∧
      (storedUser .sqlite (.int 1) (.int 0)).meets (shown.scope written lastIdentity)
        sel.criteria = false := by
  have hok : (prepare (nullMarks .sqlite) .none
      (.query (Query.ofTable (Users.table .sqlite)))).toOption.isSome := by decide +kernel
  have hrule : (nullMarks .sqlite).rules.softDelete? (Users.table .sqlite) =
      some (⟨"Removed", .null⟩, Users.removed .sqlite) := by decide +kernel
  have hname : ∀ c ∈ (Users.table .sqlite).columns,
      Text.sameAscii c.name (Users.removed .sqlite).name → c = Users.removed .sqlite := by
    decide +kernel
  have hnone : (prepare (nullMarks .sqlite) .none
      (.query (Query.ofTable (Users.table .sqlite)).withDeleted)).toOption.all fun c ↦
        c.all fun l ↦
          match l.statement with
          | .select sel => sel.criteria.isEmpty
          | _ => false := by decide +kernel
  obtain ⟨chain, hchain⟩ := exists_ok_of_isSome hok
  obtain ⟨shown, found, sel, p, rfl, hfound, hshown, hall, -, hreads, hleft⟩ :=
    prepare_query_unmarked rfl rfl hrule hchain
  have hcriteria : sel.criteria = [] := by
    rw [hfound] at hnone
    have hempty := List.all_eq_true.mp hnone found (List.mem_singleton_self _)
    rw [hall] at hempty
    exact List.isEmpty_iff.mp hempty
  refine ⟨shown, _, hchain, hshown, fun written lastIdentity ↦ ⟨?_, ?_⟩⟩
  · refine (hleft hname _ leavesMarked_storedUser written lastIdentity).mpr ⟨?_, rfl⟩
    rw [hcriteria]
    rfl
  · rw [Bool.eq_false_iff]
    intro hmeets
    have hheld := ((hreads written lastIdentity _ (by decide +kernel)).2.mp hmeets).2.mpr rfl
    revert hheld
    decide +kernel

end Command

end SchemaSql
