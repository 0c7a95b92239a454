import SchemaSql.Proofs.Catalog.Inquiries
import SchemaSql.Proofs.Name.Joined
import SchemaSql.Proofs.Text.Lowered

/-!
Lookups in a default schema. A name without a schema is given the text of the default schema as it
was configured, while the same text in front of a dot is read like every other part of a written
name. Both ways end at the same name if the text is plain, or if the name itself is written in
several parts, so that no schema in front of it is read. Otherwise the read schema is shorter than
the configured one, no lowercase form hides the difference, and a source that holds the object of
the read schema reports it only under the name that is written out.
-/

set_option autoImplicit false
set_option relaxedAutoImplicit false

namespace SchemaSql

theorem ObjectName.orSchema_of_eq_none {n : ObjectName} (h : n.schema = none) (schema : String) :
    n.orSchema (some schema) = ⟨some schema, n.name⟩ := by
  obtain ⟨_, name⟩ := n
  obtain rfl := h
  rfl

namespace Catalog

variable {σ α : Type}

/-! ### Lookups under two written names -/

/-- Two lookups that come to the same under two written names. They leave the same behind, and what
is missing is missing under its own name. -/
inductive Alike (kind : ObjectKind) (name name' : String) :
    EStateM.Result Error (Catalog σ × σ) α → EStateM.Result Error (Catalog σ × σ) α → Prop
  | found (a : α) (st : Catalog σ × σ) : Alike kind name name' (.ok a st) (.ok a st)
  | missing (st : Catalog σ × σ) :
    Alike kind name name' (.error (.missingObject kind name) st)
      (.error (.missingObject kind name') st)
  | failed (e : Error) (st : Catalog σ × σ) : Alike kind name name' (.error e st) (.error e st)

/-- Every kind of object is looked up alike under two written names. -/
structure LookedUpAlike (name name' : String) (st : Catalog σ × σ) : Prop where
  table : Alike .tableOrView name name' (table name st) (table name' st)
  procedure : Alike .procedure name name' (procedure name st) (procedure name' st)
  function : Alike .tableFunction name name' (function name st) (function name' st)

section Alike

variable {name name' : String} {m m' : ObjectName} {st : Catalog σ × σ}
  (hname : ObjectName.parse name = .ok m) (hname' : ObjectName.parse name' = .ok m')
  (hsame : m.orSchema st.1.defaultSchema = m'.orSchema st.1.defaultSchema)
include hname hname' hsame

/-- Written names that stand for the same are looked up alike. -/
theorem lookUp_alike (kind : ObjectKind) (finder : ObjectName → Lookup σ (Option α)) :
    Alike kind name name' (lookUp kind finder name st) (lookUp kind finder name' st) := by
  have hresolve : resolve name st = .ok (m.orSchema st.1.defaultSchema) st := by
    rw [resolve_apply, hname]
  have hresolve' : resolve name' st = .ok (m.orSchema st.1.defaultSchema) st := by
    rw [resolve_apply, hname', hsame]
  rw [lookUp, lookUp, Connection.bind_of_ok _ hresolve, Connection.bind_of_ok _ hresolve']
  cases hfind : finder (m.orSchema st.1.defaultSchema) st with
  | error e st' =>
    rw [Connection.bind_of_error _ hfind, Connection.bind_of_error _ hfind]
    exact .failed e st'
  | ok found st' =>
    rw [Connection.bind_of_ok _ hfind, Connection.bind_of_ok _ hfind]
    cases found with
    | none => exact .missing st'
    | some a => exact .found a st'

theorem lookedUpAlike_of_same : LookedUpAlike name name' st := by
  refine ⟨lookUp_alike hname hname' hsame .tableOrView findTable, ?_, ?_⟩
  · rw [procedure_apply, procedure_apply]
    split
    · exact lookUp_alike hname hname' hsame .procedure findProcedure
    · exact .failed _ st
  · rw [function_apply, function_apply]
    split
    · exact lookUp_alike hname hname' hsame .tableFunction findFunction
    · exact .failed _ st

end Alike

/-! ### The configured schema and the written one -/

/-- A new catalog of a schema answers to a written name what the schema has under it. -/
theorem answer_table_seen (S : Schema) (d : Dialect) (schema : Option String) (x : σ) {name : String}
    {m : ObjectName} (hname : ObjectName.parse name = .ok m) :
    Action.answer (table name) (S.seen d schema x {}) =
      reported .tableOrView name (S.table? (m.orSchema schema)) := by
  refine (lookUp_seen .tableOrView (fun c tables ↦ { c with tables }) findTable_seen hname
    {}).1.trans ?_
  rw [Shelf.fetch_nil]
  rfl

/-- The only table of a schema is not found in a shortened schema, nor in one that is longer. -/
theorem table?_singleton_eq_none {t : Table} {schema schema' name : String}
    (ht : t.name = ⟨some schema, name⟩) (hshorter : schema.toList.Sublist schema'.toList)
    (hne : schema ≠ schema') : Schema.table? { tables := [t] } ⟨some schema', name⟩ = none := by
  have hdiffer : t.name.same ⟨some schema', name⟩ = false := by
    rw [Bool.eq_false_iff, Ne, ObjectName.same_iff, ht]
    intro hfolded
    exact hne (Text.eq_of_lowercase_of_sublist hshorter
      (Option.some.inj (congrArg Prod.fst hfolded)))
  have hstrict : Schema.loosely t.name ⟨some schema', name⟩ = false := by
    rw [Schema.loosely, ht]
    rfl
  simp [Schema.table?, Schema.lookup?, hdiffer, hstrict]

section Joined

variable {s schema n : String} {m : ObjectName} (hs : ObjectName.OnePart s)
  (hschema : ObjectName.parse s = .ok ⟨none, schema⟩) (hn : ObjectName.parse n = .ok m)
  (hm : m.schema = none)
include hs hschema hn hm

/-- If the configured schema is not the one that it is read as, a source can tell them apart. -/
theorem exists_told_apart (hone : ObjectName.OnePart n) (hne : schema ≠ s) :
    ∃ c : Catalog Unit, c.defaultSchema = some s ∧ ¬ LookedUpAlike n (s ++ "." ++ n) (c, ()) := by
  let t := Table.make .sqlite ⟨some schema, m.name⟩ true []
  let S : Schema := { tables := [t] }
  refine ⟨(S.seen .sqlite (some s) () {}).1, rfl, fun halike ↦ ?_⟩
  have hwritten := ObjectName.parse_joined hs hschema hn hm
  rw [if_pos hone] at hwritten
  have hfound : Action.answer (table (s ++ "." ++ n)) (S.seen .sqlite (some s) () {}) = .ok t := by
    rw [answer_table_seen S .sqlite (some s) () hwritten]
    have hself : S.table? ⟨some schema, m.name⟩ = some t :=
      Schema.lookup?_of_bears (List.find?_cons_of_pos (ObjectName.same_self _))
    exact congrArg (reported .tableOrView _) hself
  have hmissing : Action.answer (table n) (S.seen .sqlite (some s) () {}) =
      .error (.missingObject .tableOrView n) := by
    rw [answer_table_seen S .sqlite (some s) () hn]
    have hnone : S.table? ⟨some s, m.name⟩ = none :=
      table?_singleton_eq_none rfl (ObjectName.part_eq_self_iff hs hschema).1 hne
    rw [ObjectName.orSchema_of_eq_none hm, hnone]
    rfl
  have htable := halike.table
  rw [Action.apply_of_answer_ok hfound, Action.apply_of_answer_error hmissing] at htable
  cases htable

/-- For every source, the default schema is like the schema that is written out in front of a name
exactly if it is configured as plain text, or if the name is written in several parts. -/
theorem lookedUpAlike_joined_iff :
    (∀ (σ : Type) (c : Catalog σ) (x : σ), c.defaultSchema = some s →
        LookedUpAlike n (s ++ "." ++ n) (c, x)) ↔
      ObjectName.Plain s ∨ ¬ ObjectName.OnePart n := by
  have hwritten := ObjectName.parse_joined hs hschema hn hm
  have hkey := ObjectName.orSchema_of_eq_none hm s
  constructor
  · intro halike
    by_contra hnot
    obtain ⟨hplain, hone⟩ := not_or.mp hnot
    have hne : schema ≠ s := fun h ↦ hplain ((ObjectName.part_eq_self_iff hs hschema).2.mp h)
    obtain ⟨c, hc, hapart⟩ := exists_told_apart hs hschema hn hm (not_not.mp hone) hne
    exact hapart (halike Unit c () hc)
  · intro h σ c x hc
    refine lookedUpAlike_of_same hn hwritten ?_
    rw [hc, hkey]
    by_cases hone : ObjectName.OnePart n
    · have hplain := h.resolve_right (not_not.mpr hone)
      rw [if_pos hone, (ObjectName.part_eq_self_iff hs hschema).2.mpr hplain]
      rfl
    · rw [if_neg hone, hkey]

end Joined

/-- A schema that is configured in brackets is not the one that is written in brackets; without them
it is. -/
theorem bracketedDefault_told_apart :
    (∃ (σ : Type) (c : Catalog σ) (x : σ), c.defaultSchema = some "[dbo]" ∧
      ¬ LookedUpAlike "Users" "[dbo].Users" (c, x)) ∧
    ∀ (σ : Type) (c : Catalog σ) (x : σ), c.defaultSchema = some "dbo" →
      LookedUpAlike "Users" "dbo.Users" (c, x) := by
  have hn : ObjectName.parse "Users" = .ok ⟨none, "Users"⟩ := by rfl
  have hbracketed : ObjectName.parse "[dbo]" = .ok ⟨none, "dbo"⟩ := by rfl
  have hplain : ObjectName.parse "dbo" = .ok ⟨none, "dbo"⟩ := by rfl
  constructor
  · by_contra hnever
    have halike := (lookedUpAlike_joined_iff (by decide) hbracketed hn rfl).mp fun σ c x hc ↦ by
      by_contra hapart
      exact hnever ⟨σ, c, x, hc, hapart⟩
    exact absurd halike (by decide)
  · exact (lookedUpAlike_joined_iff (by decide) hplain hn rfl).mpr (.inl (by decide))

end Catalog

end SchemaSql
