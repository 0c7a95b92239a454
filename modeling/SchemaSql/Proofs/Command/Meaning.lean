import SchemaSql.Command.Query
import SchemaSql.Proofs.Binding.Bound
import SchemaSql.Proofs.Catalog.Answering
import SchemaSql.Proofs.Users

/-!
What a name means wherever a request or a rule gives one: as a property of an argument or a filter,
among the columns wanted back, sorted by, counted or made the key, in the rules, and in the values
that mark a deleted row. All of these take the first column that answers to the name, so that a name
which one column alone answers to means that column in every place. In a table whose property names
differ these are the property name of each column, and its own name unless it is lost with the
markers in front of it; such a name means nothing at all.
-/

set_option autoImplicit false
set_option relaxedAutoImplicit false

namespace SchemaSql

/-! ### Changes of the entry of a column -/

namespace Binding

/-- The entries are those of the table's columns. -/
def Over (t : Table) (b : Binding) : Prop := b.entries.map (·.column) = t.columns

/-- The binding with the entry of a column changed. -/
def changedAt (c : Column) (f : Entry → Entry) (b : Binding) : Binding :=
  b.mapEntries fun e ↦ if e.column = c then f e else e

variable {t : Table} {b : Binding} {c : Column} {name : String}

theorem Over.entry? (hb : b.Over t) (h : t.column? name = some c) :
    ∃ e, b.entry? name = some e ∧ e.column = c := by
  rw [Table.column?, ← hb, List.find?_map] at h
  exact Option.map_eq_some_iff.mp h

theorem Over.of_changed (hb : b.Over t) {f : Entry → Entry} (hf : ∀ e, (f e).column = e.column)
    (name : String) : (b.changed name f).Over t :=
  (map_changeFirst hf).trans hb

/-- Where every column has one entry, a change by name is one of the entry of the column that the
name means. -/
theorem Over.changed_eq (hb : b.Over t) (hnodup : t.columns.Nodup) (h : t.column? name = some c)
    (f : Entry → Entry) : b.changed name f = b.changedAt c f := by
  obtain ⟨e₀, he₀, rfl⟩ := hb.entry? h
  obtain ⟨before, after, hentries, -, hchanged⟩ := changeFirst_eq (f := f) he₀
  rw [← hb, hentries, List.map_append, List.map_cons] at hnodup
  obtain ⟨-, htail, hcross⟩ := List.nodup_append'.mp hnodup
  have hkept {es : List Entry} (hes : ∀ e ∈ es, e.column ≠ e₀.column) :
      es.map (fun e ↦ if e.column = e₀.column then f e else e) = es := by
    conv_rhs => rw [← List.map_id es]
    exact List.map_congr_left fun e he ↦ if_neg (hes e he)
  have hbefore : ∀ e ∈ before, e.column ≠ e₀.column := fun e he hsame ↦
    hcross (List.mem_map_of_mem he) (hsame ▸ List.mem_cons_self)
  have hafter : ∀ e ∈ after, e.column ≠ e₀.column := fun e he hsame ↦
    (List.nodup_cons.mp htail).1 (hsame ▸ List.mem_map_of_mem he)
  rw [changed, changedAt, mapEntries, hchanged, hentries, List.map_append, List.map_cons,
    hkept hbefore, hkept hafter, if_pos rfl]

end Binding

/-! ### Places -/

/-- The condition that a value in a filter stands for at a column, if it counts. -/
def Column.condition? (c : Column) (ignoreNulls : Bool) (value : Value) : Option Predicate :=
  if value.isNull then if ignoreNulls then none else some (.isNull c)
  else some (.equals c (c.parameter value .filter))

open Binding in
/-- In every place the name means the column, and nothing else. -/
structure Table.Resolves (t : Table) (name : String) (c : Column) : Prop where
  column : t.column? name = some c
  argument : ∀ b : Binding, b.Over t → ∀ marks value isKey rest,
    b.apply (bindProperties marks (⟨name, value, isKey⟩ :: rest)) =
      (b.changedAt c (bound marks ⟨name, value, isKey⟩)).apply (bindProperties marks rest)
  filter : ∀ b : Binding, b.Over t → ∀ ignoreNulls value isKey rest,
    b.filterEach ignoreNulls (⟨name, value, isKey⟩ :: rest) =
      (b.filterEach ignoreNulls rest).map ((c.condition? ignoreNulls value).toList ++ ·)
  desired : ∀ b : Binding, b.Over t → ∀ rest,
    b.apply (applyDesired (.named (name :: rest))) = (b.changedAt c markRead).apply (readNamed rest)
  sorting : ∀ b : Binding, b.Over t → ∀ descending rest,
    b.orderTerms (⟨name, descending⟩ :: rest) = (b.orderTerms rest).map (⟨c, descending⟩ :: ·)
  keys : ∀ b : Binding, b.Over t → ∀ rest, (∀ k ∈ rest, (t.column? k).isSome) →
    b.apply (overrideKeys (name :: rest)) =
      .ok (b.mapEntries fun e ↦
        { e with isKey := e.column = c || rest.any fun k ↦ e.column.answersTo k }).refreshed
  countDistinct : ∀ b : Binding, b.Over t → ∀ env : Environment, env.dialect.supportsCountDistinct →
    Query.aggregateProjection env b {} (.countDistinct name) = .ok (.countDistinct c)
  ruleValue : ∀ b : Binding, b.Over t → ∀ value,
    b.bindRule name value = (b.changedAt c (Entry.bind value .audit)).refreshed
  ruleParts : ∀ b : Binding, b.Over t → ∀ insert update, b.restrict name insert update =
    b.changedAt c fun e ↦ { e with insert := e.insert && insert, update := e.update && update }
  softDelete : ∀ deleted rest values,
    Rules.softDelete? ⟨⟨name, deleted⟩ :: rest, values⟩ t = some (⟨name, deleted⟩, c)
  softDeleteValue : ∀ b : Binding, b.Over t → ∀ origin value rest,
    b.apply (bindUpdates origin ((name, value) :: rest)) =
      (b.changedAt c (updated value origin)).apply (bindUpdates origin rest)

namespace Binding

variable {t : Table} {b : Binding} {c : Column} {name : String}

/-- A name that is known is not passed over. -/
theorem apply_changeIfKnown_of_isSome (h : (b.entry? name).isSome) (f : Entry → Entry)
    (missing : Binding → Error) : b.apply (changeIfKnown name f missing) = .ok (b.changed name f) := by
  rw [apply_changeIfKnown, if_pos h]
  rfl

theorem Over.of_readNamed {names : List String} {b' : Binding} (hb : b.Over t)
    (h : b.apply (readNamed names) = .ok b') : b'.Over t := by
  induction names generalizing b with
  | nil =>
    obtain rfl := Except.ok.inj h
    exact hb
  | cons name names ih =>
    rw [apply_readNamed_cons] at h
    obtain ⟨b₁, hmark, h⟩ := bind_eq_ok.mp h
    refine ih ?_ h
    rcases apply_changeIfKnown_ok hmark with rfl | rfl
    · exact hb.of_changed (f := markRead) (fun _ ↦ rfl) name
    · exact hb

end Binding

namespace Table

variable {t : Table} {c : Column} {name : String}

open Binding in
/-- A name that a column answers to, and that has its property name, means it in every place. -/
theorem Apart.resolves (h : t.Apart) (hc : c ∈ t.columns)
    (hname : Text.sameAscii c.property (propertyName name)) (hanswers : c.answersTo name) :
    t.Resolves name c := by
  have hcolumn : t.column? name = some c := (h.column?_eq_some_iff hc hname).mpr hanswers
  have hknown {b : Binding} (hb : b.Over t) : (b.entry? name).isSome := by
    obtain ⟨e, he, -⟩ := hb.entry? hcolumn
    rw [he]
    rfl
  have hchanged {b : Binding} (hb : b.Over t) (f : Entry → Entry) :
      b.changed name f = b.changedAt c f := hb.changed_eq h.nodup hcolumn f
  refine
    { column := hcolumn
      argument := fun b hb marks value isKey rest ↦ ?argument
      filter := fun b hb ignoreNulls value isKey rest ↦ ?filter
      desired := fun b hb rest ↦ ?desired
      sorting := fun b hb descending rest ↦ ?sorting
      keys := fun b hb rest hrest ↦ ?keys
      countDistinct := fun b hb env hd ↦ ?countDistinct
      ruleValue := fun b hb value ↦ ?ruleValue
      ruleParts := fun b hb insert update ↦ hchanged hb _
      softDelete := fun deleted rest values ↦ ?softDelete
      softDeleteValue := fun b hb origin value rest ↦ ?softDeleteValue }
  case argument =>
    rw [apply_bindProperties_cons, bindProperty, apply_changeIfKnown_of_isSome (hknown hb)]
    exact congrArg (fun b ↦ Binding.apply b (bindProperties marks rest)) (hchanged hb _)
  case filter =>
    obtain ⟨e, he, rfl⟩ := hb.entry? hcolumn
    have hfirst : b.filterCriterion ignoreNulls ⟨name, value, isKey⟩ =
        .ok (e.column.condition? ignoreNulls value) := by
      simp only [filterCriterion, he, Column.condition?]
      split <;> rfl
    rw [filterEach, hfirst]
    cases b.filterEach ignoreNulls rest <;> rfl
  case desired =>
    rw [apply_applyDesired_named, apply_readNamed_cons,
      apply_changeIfKnown_of_isSome (hknown hb), hchanged hb]
    change (((b.changedAt c markRead).apply (readNamed rest)).bind fun b ↦ _) = _
    cases hread : (b.changedAt c markRead).apply (readNamed rest) with
    | error e => rfl
    | ok b' =>
      have hb' : b'.Over t := by
        rw [← hchanged hb] at hread
        exact (hb.of_changed (f := markRead) (fun _ ↦ rfl) name).of_readNamed hread
      exact if_pos (List.any_eq_true.mpr ⟨name, List.mem_cons_self, hknown hb'⟩)
  case sorting =>
    obtain ⟨e, he, rfl⟩ := hb.entry? hcolumn
    simp only [orderTerms, he]
  case keys =>
    have hnone : (name :: rest).find? (fun k ↦ (b.entry? k).isNone) = none := by
      refine List.find?_eq_none.mpr fun k hk ↦ ?_
      have hresolves : (t.column? k).isSome := by
        rcases List.mem_cons.mp hk with rfl | hmem
        · rw [hcolumn]
          rfl
        · exact hrest k hmem
      obtain ⟨c', hc'⟩ := Option.isSome_iff_exists.mp hresolves
      obtain ⟨e, he, -⟩ := hb.entry? hc'
      simp [he]
    have hkeys : ∀ e ∈ b.entries, ((name :: rest).any fun k ↦ e.column.answersTo k) =
        (e.column = c || rest.any fun k ↦ e.column.answersTo k) := by
      intro e he
      have hmem : e.column ∈ t.columns := hb ▸ List.mem_map_of_mem he
      have hfirst : e.column.answersTo name = decide (e.column = c) := by
        rw [Bool.eq_iff_iff, decide_eq_true_iff]
        exact ⟨h.eq_of_answersTo hc hmem hname, fun hsame ↦ hsame ▸ hanswers⟩
      rw [List.any_cons, hfirst]
    have hentries := List.map_congr_left fun e he ↦
      congrArg (fun isKey ↦ ({ e with isKey } : Entry)) (hkeys e he)
    rw [overrideKeys, apply_get, hnone, mapEntries, hentries]
    rfl
  case countDistinct =>
    obtain ⟨e, he, rfl⟩ := hb.entry? hcolumn
    simp [Query.aggregateProjection, hd, he]
  case ruleValue =>
    rw [bindRule, if_pos (hknown hb)]
    exact congrArg refreshed (hchanged hb _)
  case softDelete =>
    simp [Rules.softDelete?, hcolumn]
  case softDeleteValue =>
    rw [apply_bindUpdates_cons, apply_change, if_pos (hknown hb)]
    exact congrArg (fun b ↦ Binding.apply b (bindUpdates origin rest)) (hchanged hb _)

/-- In a table whose property names differ, in any letter case, a column's property name means the
column in every place. Its own name does so exactly if it is not lost with the markers in front of
it, and otherwise means no column. -/
theorem Apart.resolves_iff (h : t.Apart) (hc : c ∈ t.columns) :
    (∀ name, Text.sameAscii c.property name → t.Resolves name c) ∧
      ∀ name, Text.sameAscii c.name name →
        (t.Resolves name c ↔ c.Sayable) ∧ (¬ c.Sayable → t.column? name = none) := by
  have hderived := h.derived c hc
  have howner {name : String} (hname : Text.sameAscii c.name name) :
      Text.sameAscii c.property (propertyName name) := by
    rw [hderived]
    exact propertyName_congr hname
  refine ⟨fun name hname ↦ ?_, fun name hname ↦ ⟨⟨fun hresolved ↦ ?_, fun hsayable ↦ ?_⟩,
    fun hlost ↦ ?_⟩⟩
  · have hanswers := Column.answersTo_of_property hderived hname
    exact h.resolves hc (Column.sameAscii_propertyName hderived hanswers) hanswers
  · refine (Column.answersTo_own_iff hderived hname).mp ?_
    simpa using List.find?_some hresolved.column
  · exact h.resolves hc (howner hname) ((Column.answersTo_own_iff hderived hname).mpr hsayable)
  · refine h.column?_eq_none hc (howner hname) fun hanswers ↦ hlost ?_
    exact (Column.answersTo_own_iff hderived hname).mp hanswers

end Table

namespace Users

/-- A mark of removed users whose own name begins with a marker. -/
def oddlyRemoved (d : Dialect) : Column := Column.make d "@is removed" "boolean"

def oddTable (d : Dialect) : Table := Table.make d ⟨none, "Users"⟩ true [id d, oddlyRemoved d]

/-- The oddly named column is found by its property name alone, and others by both of their
names. -/
theorem oddlyRemoved_lost :
    (oddTable .sqlite).column? "@is removed" = none ∧
      (oddTable .sqlite).Resolves "ISREMOVED" (oddlyRemoved .sqlite) ∧
      (oddTable .sqlite).Resolves "iD" (id .sqlite) := by
  have h : (oddTable .sqlite).Apart := ⟨by decide +kernel, by decide +kernel⟩
  have hremoved : oddlyRemoved .sqlite ∈ (oddTable .sqlite).columns := by simp [oddTable, Table.make]
  have hid : id .sqlite ∈ (oddTable .sqlite).columns := by simp [oddTable, Table.make]
  refine ⟨?_, ?_, ?_⟩
  · have hname : Text.sameAscii (oddlyRemoved .sqlite).name "@is removed" := by decide +kernel
    exact ((h.resolves_iff hremoved).2 _ hname).2 (by decide +kernel)
  · have hname : Text.sameAscii (oddlyRemoved .sqlite).property "ISREMOVED" := by decide +kernel
    exact (h.resolves_iff hremoved).1 _ hname
  · have hname : Text.sameAscii (id .sqlite).name "iD" := by decide +kernel
    exact ((h.resolves_iff hid).2 _ hname).1.mpr (by decide +kernel)

end Users

end SchemaSql
