import SchemaSql.Catalog.Introspection
import SchemaSql.Proofs.Dialect.Scanned
import SchemaSql.Proofs.Text.Trimmed

/-!
The names under which a database reports its objects. They are taken like names that a caller has
separated: blanks at the ends are dropped, and then one pair of quoting characters. A reported text
has neither for decoration, so whatever is dropped of it belongs to the name, and a name is kept as
it was reported only if there is nothing to drop. A description of any other object is quoted under
a name that the object does not have.
-/

set_option autoImplicit false
set_option relaxedAutoImplicit false

namespace SchemaSql

namespace ObjectName

/-! ### What is taken off a part -/

/-- Quoting characters of one style stand at both ends. -/
def Enclosed (cs : List Char) : Prop :=
  ∃ c rest q, cs = c :: rest ∧ closer? c = some q ∧ rest.getLast? = some q

instance (cs : List Char) : Decidable (Enclosed cs) :=
  match cs with
  | [] => .isFalse fun ⟨_, _, _, h, _⟩ ↦ nomatch h
  | c :: rest =>
    decidable_of_iff ((closer? c).isSome ∧ rest.getLast? = closer? c) (by
      rw [Enclosed, Option.isSome_iff_exists]
      constructor
      · rintro ⟨⟨q, hq⟩, hlast⟩
        exact ⟨c, rest, q, rfl, hq, hlast.trans hq⟩
      · rintro ⟨_, _, q, h, hq, hlast⟩
        obtain ⟨rfl, rfl⟩ := List.cons.inj h
        exact ⟨⟨q, hq⟩, hlast.trans hq.symm⟩)

theorem undouble_sublist (q : Char) (cs : List Char) : (undouble q cs).Sublist cs := by
  induction cs using undouble.induct q with
  | case1 => exact .refl _
  | case2 => exact .refl _
  | case3 c d cs hc ih =>
    obtain ⟨rfl, rfl⟩ := hc
    rw [undouble, if_pos ⟨rfl, rfl⟩]
    exact (ih.cons_cons _).cons _
  | case4 c d cs hc ih =>
    rw [undouble, if_neg hc]
    exact ih.cons_cons _

theorem stripQuotes_of_not_enclosed {cs : List Char} (h : ¬ Enclosed cs) : stripQuotes cs = cs := by
  cases cs with
  | nil => rfl
  | cons c rest =>
    simp only [stripQuotes]
    split
    · rename_i q last hq hlast
      refine if_neg fun hsame ↦ h ⟨c, rest, q, rfl, hq, ?_⟩
      rw [hlast, hsame]
    · rfl

theorem length_stripQuotes_lt {cs : List Char} (h : Enclosed cs) :
    (stripQuotes cs).length < cs.length := by
  obtain ⟨c, rest, q, rfl, hq, hlast⟩ := h
  simp only [stripQuotes, hq, hlast, if_true]
  have hlength := (undouble_sublist q rest.dropLast).length_le
  rw [List.length_dropLast] at hlength
  rw [List.length_cons]
  omega

theorem stripQuotes_sublist (cs : List Char) : (stripQuotes cs).Sublist cs := by
  cases cs with
  | nil => exact .refl _
  | cons c rest =>
    simp only [stripQuotes]
    split
    · split
      · exact ((undouble_sublist _ _).trans (List.dropLast_sublist rest)).cons c
      · exact .refl _
    · exact .refl _

/-- Characters are left out when a part is cleaned, and nothing else is done to it. -/
theorem cleaned_sublist (s : String) : (cleaned s).toList.Sublist s.toList := by
  rw [cleaned, String.toList_ofList]
  exact (stripQuotes_sublist _).trans (Text.trimChars_sublist _)

/-- A part that stays as it is when it is cleaned: no end is blank, and no quotes enclose it. -/
def Verbatim (s : String) : Prop :=
  Text.Unpadded s ∧ ¬ Enclosed s.toList

instance (s : String) : Decidable (Verbatim s) :=
  inferInstanceAs (Decidable (_ ∧ _))

theorem cleaned_eq_self_iff (s : String) : cleaned s = s ↔ Verbatim s := by
  have htrim := (Text.trim_eq_self_iff s).symm
  rw [Text.trim, ← String.toList_inj, String.toList_ofList] at htrim
  rw [cleaned, ← String.toList_inj, String.toList_ofList, Verbatim, htrim]
  constructor
  · intro h
    -- Neither trimming nor stripping lengthens a text, so neither has done anything.
    have hstrip := (stripQuotes_sublist (Text.trimChars s.toList)).length_le
    rw [h] at hstrip
    have hsame := (Text.trimChars_sublist s.toList).eq_of_length_le hstrip
    refine ⟨hsame, fun hquotes ↦ ?_⟩
    have hshorter := length_stripQuotes_lt hquotes
    rw [hsame] at h
    rw [h] at hshorter
    exact lt_irrefl _ hshorter
  · rintro ⟨htrimmed, hquotes⟩
    rw [htrimmed, stripQuotes_of_not_enclosed hquotes]

theorem schema_ofParts_iff (schema : Option String) (name : String) :
    (ofParts schema name).schema = schema.filter (!·.isEmpty) ↔ ∀ s ∈ schema, Verbatim s := by
  have hempty : cleaned "" = "" := by decide
  simp only [ofParts, ← cleaned_eq_self_iff]
  cases schema with
  | none => simp
  | some s =>
    by_cases hs : s = ""
    · simp [hs, hempty]
    · have hkept : (!s.isEmpty) = true := by simpa using hs
      simp only [Option.map_some, Option.filter_some, hkept, if_true, Option.mem_def,
        Option.some.injEq, forall_eq']
      constructor
      · intro h
        split at h
        · exact Option.some.inj h
        · cases h
      · intro h
        rw [h, hkept]
        rfl

theorem name_ofParts_iff (schema : Option String) (name : String) :
    (ofParts schema name).name = name ↔ Verbatim name :=
  cleaned_eq_self_iff name

/-- The name that has the given parts as they are. An empty schema is no schema. -/
def named (schema : Option String) (name : String) : ObjectName :=
  ⟨schema.filter (!·.isEmpty), name⟩

/-- A name has the parts that it was made of exactly if these stay as they are. -/
theorem ofParts_eq_named_iff (schema : Option String) (name : String) :
    ofParts schema name = named schema name ↔ (∀ s ∈ schema, Verbatim s) ∧ Verbatim name := by
  rw [← schema_ofParts_iff schema name, ← name_ofParts_iff schema name, named, mk.injEq]

/-- The quoted name says the parts that the name was made of exactly if those which the dialect
writes stay as they are. -/
theorem scanName?_ofParts_iff (d : Dialect) (schema : Option String) (name : String) :
    d.scanName? (d.quoteName (ofParts schema name)).toList =
        some (d.seen (named schema name), []) ↔
      (d ≠ .access → ∀ s ∈ schema, Verbatim s) ∧ Verbatim name := by
  rw [Dialect.scanName?_quoteName, Option.some_inj, Prod.mk.injEq, and_iff_left rfl,
    Dialect.seen, Dialect.seen]
  split
  · rename_i hd
    simp [hd, named, name_ofParts_iff]
  · rename_i hd
    simp [hd, ofParts_eq_named_iff]

end ObjectName

/-- A database's names are taken as they are reported exactly if no end of them is blank and no
quotes enclose them. Of all other names a part is lost, and a description under what is left is
quoted under a name that the database did not report. -/
theorem Row.objectName?_verbatim_iff {r : Row} {name : String} (hname : r.textAt? 1 = some name) :
    ∃ n, r.objectName? = some n ∧
      (n = .named (r.textAt? 0) name ↔
        (∀ s ∈ r.textAt? 0, ObjectName.Verbatim s) ∧ ObjectName.Verbatim name) ∧
      ∀ (d : Dialect) (isTable : Bool) (columns : List Column),
        d.scanName? (Table.make d n isTable columns).quoted.toList =
            some (d.seen (.named (r.textAt? 0) name), []) ↔
          (d ≠ .access → ∀ s ∈ r.textAt? 0, ObjectName.Verbatim s) ∧ ObjectName.Verbatim name := by
  refine ⟨ObjectName.ofParts (r.textAt? 0) name, by rw [objectName?, hname]; rfl, ?_, ?_⟩
  · exact ObjectName.ofParts_eq_named_iff _ name
  · intro d isTable columns
    exact ObjectName.scanName?_ofParts_iff d _ name

/-- The object named in brackets is described, and its description is quoted under another name. -/
theorem Row.bracketedOrders_not_kept :
    (∃ n, (Row.mk [] [.text "dbo", .text "[Orders]", .text "TABLE"]).objectName? = some n ∧
      n ≠ .named (some "dbo") "[Orders]" ∧
      (Table.make .sqlServer n true []).quoted ≠ "[dbo].[[Orders]]]") ∧
    ∃ n, (Row.mk [] [.text "dbo", .text "All ]Orders", .text "TABLE"]).objectName? = some n ∧
      n = .named (some "dbo") "All ]Orders" := by
  have hsaid : Dialect.sqlServer.scanName? "[dbo].[[Orders]]]".toList =
      some (Dialect.sqlServer.seen (.named (some "dbo") "[Orders]"), []) := by decide
  constructor
  · have hname : (Row.mk [] [.text "dbo", .text "[Orders]", .text "TABLE"]).textAt? 1 =
        some "[Orders]" := rfl
    obtain ⟨n, hn, hkept, hquoted⟩ := Row.objectName?_verbatim_iff hname
    refine ⟨n, hn, fun h ↦ absurd (hkept.mp h).2 (by decide), fun h ↦ ?_⟩
    exact absurd ((hquoted .sqlServer true []).mp (by rw [h]; exact hsaid)).2 (by decide)
  · have hname : (Row.mk [] [.text "dbo", .text "All ]Orders", .text "TABLE"]).textAt? 1 =
        some "All ]Orders" := rfl
    obtain ⟨n, hn, hkept, -⟩ := Row.objectName?_verbatim_iff hname
    refine ⟨n, hn, hkept.mpr ⟨fun s hs ↦ ?_, by decide⟩⟩
    obtain rfl := Option.some.inj hs
    decide

end SchemaSql
