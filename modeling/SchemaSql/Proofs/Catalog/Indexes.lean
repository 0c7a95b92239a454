import Mathlib.Data.List.Basic
import Mathlib.Data.List.Perm.Basic
import SchemaSql.Catalog.Introspection

/-!
The indexes of a table, gathered from the rows that a database reports of them. Every row that names
an index and a column adds the column to that index; the rows of different indexes may be mixed in
any way, and rows without an index or column name may stand between them. `Gathers` says what is
gathered without saying how: one description for each index, in the order in which the rows come to
them, with the flags of its first row and the columns of all its rows in their order. No other list
of descriptions is gathered from the same rows.
-/

set_option autoImplicit false
set_option relaxedAutoImplicit false

namespace SchemaSql

/-! ### What cells hold -/

/-- The text that a reported value stands for: a text for itself, any other value for its literal,
and null for none. -/
inductive Value.StandsFor : Value → String → Prop
  | text (s : String) : StandsFor (.text s) s
  | literal {v : Value} (hnull : v ≠ .null) (htext : ∀ s, v ≠ .text s) : StandsFor v v.literal

/-- A reported value says yes: it is true, an integer other than zero, or one of three words, in any
case and with any blanks around it. -/
def Value.Affirms : Value → Prop
  | .bool b => b = true
  | .int n => n ≠ 0
  | .text s => ∃ word ∈ ["1", "true", "yes"], Text.sameAscii (Text.trim s) word
  | .null | .float _ | .blob _ | .timestamp _ => False

theorem Value.toBool?_eq_true_iff (v : Value) : v.toBool? = some true ↔ v.Affirms := by
  cases v with
  | bool b => simp [toBool?, Affirms]
  | int n => simp [toBool?, Affirms]
  | text s =>
    have hword : ∀ word ∈ ["1", "true", "yes"], Text.sameAscii (Text.trim s) word ↔
        (Text.trimChars s.toList).map Char.toLower = word.toList := by
      intro word hword
      have hlower : word.toList.map Char.toLower = word.toList := by
        revert word
        decide
      rw [Text.sameAscii_iff, Text.trim, String.toList_ofList, hlower]
    have hwords : (.text s : Value).Affirms ↔ (Text.trimChars s.toList).map Char.toLower ∈
        ["1", "true", "yes"].map String.toList := by
      rw [Affirms, List.mem_map]
      exact exists_congr fun word ↦ and_congr_right fun h ↦ (hword word h).trans eq_comm
    rw [hwords, toBool?]
    dsimp only [List.map]
    split
    · exact iff_of_true rfl ‹_›
    · split <;> exact iff_of_false (by decide) ‹_›
  | null | float | blob | timestamp => simp [toBool?, Affirms]

/-! ### What rows say of indexes -/

/-- What a row says of an index: one of its columns, and whether the index is unique or the key. -/
structure IndexRow where
  index : String
  isUnique : Bool
  isKey : Bool
  column : IndexColumn
deriving DecidableEq

namespace Row

variable {r : Row} {i : Nat}

theorem textAt?_eq_some_iff {s : String} :
    r.textAt? i = some s ↔ ∃ v, r.at? i = some v ∧ v.StandsFor s := by
  rw [textAt?]
  cases r.at? i with
  | none => simp
  | some v =>
    constructor
    · intro h
      refine ⟨v, rfl, ?_⟩
      cases v with
      | null => cases h
      | text => cases h; exact .text _
      | _ => cases h; exact .literal nofun nofun
    · rintro ⟨w, hw, hs⟩
      obtain rfl := Option.some.inj hw
      cases hs with
      | text => rfl
      | literal hnull htext =>
        cases v with
        | null => exact absurd rfl hnull
        | text s => exact absurd rfl (htext s)
        | _ => rfl

theorem flagAt_iff : r.flagAt i ↔ ∃ v, r.at? i = some v ∧ v.Affirms := by
  simp only [flagAt, Option.getD_eq_iff, ← Value.toBool?_eq_true_iff, Option.bind_eq_some_iff]
  simp

/-- Reads a row that names an index and a column. -/
def indexRow? (r : Row) : Option IndexRow := do
  let index ← r.textAt? 0
  let column ← r.textAt? 3
  return { index, isUnique := r.flagAt 1, isKey := r.flagAt 2, column := ⟨column, r.flagAt 4⟩ }

/-- The cells of the row say what is said of the index. -/
structure Describes (r : Row) (x : IndexRow) : Prop where
  index : ∃ v, r.at? 0 = some v ∧ v.StandsFor x.index
  isUnique : x.isUnique ↔ ∃ v, r.at? 1 = some v ∧ v.Affirms
  isKey : x.isKey ↔ ∃ v, r.at? 2 = some v ∧ v.Affirms
  column : ∃ v, r.at? 3 = some v ∧ v.StandsFor x.column.name
  descending : x.column.descending ↔ ∃ v, r.at? 4 = some v ∧ v.Affirms

/-- A row is read as what its cells say, and one without an index or column name is not read. -/
theorem indexRow?_eq_some_iff {x : IndexRow} : r.indexRow? = some x ↔ r.Describes x := by
  constructor
  · intro h
    obtain ⟨index, hindex, h⟩ := Option.bind_eq_some_iff.mp h
    obtain ⟨column, hcolumn, h⟩ := Option.bind_eq_some_iff.mp h
    obtain rfl := Option.some.inj h
    exact ⟨textAt?_eq_some_iff.mp hindex, flagAt_iff, flagAt_iff, textAt?_eq_some_iff.mp hcolumn,
      flagAt_iff⟩
  · rintro ⟨hindex, hunique, hkey, hcolumn, hdescending⟩
    rw [← flagAt_iff, Bool.coe_iff_coe] at hunique hkey hdescending
    rw [indexRow?, textAt?_eq_some_iff.mpr hindex, textAt?_eq_some_iff.mpr hcolumn, ← hunique,
      ← hkey, ← hdescending]
    rfl

end Row

namespace RowSet

/-- The rows that name an index and a column. -/
def indexRows (rs : RowSet) : List IndexRow := rs.toRows.filterMap Row.indexRow?

/-- The indexes are those that the rows describe. -/
structure Gathers (table : ObjectName) (rows : List IndexRow) (indexes : List Index) : Prop where
  mem_names : ∀ name, name ∈ indexes.map (·.name) ↔ name ∈ rows.map (·.index)
  ordered : (indexes.map (·.name)).Pairwise fun a b ↦
    (rows.map (·.index)).idxOf a < (rows.map (·.index)).idxOf b
  described : ∀ i ∈ indexes, i.table = table ∧
    ∃ r, rows.find? (·.index = i.name) = some r ∧ i.isUnique = r.isUnique ∧ i.isKey = r.isKey
  columns : ∀ i ∈ indexes, i.columns = (rows.filter (·.index = i.name)).map (·.column)

/-! ### One row -/

section Added

variable {new : Index} {c : IndexColumn} {indexes : List Index}

theorem addIndexColumn_of_notMem (h : new.name ∉ indexes.map (·.name)) :
    addIndexColumn new c indexes = indexes ++ [{ new with columns := [c] }] := by
  induction indexes with
  | nil => rfl
  | cons i rest ih =>
    rw [List.map_cons, List.mem_cons, not_or] at h
    rw [addIndexColumn, if_neg (Ne.symm h.1), ih h.2, List.cons_append]

theorem addIndexColumn_of_mem (hnodup : (indexes.map (·.name)).Nodup)
    (h : new.name ∈ indexes.map (·.name)) :
    addIndexColumn new c indexes =
      indexes.map fun i ↦ if i.name = new.name then { i with columns := i.columns ++ [c] } else i := by
  induction indexes with
  | nil => cases h
  | cons i rest ih =>
    rw [List.map_cons, List.nodup_cons] at hnodup
    rw [addIndexColumn, List.map_cons]
    by_cases hname : i.name = new.name
    · -- No index behind the first one of the name has it again.
      have hrest : ∀ j ∈ rest, j.name ≠ new.name := fun j hj hsame ↦
        hnodup.1 (List.mem_map.mpr ⟨j, hj, hsame.trans hname.symm⟩)
      rw [if_pos hname, if_pos hname]
      congr 1
      conv_lhs => rw [← List.map_id rest]
      exact List.map_congr_left fun j hj ↦ (if_neg (hrest j hj)).symm
    · rw [if_neg hname, if_neg hname]
      rw [List.map_cons, List.mem_cons] at h
      rw [ih hnodup.2 (h.resolve_left (Ne.symm hname))]

end Added

variable {table : ObjectName} {rows : List IndexRow} {indexes indexes' : List Index} {r : IndexRow}

/-- Takes a row into the indexes that were gathered from the rows before it. -/
def gather (table : ObjectName) (indexes : List Index) (r : IndexRow) : List Index :=
  addIndexColumn ⟨table, r.index, r.isUnique, r.isKey, []⟩ r.column indexes

theorem gather_of_notMem (h : r.index ∉ indexes.map (·.name)) :
    gather table indexes r =
      indexes ++ [⟨table, r.index, r.isUnique, r.isKey, [r.column]⟩] :=
  addIndexColumn_of_notMem h

theorem gather_of_mem (hnodup : (indexes.map (·.name)).Nodup) (h : r.index ∈ indexes.map (·.name)) :
    gather table indexes r = indexes.map fun i ↦
      if i.name = r.index then { i with columns := i.columns ++ [r.column] } else i :=
  addIndexColumn_of_mem hnodup h

/-- The rows that name no index or no column are passed over. -/
theorem toIndexes_eq (table : ObjectName) (rs : RowSet) :
    rs.toIndexes table = rs.indexRows.foldl (gather table) [] := by
  rw [toIndexes, indexRows, List.foldl_filterMap]
  congr 1
  funext indexes r
  rw [Row.indexRow?]
  cases r.textAt? 0 with
  | none => rfl
  | some index => cases r.textAt? 3 <;> rfl

namespace Gathers

theorem nil : Gathers table [] [] where
  mem_names _ := Iff.rfl
  ordered := .nil
  described _ h := nomatch h
  columns _ h := nomatch h

/-- No index is described twice. -/
theorem nodup (h : Gathers table rows indexes) : (indexes.map (·.name)).Nodup := by
  refine List.nodup_iff_pairwise_ne.mpr (h.ordered.imp ?_)
  rintro a b hlt rfl
  exact Nat.lt_irrefl _ hlt

/-- The places at which the rows come to their indexes stay where they are. -/
theorem ordered_append (h : Gathers table rows indexes) (more : List IndexRow) :
    (indexes.map (·.name)).Pairwise fun a b ↦
      ((rows ++ more).map (·.index)).idxOf a < ((rows ++ more).map (·.index)).idxOf b := by
  refine h.ordered.imp_of_mem fun ha hb hlt ↦ ?_
  rw [List.map_append, List.idxOf_append_of_mem ((h.mem_names _).mp ha),
    List.idxOf_append_of_mem ((h.mem_names _).mp hb)]
  exact hlt

/-- A row of an index that was described before adds a column to it. -/
theorem gather_known (h : Gathers table rows indexes)
    (hknown : r.index ∈ indexes.map (·.name)) :
    Gathers table (rows ++ [r]) (gather table indexes r) := by
  have hnames : (gather table indexes r).map (·.name) = indexes.map (·.name) := by
    rw [gather_of_mem h.nodup hknown, List.map_map]
    refine List.map_congr_left fun i _ ↦ ?_
    rw [Function.comp_apply]
    split <;> rfl
  constructor
  case mem_names =>
    intro name
    rw [hnames, h.mem_names, List.map_append, List.mem_append]
    refine ⟨.inl, fun hname ↦ hname.elim id fun hnew ↦ ?_⟩
    rw [List.map_singleton, List.mem_singleton] at hnew
    exact hnew ▸ (h.mem_names _).mp hknown
  case ordered => exact hnames ▸ h.ordered_append [r]
  case described =>
    intro j hj
    rw [gather_of_mem h.nodup hknown] at hj
    obtain ⟨i, hi, rfl⟩ := List.mem_map.mp hj
    obtain ⟨htable, first, hfirst, hflags⟩ := h.described i hi
    have hfirst' : (rows ++ [r]).find? (·.index = i.name) = some first := by
      rw [List.find?_append, hfirst, Option.some_or]
    split
    · exact ⟨htable, first, hfirst', hflags⟩
    · exact ⟨htable, first, hfirst', hflags⟩
  case columns =>
    intro j hj
    rw [gather_of_mem h.nodup hknown] at hj
    obtain ⟨i, hi, rfl⟩ := List.mem_map.mp hj
    have hcolumns := h.columns i hi
    rw [List.filter_append, List.map_append]
    split
    · rename_i hname
      simp [hcolumns, hname]
    · rename_i hname
      simp [hcolumns, Ne.symm hname]

/-- The first row of an index describes it. -/
theorem gather_new (h : Gathers table rows indexes)
    (hnew : r.index ∉ indexes.map (·.name)) :
    Gathers table (rows ++ [r]) (gather table indexes r) := by
  have hunnamed : r.index ∉ rows.map (·.index) := mt (h.mem_names _).mpr hnew
  have hapart : ∀ s ∈ rows, s.index ≠ r.index := fun s hs hsame ↦
    hunnamed (List.mem_map.mpr ⟨s, hs, hsame⟩)
  have hnames : (gather table indexes r).map (·.name) = indexes.map (·.name) ++ [r.index] := by
    rw [gather_of_notMem hnew, List.map_append]
    rfl
  constructor
  case mem_names =>
    intro name
    rw [hnames, List.map_append, List.mem_append, List.mem_append, h.mem_names]
    rfl
  case ordered =>
    rw [hnames, List.pairwise_append]
    refine ⟨h.ordered_append [r], List.pairwise_singleton _ _, fun a ha b hb ↦ ?_⟩
    rw [List.mem_singleton] at hb
    have hrow := (h.mem_names a).mp ha
    rw [hb, List.map_append, List.idxOf_append_of_mem hrow, List.idxOf_append_of_notMem hunnamed]
    exact Nat.lt_add_right _ (List.idxOf_lt_length_of_mem hrow)
  case described =>
    intro i hi
    rw [gather_of_notMem hnew] at hi
    rcases List.mem_append.mp hi with hi | hi
    · obtain ⟨htable, first, hfirst, hflags⟩ := h.described i hi
      exact ⟨htable, first, by rw [List.find?_append, hfirst, Option.some_or], hflags⟩
    · obtain rfl := List.mem_singleton.mp hi
      refine ⟨rfl, r, ?_, rfl, rfl⟩
      have hnone : rows.find? (·.index = r.index) = none :=
        List.find?_eq_none.mpr fun s hs ↦ by simpa using hapart s hs
      simp [List.find?_append, hnone]
  case columns =>
    intro i hi
    rw [gather_of_notMem hnew] at hi
    rw [List.filter_append, List.map_append]
    rcases List.mem_append.mp hi with hi | hi
    · have hother : r.index ≠ i.name := fun hsame ↦ hnew (List.mem_map.mpr ⟨i, hi, hsame.symm⟩)
      simp [h.columns i hi, hother]
    · obtain rfl := List.mem_singleton.mp hi
      have hnone : rows.filter (·.index = r.index) = [] :=
        List.filter_eq_nil_iff.mpr fun s hs ↦ by simpa using hapart s hs
      simp [hnone]

theorem step (h : Gathers table rows indexes) (r : IndexRow) :
    Gathers table (rows ++ [r]) (gather table indexes r) := by
  by_cases hknown : r.index ∈ indexes.map (·.name)
  · exact h.gather_known hknown
  · exact h.gather_new hknown

theorem run (h : Gathers table rows indexes) (more : List IndexRow) :
    Gathers table (rows ++ more) (more.foldl (gather table) indexes) := by
  induction more generalizing rows indexes with
  | nil => rwa [List.append_nil]
  | cons r more ih =>
    rw [List.foldl_cons, List.append_cons]
    exact ih (h.step r)

/-! ### All rows -/

/-- What is said of an index follows from its name. -/
theorem eq_of_name (h : Gathers table rows indexes) (h' : Gathers table rows indexes') {i j : Index}
    (hi : i ∈ indexes) (hj : j ∈ indexes') (hname : i.name = j.name) : i = j := by
  obtain ⟨htable, first, hfirst, hunique, hkey⟩ := h.described i hi
  obtain ⟨htable', first', hfirst', hunique', hkey'⟩ := h'.described j hj
  have hcolumns := h.columns i hi
  rw [hname] at hfirst hcolumns
  obtain rfl := Option.some.inj (hfirst.symm.trans hfirst')
  calc i = ⟨i.table, i.name, i.isUnique, i.isKey, i.columns⟩ := rfl
    _ = ⟨j.table, j.name, j.isUnique, j.isKey, j.columns⟩ := by
      rw [htable, htable', hname, hunique, hunique', hkey, hkey', hcolumns, h'.columns j hj]
    _ = j := rfl

theorem unique (h : Gathers table rows indexes) (h' : Gathers table rows indexes') :
    indexes = indexes' := by
  have hnames : indexes.map (·.name) = indexes'.map (·.name) :=
    List.Perm.eq_of_pairwise (fun _ _ _ _ hab hba ↦ absurd hab (Nat.lt_asymm hba)) h.ordered
      h'.ordered ((List.perm_ext_iff_of_nodup h.nodup h'.nodup).mpr fun name ↦
        (h.mem_names name).trans (h'.mem_names name).symm)
  refine List.ext_getElem (by simpa using congrArg List.length hnames) fun k hk hk' ↦ ?_
  have hname : indexes[k].name = indexes'[k].name := by
    simpa [hk, hk'] using congrArg (·[k]?) hnames
  exact h.eq_of_name h' (List.getElem_mem hk) (List.getElem_mem hk') hname

/-- Every row is in one of the parts that have one index name each. -/
theorem perm_flatMap_filter {names : List String} (hnodup : names.Nodup)
    (hnamed : ∀ r ∈ rows, r.index ∈ names) :
    (names.flatMap fun name ↦ rows.filter (·.index = name)).Perm rows := by
  induction names generalizing rows with
  | nil =>
    obtain rfl : rows = [] := List.eq_nil_iff_forall_not_mem.mpr fun r hr ↦ nomatch hnamed r hr
    exact .nil
  | cons first names ih =>
    obtain ⟨hfirst, hnodup⟩ := List.nodup_cons.mp hnodup
    have hothers : names.flatMap (fun name ↦ rows.filter (·.index = name)) =
        names.flatMap fun name ↦ (rows.filter (!·.index = first)).filter (·.index = name) := by
      refine List.flatMap_congr fun name hname ↦ ?_
      rw [List.filter_filter]
      refine List.filter_congr fun r _ ↦ ?_
      have hne : name ≠ first := fun hsame ↦ hfirst (hsame ▸ hname)
      by_cases hr : r.index = name <;> simp [hr, hne]
    rw [List.flatMap_cons, hothers]
    refine (List.Perm.append_left _ (ih hnodup fun r hr ↦ ?_)).trans (List.filter_append_perm _ rows)
    obtain ⟨hrow, hne⟩ := List.mem_filter.mp hr
    exact (List.mem_cons.mp (hnamed r hrow)).resolve_left (by simpa using hne)

/-- Every column is in the index that its row names, and no column is in any other or there
twice. -/
theorem perm (h : Gathers table rows indexes) :
    (indexes.flatMap fun i ↦ i.columns.map (i.name, ·)).Perm
      (rows.map fun r ↦ (r.index, r.column)) := by
  have hparts : (indexes.flatMap fun i ↦ i.columns.map (i.name, ·)) =
      ((indexes.map (·.name)).flatMap fun name ↦ rows.filter (·.index = name)).map
        fun r ↦ (r.index, r.column) := by
    rw [List.map_flatMap, List.flatMap_map]
    refine List.flatMap_congr fun i hi ↦ ?_
    rw [h.columns i hi, List.map_map]
    refine List.map_congr_left fun r hr ↦ ?_
    have hname := (List.mem_filter.mp hr).2
    rw [Function.comp_apply, of_decide_eq_true hname]
  rw [hparts]
  exact (perm_flatMap_filter h.nodup fun r hr ↦
    (h.mem_names _).mpr (List.mem_map_of_mem hr)).map _

end Gathers

theorem gathers_toIndexes (table : ObjectName) (rs : RowSet) :
    Gathers table rs.indexRows (rs.toIndexes table) := by
  rw [toIndexes_eq]
  exact Gathers.nil.run rs.indexRows

/-- The descriptions of the indexes of a table are those that the rows describe, and no others. All
columns of all rows are found in them, each at the index that its row names and nowhere else. -/
theorem toIndexes_gathered (table : ObjectName) (rs : RowSet) :
    (∀ indexes, rs.toIndexes table = indexes ↔ Gathers table rs.indexRows indexes) ∧
      ((rs.toIndexes table).flatMap fun i ↦ i.columns.map (i.name, ·)).Perm
        (rs.indexRows.map fun r ↦ (r.index, r.column)) := by
  have hgathers := gathers_toIndexes table rs
  refine ⟨fun indexes ↦ ⟨?_, hgathers.unique⟩, hgathers.perm⟩
  rintro rfl
  exact hgathers

end RowSet

end SchemaSql
