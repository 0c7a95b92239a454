import SchemaSql.Chain
import SchemaSql.Proofs.Binding.Steps

/-!
What rendering keeps of a statement: its parameters, in the order in which they are written. No two
of them share a name, so that a call finds for every parameter of its statement the value that the
statement was made with.
-/

set_option autoImplicit false
set_option relaxedAutoImplicit false

namespace SchemaSql

/-! ### Parameters of fragments -/

namespace Fragment

@[simp] theorem parameters_empty : empty.parameters = [] := rfl

@[simp] theorem parameters_text (s : String) : (text s).parameters = [] := by
  rw [text]
  split <;> rfl

@[simp] theorem parameters_param (p : Parameter) : (param p).parameters = [p] := rfl

@[simp] theorem parameters_raw (s : String) (ps : List Parameter) : (raw s ps).parameters = ps := by
  simp [raw, parameters, Piece.parameters]

theorem flatMap_joinPieces (as bs : List Piece) :
    (joinPieces as bs).flatMap Piece.parameters =
      as.flatMap Piece.parameters ++ bs.flatMap Piece.parameters := by
  induction as, bs using joinPieces.induct with
  | case1 bs => rfl
  | case2 s t bs => rfl
  | case3 a as bs hjoined ih =>
    rw [joinPieces, List.flatMap_cons, ih, List.flatMap_cons, List.append_assoc]
    exact hjoined

@[simp] theorem parameters_append (a b : Fragment) :
    (a ++ b).parameters = a.parameters ++ b.parameters :=
  flatMap_joinPieces a.pieces b.pieces

@[simp] theorem parameters_join (separator : String) (parts : List Fragment) :
    (join separator parts).parameters = parts.flatMap parameters := by
  induction parts using join.induct with
  | case1 => rfl
  | case2 part => simp [join]
  | case3 part rest hrest ih =>
    rw [join, parameters_append, parameters_append, parameters_text, ih, List.append_nil,
      List.flatMap_cons]
    exact hrest

end Fragment

open Fragment

@[simp] theorem parameterList_parameters (ps : List Parameter) :
    (parameterList ps).parameters = ps := by
  rw [parameterList, parameters_join, List.flatMap_map]
  exact List.flatMap_singleton' ps

namespace Predicate

def parameters : Predicate → List Parameter
  | .isNull _ | .lastInserted _ => []
  | .equals _ p | .unmarked _ p => [p]
  | .among _ ps | .written _ ps => ps

@[simp] theorem fragment_parameters (p : Predicate) : p.fragment.parameters = p.parameters := by
  cases p <;> simp [fragment, parameters]

end Predicate

@[simp] theorem whereClause_parameters (criteria : List Predicate) :
    (whereClause criteria).parameters = criteria.flatMap Predicate.parameters := by
  cases criteria with
  | nil => rfl
  | cons p ps => simp [whereClause, conjunction, List.flatMap_map]

def NewValue.parameters : NewValue → List Parameter
  | .parameter p => [p]
  | .supplied | .unchanged => []

@[simp] theorem assignmentList_parameters (supplied : Column → String) (as : List Assignment) :
    (assignmentList supplied as).parameters = as.flatMap fun a ↦ a.value.parameters := by
  have hassigned (a : Assignment) : (assignedText supplied a).parameters = a.value.parameters := by
    cases h : a.value <;> simp [assignedText, h, NewValue.parameters]
  simp [assignmentList, List.flatMap_map, hassigned]

@[simp] theorem announce_parameters (announced : Bool) (target : Target) (f : Fragment) :
    (announce announced target f).parameters = f.parameters := by
  cases announced <;> simp [announce]

namespace Statement

theorem update_parameters (s : Update) :
    (update s).fragment.parameters =
      (s.assignments.flatMap fun a ↦ a.value.parameters) ++
        s.criteria.flatMap Predicate.parameters := by
  simp [fragment, Update.fragment]

theorem delete_parameters (s : Delete) :
    (delete s).fragment.parameters = s.criteria.flatMap Predicate.parameters := by
  simp [fragment, Delete.fragment]

theorem query_parameters (s : Select) :
    (select s).fragment.parameters =
      (topClause s.top).parameters ++ s.source.fragment.parameters ++
        s.criteria.flatMap Predicate.parameters ++ s.window.clause.parameters := by
  simp [fragment, Select.fragment]

theorem select_parameters (projection : Projection) (target : Target)
    (criteria : List Predicate) :
    (select { projection, source := .table target, criteria }).fragment.parameters =
      criteria.flatMap Predicate.parameters := by
  simp [query_parameters, topClause, Source.fragment, Window.clause]

theorem merge_parameters (s : Merge) :
    (merge s).fragment.parameters = rowParameters s.source := by
  simp [fragment, Merge.fragment]

theorem insert_parameters (s : Insert) :
    (insert s).fragment.parameters = rowParameters s.row ++ s.conflict.clause.parameters := by
  simp [fragment, Insert.fragment]

end Statement

/-! ### Rendering -/

/-- No two parameters have the same name, in any letter case. -/
def DistinctNames (ps : List Parameter) : Prop :=
  ps.Pairwise fun p q ↦ Text.lowercase p.name ≠ Text.lowercase q.name

namespace Fragment

theorem register_ok {written ps all : List Parameter} (h : register written ps = .ok all)
    (hwritten : DistinctNames written) : all = written ++ ps ∧ DistinctNames all := by
  induction ps generalizing written with
  | nil =>
    obtain rfl := Except.ok.inj h
    exact ⟨(List.append_nil _).symm, hwritten⟩
  | cons p ps ih =>
    rw [register] at h
    cases hclash : clash? written p with
    | some q => rw [hclash] at h; simp at h
    | none =>
      rw [hclash] at h
      have hnew : ∀ q ∈ written, Text.lowercase q.name ≠ Text.lowercase p.name := by
        simpa [clash?] using hclash
      have hdistinct : DistinctNames (written ++ [p]) := by
        refine List.pairwise_append.mpr ⟨hwritten, List.pairwise_singleton _ p, ?_⟩
        intro q hq p' hp'
        rw [List.mem_singleton.mp hp']
        exact hnew q hq
      obtain ⟨rfl, hall⟩ := ih h hdistinct
      exact ⟨by simp, hall⟩

theorem renderFrom_ok {style : PlaceholderStyle} {written : List Parameter} {pieces : List Piece}
    {text : String} {all : List Parameter}
    (h : renderFrom style written pieces = .ok (text, all)) (hwritten : DistinctNames written) :
    all = written ++ pieces.flatMap Piece.parameters ∧ DistinctNames all := by
  induction pieces generalizing written text with
  | nil =>
    obtain ⟨-, rfl⟩ := Prod.mk.inj (Except.ok.inj h)
    exact ⟨(List.append_nil _).symm, hwritten⟩
  | cons piece rest ih =>
    rw [renderFrom] at h
    cases hregister : register written piece.parameters with
    | error e => rw [hregister] at h; simp at h
    | ok written' =>
      rw [hregister] at h
      obtain ⟨hwritten', hdistinct⟩ := register_ok hregister hwritten
      cases hrest : renderFrom style written' rest with
      | error e => simp only [hrest, reduceCtorEq] at h
      | ok r =>
        simp only [hrest, Except.ok.injEq, Prod.mk.injEq] at h
        obtain ⟨-, rfl⟩ := h
        obtain ⟨hall, hdistinct'⟩ := ih hrest hdistinct
        exact ⟨by rw [hall, hwritten', List.flatMap_cons, List.append_assoc], hdistinct'⟩

/-- Parameters without clashes are registered. -/
theorem register_of_distinctNames {written ps : List Parameter}
    (h : DistinctNames (written ++ ps)) : register written ps = .ok (written ++ ps) := by
  induction ps generalizing written with
  | nil => rw [register, List.append_nil]
  | cons p ps ih =>
    have hclash : clash? written p = none := by
      have hnew := (List.pairwise_append.mp h).2.2
      simpa [clash?] using fun q hq ↦ hnew q hq p List.mem_cons_self
    rw [register, hclash, List.append_cons written p ps]
    exact ih (List.append_cons written p ps ▸ h)

theorem renderFrom_of_distinctNames (style : PlaceholderStyle) {written : List Parameter}
    {pieces : List Piece} (h : DistinctNames (written ++ pieces.flatMap Piece.parameters)) :
    ∃ r, renderFrom style written pieces = .ok r := by
  induction pieces generalizing written with
  | nil => exact ⟨_, rfl⟩
  | cons piece rest ih =>
    rw [List.flatMap_cons, ← List.append_assoc] at h
    obtain ⟨r, hr⟩ := ih h
    refine ⟨(pieceText style written.length piece ++ r.1, r.2), ?_⟩
    rw [renderFrom, register_of_distinctNames (List.pairwise_append.mp h).1]
    simp only [hr]

theorem render_ok {style : PlaceholderStyle} {f : Fragment} {text : String}
    {ps : List Parameter} (h : f.render style = .ok (text, ps)) :
    ps = f.parameters ∧ DistinctNames ps :=
  renderFrom_ok h List.Pairwise.nil

end Fragment

/-! ### Links -/

/-- The value that a call with the given parameters finds for a parameter of its statement. -/
def valueAmong (ps : List Parameter) (p : Parameter) : Value :=
  match ps.find? fun q ↦ q.name == p.name with
  | some q => q.value
  | none => .null

theorem valueAmong_of_mem {ps : List Parameter} (hdistinct : DistinctNames ps) {p : Parameter}
    (hp : p ∈ ps) : valueAmong ps p = p.value := by
  induction ps with
  | nil => simp at hp
  | cons q ps ih =>
    obtain ⟨hfirst, hrest⟩ := List.pairwise_cons.mp hdistinct
    rcases List.mem_cons.mp hp with rfl | hmem
    · simp [valueAmong]
    · have hname : (q.name == p.name) = false := by
        refine beq_eq_false_iff_ne.mpr fun hsame ↦ hfirst p hmem ?_
        rw [hsame]
      rw [← ih hrest hmem, valueAmong, List.find?_cons, hname]
      rfl

namespace Link

/-- The link's text is its statement as a dialect writes it, with the statement's parameters. -/
def WrittenIn (d : Dialect) (l : Link) : Prop :=
  l.statement.fragment.render d.placeholderStyle = .ok (l.text, l.parameters)

variable {d : Dialect} {l : Link}

theorem ofStatement_ok {operation : String} {s : Statement}
    (h : ofStatement d operation s = .ok l) :
    l.WrittenIn d ∧ l.operation = operation ∧ l.statement = s ∧ l.mode = .result ∧
      l.condition = .always ∧ l.check = .ignore ∧ l.kind = .text := by
  rw [ofStatement] at h
  obtain ⟨r, hrender, rfl⟩ := map_eq_ok.mp h
  exact ⟨hrender, rfl, rfl, rfl, rfl, rfl, rfl⟩

/-- A statement whose parameters have distinct names can be written. -/
theorem ofStatement_of_distinctNames (operation : String) {s : Statement}
    (h : DistinctNames s.fragment.parameters) : ∃ l, ofStatement d operation s = .ok l := by
  have hdistinct : DistinctNames ([] ++ s.fragment.pieces.flatMap Piece.parameters) := h
  obtain ⟨r, hr⟩ := renderFrom_of_distinctNames d.placeholderStyle hdistinct
  rw [ofStatement, render, hr]
  exact ⟨_, rfl⟩

theorem WrittenIn.distinctNames (h : l.WrittenIn d) :
    DistinctNames l.statement.fragment.parameters := by
  obtain ⟨hparameters, hdistinct⟩ := render_ok h
  exact hparameters ▸ hdistinct

/-- A call of the link finds the values that its statement was made with. -/
theorem WrittenIn.valueAmong (h : l.WrittenIn d) {p : Parameter}
    (hp : p ∈ l.statement.fragment.parameters) : valueAmong l.parameters p = p.value := by
  obtain ⟨hparameters, hdistinct⟩ := render_ok h
  exact valueAmong_of_mem hdistinct (hparameters ▸ hp)

theorem WrittenIn.counting (h : l.WrittenIn d) : l.counting.WrittenIn d := h

theorem withoutResult_statement (l : Link) : l.withoutResult.statement = l.statement := by
  rw [withoutResult]
  split <;> rfl

theorem WrittenIn.withoutResult (h : l.WrittenIn d) : l.withoutResult.WrittenIn d := by
  rw [Link.withoutResult]
  split <;> exact h

end Link

end SchemaSql
