import Mathlib.Data.List.Forall2
import SchemaSql.Proofs.Statement.Placeholders

/-!
What the text of an update says. Every assignment and every condition is written in its place with
placeholders, and among all parameters of the call these stand for the parameters that the
assignment or condition was made with. The placeholders of the conditions continue the count of the
assignments, also within a condition that the caller wrote.
-/

set_option autoImplicit false
set_option relaxedAutoImplicit false

namespace SchemaSql

open Fragment

/-! ### What texts say -/

section Says

variable (style : PlaceholderStyle) (all : List Parameter)

/-- Behind a number of parameters the text is read as a text was that the caller wrote with some
parameters. Only numbers differ. -/
def RestatedBy (count : Nat) (written : String) (ps : List Parameter) (s : String) : Prop :=
  match style with
  | .named => s = written ∧ ∀ p ∈ ps, ∀ i, standsFor? .named all i p.name = some p
  | .positional => s = written ∧
      ∀ i < ps.length, standsFor? .positional all (count + i) "?" = ps[i]?
  | .numbered => all.length < power2 64 → .parameter none ∉ read ps written.toList →
      read all s.toList = read ps written.toList

/-- Behind a number of parameters the text says a condition, with placeholders that stand for the
condition's parameters. -/
def Predicate.SaidBy (count : Nat) (s : String) : Predicate → Prop
  | .isNull c => s = c.quoted ++ " IS NULL"
  | .equals c p => ∃ placeholder, standsFor? style all count placeholder = some p ∧
      s = c.quoted ++ " = " ++ placeholder
  | .among c ps => ∃ placeholders : List String,
      (placeholders.mapIdx fun i ↦ standsFor? style all (count + i)) = ps.map some ∧
        s = c.quoted ++ " IN (" ++ commaSeparated placeholders ++ ")"
  | .unmarked c p => ∃ placeholder, standsFor? style all count placeholder = some p ∧
      s = "(" ++ c.quoted ++ " <> " ++ placeholder ++ " OR " ++ c.quoted ++ " IS NULL)"
  | .lastInserted c => s = c.quoted ++ " = LAST_INSERT_ID()"
  | .written text ps => ∃ restated, RestatedBy style all count text ps restated ∧
      s = "(" ++ restated ++ ")"

/-- The texts say the conditions, one after another. -/
inductive ConditionsSaid : Nat → List Predicate → List String → Prop
  | nil (count : Nat) : ConditionsSaid count [] []
  | cons {count : Nat} {p : Predicate} {ps : List Predicate} {s : String} {ss : List String}
      (first : p.SaidBy style all count s)
      (rest : ConditionsSaid (count + p.parameters.length) ps ss) :
      ConditionsSaid count (p :: ps) (s :: ss)

end Says

def whereText : List String → String
  | [] => ""
  | ss => " WHERE " ++ String.intercalate " AND " ss

/-- The text of the link has conditions behind WHERE, if there are any, and says so with
placeholders that stand for parameters of the link. -/
def Link.SaysWhere (d : Dialect) (criteria : List Predicate) (l : Link) : Prop :=
  ∃ (before : String) (conditions : List String) (after : String) (count : Nat),
    l.text = before ++ whereText conditions ++ after ∧
      ConditionsSaid d.placeholderStyle l.parameters count criteria conditions

/-! ### Texts of updates -/

section Texts

variable {style : PlaceholderStyle} {front ps back : List Parameter}

theorem standsFor?_behind {p : Parameter} (h : DistinctNames (front ++ [p] ++ back)) :
    standsFor? style (front ++ [p] ++ back) front.length
      (placeholder style (front.length + 1) p) = some p :=
  standsFor?_placeholder style h (by simp)

theorem standsFor?_placeholdersAfter (h : DistinctNames (front ++ ps ++ back)) :
    ((placeholdersAfter style front.length ps).mapIdx fun i ↦
      standsFor? style (front ++ ps ++ back) (front.length + i)) = ps.map some := by
  refine List.ext_getElem (by simp [placeholdersAfter]) fun i hi _ ↦ ?_
  have hbound : i < ps.length := by simpa [placeholdersAfter] using hi
  simp only [placeholdersAfter, List.getElem_mapIdx, List.getElem_map]
  exact standsFor?_placeholder style h (by simp [List.getElem?_append, hbound])

/-- What the caller wrote is restated where it is rendered. -/
theorem restatedBy_pieceText (written : String)
    (h : DistinctNames (front ++ ps ++ back)) :
    RestatedBy style (front ++ ps ++ back) front.length written ps
      (pieceText style front.length (.raw written ps)) := by
  cases style with
  | named =>
    refine ⟨rfl, fun p hp _ ↦ ?_⟩
    obtain ⟨i, hi⟩ := List.getElem?_of_mem
      (List.mem_append_left back (List.mem_append_right front hp))
    have hstands := standsFor?_placeholder .named h hi
    exact hstands
  | positional =>
    refine ⟨rfl, fun i hi ↦ ?_⟩
    simp [standsFor?, List.getElem?_append, hi]
  | numbered =>
    intro hlength hknown
    rw [pieceText, String.toList_ofList]
    exact read_shiftPlaceholders hlength hknown

theorem Predicate.saidBy {p : Predicate} (h : DistinctNames (front ++ p.parameters ++ back)) :
    p.SaidBy style (front ++ p.parameters ++ back) front.length
      (p.fragment.textAfter style front.length) := by
  cases p with
  | isNull c | lastInserted c => simp [SaidBy, fragment]
  | equals c p => exact ⟨_, standsFor?_behind h, by simp [fragment]⟩
  | unmarked c p => exact ⟨_, standsFor?_behind h, by simp [fragment, String.append_assoc]⟩
  | among c ps => exact ⟨_, standsFor?_placeholdersAfter h, by simp [fragment, parameters]⟩
  | written text ps =>
    exact ⟨_, restatedBy_pieceText text h, by simp [fragment, parameters]⟩

theorem conditionsSaid {criteria : List Predicate}
    (h : DistinctNames (front ++ criteria.flatMap Predicate.parameters ++ back)) :
    ConditionsSaid style (front ++ criteria.flatMap Predicate.parameters ++ back) front.length
      criteria (textsAfter style front.length (criteria.map Predicate.fragment)) := by
  induction criteria generalizing front with
  | nil => exact .nil _
  | cons p ps ih =>
    rw [List.map_cons, textsAfter, Predicate.fragment_parameters]
    refine .cons ?_ ?_
    · rw [List.flatMap_cons, ← List.append_assoc, List.append_assoc _ _ back] at h ⊢
      exact Predicate.saidBy h
    · rw [List.flatMap_cons, ← List.append_assoc] at h ⊢
      rw [← List.length_append]
      exact ih h

theorem textAfter_whereClause (count : Nat) (criteria : List Predicate) :
    (whereClause criteria).textAfter style count =
      whereText (textsAfter style count (criteria.map Predicate.fragment)) := by
  cases criteria with
  | nil => rfl
  | cons p ps =>
    rw [whereClause, textAfter_append, textAfter_text, parameters_text, conjunction,
      textAfter_join]
    · rfl
    · simp

theorem Statement.update_text (style : PlaceholderStyle) (s : Update) :
    (update s).fragment.textAfter style 0 =
      "UPDATE " ++ s.target.quoted ++ " SET " ++
        commaSeparated (textsAfter style 0 (s.assignments.map (assignedText (·.quoted)))) ++
        s.output.early ++
        whereText (textsAfter style (s.assignments.flatMap fun a ↦ a.value.parameters).length
          (s.criteria.map Predicate.fragment)) ++ s.output.late ++ ";" := by
  have hset : (assignmentList (·.quoted) s.assignments).textAfter style 0 =
      commaSeparated (textsAfter style 0 (s.assignments.map (assignedText (·.quoted)))) :=
    textAfter_join 0 ", " _
  simp [fragment, Update.fragment, hset, textAfter_whereClause, String.append_assoc]

theorem Statement.delete_text (style : PlaceholderStyle) (s : Delete) :
    (delete s).fragment.textAfter style 0 =
      "DELETE FROM " ++ s.target.quoted ++ s.output.early ++
        whereText (textsAfter style 0 (s.criteria.map Predicate.fragment)) ++
        s.output.late ++ ";" := by
  simp [fragment, Delete.fragment, textAfter_whereClause, String.append_assoc]

end Texts

/-- The conditions behind all other parameters are said with their own. -/
theorem Link.WrittenIn.saysWhere {d : Dialect} {l : Link} (h : l.WrittenIn d)
    {front : List Parameter} {criteria : List Predicate} {before after : String}
    (hparameters : l.statement.fragment.parameters =
      front ++ criteria.flatMap Predicate.parameters)
    (htext : l.statement.fragment.textAfter d.placeholderStyle 0 = before ++
      whereText (textsAfter d.placeholderStyle front.length (criteria.map Predicate.fragment)) ++
        after) : l.SaysWhere d criteria := by
  obtain ⟨hall, hdistinct⟩ := render_ok h
  rw [hall, hparameters, ← List.append_nil (front ++ _)] at hdistinct
  refine ⟨before, _, after, front.length, (render_text h).trans htext, ?_⟩
  rw [hall, hparameters, ← List.append_nil (front ++ _)]
  exact conditionsSaid hdistinct

end SchemaSql
