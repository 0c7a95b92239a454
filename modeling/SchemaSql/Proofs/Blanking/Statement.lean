import SchemaSql.Chain

/-!
Statements without their values. Blanking replaces the value of every parameter by null and leaves
everything else as it is. The text of a statement is the same before and after, and so are the
placeholders and the reason why a fragment cannot be rendered.
-/

set_option autoImplicit false
set_option relaxedAutoImplicit false

namespace SchemaSql

def Parameter.blank (p : Parameter) : Parameter := { p with value := .null }

def Predicate.blank : Predicate → Predicate
  | .isNull c => .isNull c
  | .equals c p => .equals c p.blank
  | .among c ps => .among c (ps.map Parameter.blank)
  | .unmarked c p => .unmarked c p.blank
  | .lastInserted c => .lastInserted c
  | .written s ps => .written s (ps.map Parameter.blank)

def Source.blank : Source → Source
  | .table t => .table t
  | .function t ps => .function t (ps.map Parameter.blank)

def Amount.blank : Amount → Amount
  | .bound p => .bound p.blank
  | .literal n => .literal n

def Top.blank (t : Top) : Top := { t with amount := t.amount.blank }

def Take.blank : Take → Take
  | .none => .none
  | .bound p => .bound p.blank
  | .unlimited n => .unlimited n

def Window.blank : Window → Window
  | .none => .none
  | .limit take skip => .limit take.blank (skip.map Parameter.blank)
  | .fetch skip take ties => .fetch (skip.map Parameter.blank) (take.map Parameter.blank) ties

def Select.blank (s : Select) : Select :=
  { s with
    source := s.source.blank
    top := s.top.map Top.blank
    criteria := s.criteria.map Predicate.blank
    window := s.window.blank }

def NewValue.blank : NewValue → NewValue
  | .parameter p => .parameter p.blank
  | .supplied => .supplied
  | .unchanged => .unchanged

def Assignment.blank (a : Assignment) : Assignment := { a with value := a.value.blank }

def Conflict.blank : Conflict → Conflict
  | .fail => .fail
  | .ignore => .ignore
  | .onKeys keys assignments => .onKeys keys (assignments.map Assignment.blank)
  | .onDuplicate assignments => .onDuplicate (assignments.map Assignment.blank)

def Cell.blank (c : Cell) : Cell := { c with parameter := c.parameter.blank }

def Insert.blank (s : Insert) : Insert :=
  { s with row := s.row.map Cell.blank, conflict := s.conflict.blank }

def Update.blank (s : Update) : Update :=
  { s with
    assignments := s.assignments.map Assignment.blank
    criteria := s.criteria.map Predicate.blank }

def Delete.blank (s : Delete) : Delete := { s with criteria := s.criteria.map Predicate.blank }

def Merge.blank (s : Merge) : Merge := { s with source := s.source.map Cell.blank }

def Statement.blank : Statement → Statement
  | .select s => .select s.blank
  | .insert s => .insert s.blank
  | .update s => .update s.blank
  | .delete s => .delete s.blank
  | .merge s => .merge s.blank
  | .lastIdentity => .lastIdentity
  | .call t ps => .call t (ps.map Parameter.blank)
  | .procedure t ps => .procedure t (ps.map Parameter.blank)
  | .written s ps => .written s (ps.map Parameter.blank)
  | .discover d q ps => .discover d q (ps.map Parameter.blank)

def Link.blank (l : Link) : Link :=
  { l with statement := l.statement.blank, parameters := l.parameters.map Parameter.blank }

def Piece.blank : Piece → Piece
  | .text s => .text s
  | .param p => .param p.blank
  | .raw s ps => .raw s (ps.map Parameter.blank)

def Fragment.blank (f : Fragment) : Fragment := ⟨f.pieces.map Piece.blank⟩

theorem Piece.blank_eq_text (p : Piece) (s : String) : p.blank = .text s ↔ p = .text s := by
  cases p <;> simp [blank]

namespace Fragment

/-! ### Blanking fragments -/

@[simp] theorem blank_empty : empty.blank = empty := rfl

@[simp] theorem blank_text (s : String) : (text s).blank = text s := by
  unfold text
  split <;> rfl

@[simp] theorem blank_param (p : Parameter) : (param p).blank = param p.blank := rfl

@[simp] theorem blank_raw (s : String) (ps : List Parameter) :
    (raw s ps).blank = raw s (ps.map Parameter.blank) := rfl

theorem map_blank_joinPieces (as bs : List Piece) :
    (joinPieces as bs).map Piece.blank =
      joinPieces (as.map Piece.blank) (bs.map Piece.blank) := by
  fun_induction joinPieces as bs with
  | case1 bs => rfl
  | case2 s t bs => rfl
  | case3 a as bs hmeet ih =>
    rw [List.map_cons, ih, List.map_cons, joinPieces]
    -- the pieces that meet are both texts after blanking only if they were before
    intro s t rest hbs ha has
    obtain ⟨b, bs', hcons, hb, -⟩ := List.map_eq_cons_iff.mp hbs
    rw [Piece.blank_eq_text] at ha hb
    exact hmeet s t bs' (hb ▸ hcons) ha (List.map_eq_nil_iff.mp has)

@[simp] theorem blank_append (a b : Fragment) : (a ++ b).blank = a.blank ++ b.blank :=
  congrArg Fragment.mk (map_blank_joinPieces a.pieces b.pieces)

theorem blank_join (separator : String) (parts : List Fragment) :
    (join separator parts).blank = join separator (parts.map blank) := by
  fun_induction join separator parts with
  | case1 => rfl
  | case2 part => rfl
  | case3 part rest hrest ih =>
    rw [blank_append, blank_append, blank_text, ih]
    cases rest with
    | nil => exact absurd rfl hrest
    | cons next rest => rfl

/-! ### Rendering without values -/

theorem parameters_blank (p : Piece) : p.blank.parameters = p.parameters.map Parameter.blank := by
  cases p <;> rfl

theorem clash?_blank (written : List Parameter) (p : Parameter) :
    clash? (written.map Parameter.blank) p.blank = (clash? written p).map Parameter.blank := by
  unfold clash?
  rw [List.find?_map]
  rfl

theorem register_blank (written ps : List Parameter) :
    register (written.map Parameter.blank) (ps.map Parameter.blank) =
      (register written ps).map (List.map Parameter.blank) := by
  induction ps generalizing written with
  | nil => rfl
  | cons p ps ih =>
    rw [List.map_cons, register, register, clash?_blank]
    cases clash? written p with
    | some q => rfl
    | none => simpa using ih (written ++ [p])

theorem pieceText_blank (style : PlaceholderStyle) (count : Nat) (p : Piece) :
    pieceText style count p.blank = pieceText style count p := by
  cases p with
  | text s => rfl
  | param p => cases style <;> rfl
  | raw s ps => rfl

theorem renderFrom_blank (style : PlaceholderStyle) (written : List Parameter)
    (pieces : List Piece) :
    renderFrom style (written.map Parameter.blank) (pieces.map Piece.blank) =
      (renderFrom style written pieces).map fun r ↦ (r.1, r.2.map Parameter.blank) := by
  induction pieces generalizing written with
  | nil => rfl
  | cons piece rest ih =>
    rw [List.map_cons, renderFrom, renderFrom, parameters_blank, register_blank]
    cases register written piece.parameters with
    | error e => rfl
    | ok written' =>
      simp only [Except.map, ih, pieceText_blank, List.length_map]
      cases renderFrom style written' rest <;> rfl

/-- Values play no part in rendering: the text and the names, origins and types of the parameters
are those of the fragment without values. -/
theorem render_blank (style : PlaceholderStyle) (f : Fragment) :
    f.blank.render style = (f.render style).map fun r ↦ (r.1, r.2.map Parameter.blank) :=
  renderFrom_blank style [] f.pieces

end Fragment

/-! ### The fragments of blanked statements -/

open Fragment

theorem parameterList_blank (ps : List Parameter) :
    parameterList (ps.map Parameter.blank) = (parameterList ps).blank := by
  rw [parameterList, parameterList, blank_join, List.map_map, List.map_map]
  rfl

theorem Predicate.fragment_blank (p : Predicate) : p.blank.fragment = p.fragment.blank := by
  cases p <;> simp [Predicate.blank, Predicate.fragment, parameterList_blank]

theorem conjunction_blank (criteria : List Predicate) :
    conjunction (criteria.map Predicate.blank) = (conjunction criteria).blank := by
  rw [conjunction, conjunction, blank_join, List.map_map, List.map_map]
  congr 2
  funext p
  exact p.fragment_blank

theorem whereClause_blank (criteria : List Predicate) :
    whereClause (criteria.map Predicate.blank) = (whereClause criteria).blank := by
  cases criteria with
  | nil => rfl
  | cons p ps =>
    have h := conjunction_blank (p :: ps)
    simp only [List.map_cons] at h
    simp [whereClause, h]

theorem Source.fragment_blank (s : Source) : s.blank.fragment = s.fragment.blank := by
  cases s <;> simp [Source.blank, Source.fragment, parameterList_blank]

theorem topClause_blank (t : Option Top) :
    topClause (t.map Top.blank) = (topClause t).blank := by
  cases t with
  | none => rfl
  | some t => cases t with
    | mk amount percent ties =>
      cases amount <;> simp [topClause, Top.blank, Amount.blank, Amount.fragment]

theorem parameterBetween_blank (before after : String) (p : Option Parameter) :
    parameterBetween before (p.map Parameter.blank) after =
      (parameterBetween before p after).blank := by
  cases p <;> simp [parameterBetween]

theorem Window.clause_blank (w : Window) : w.blank.clause = w.clause.blank := by
  cases w with
  | none => rfl
  | limit take skip =>
    cases take <;> simp [blank, Take.blank, clause, Take.clause, parameterBetween_blank]
  | fetch skip take ties => simp [blank, clause, parameterBetween_blank]

theorem Select.fragment_blank (s : Select) : s.blank.fragment = s.fragment.blank := by
  simp [fragment, blank, topClause_blank, Source.fragment_blank, whereClause_blank,
    Window.clause_blank]

theorem assignedText_blank (supplied : Column → String) (a : Assignment) :
    assignedText supplied a.blank = (assignedText supplied a).blank := by
  cases a with
  | mk column value => cases value <;> simp [assignedText, Assignment.blank, NewValue.blank]

theorem assignmentList_blank (supplied : Column → String) (assignments : List Assignment) :
    assignmentList supplied (assignments.map Assignment.blank) =
      (assignmentList supplied assignments).blank := by
  rw [assignmentList, assignmentList, blank_join, List.map_map, List.map_map]
  congr 2
  funext a
  exact assignedText_blank supplied a

theorem Conflict.clause_blank (c : Conflict) : c.blank.clause = c.clause.blank := by
  cases c with
  | fail => rfl
  | ignore => rfl
  | onKeys keys assignments =>
    cases assignments with
    | nil => simp [blank, clause]
    | cons a rest =>
      have h := assignmentList_blank excludedText (a :: rest)
      simp only [List.map_cons] at h
      simp [blank, clause, h]
  | onDuplicate assignments => simp [blank, clause, assignmentList_blank]

theorem Conflict.verb_blank (c : Conflict) : c.blank.verb = c.verb := by
  cases c <;> rfl

theorem announce_blank (announced : Bool) (target : Target) (f : Fragment) :
    announce announced target f.blank = (announce announced target f).blank := by
  cases announced <;> simp [announce]

theorem rowColumns_blank (row : List Cell) : rowColumns (row.map Cell.blank) = rowColumns row := by
  rw [rowColumns, List.map_map]
  rfl

theorem rowParameters_blank (row : List Cell) :
    rowParameters (row.map Cell.blank) = (rowParameters row).map Parameter.blank := by
  rw [rowParameters, rowParameters, List.map_map, List.map_map]
  rfl

theorem Insert.fragment_blank (s : Insert) : s.blank.fragment = s.fragment.blank := by
  cases s with
  | mk target row conflict announced overriding output =>
    cases overriding <;>
      simp [fragment, blank, ← announce_blank, rowColumns_blank, rowParameters_blank,
        parameterList_blank, Conflict.clause_blank, Conflict.verb_blank]

theorem Update.fragment_blank (s : Update) : s.blank.fragment = s.fragment.blank := by
  simp [fragment, blank, assignmentList_blank, whereClause_blank]

theorem Delete.fragment_blank (s : Delete) : s.blank.fragment = s.fragment.blank := by
  simp [fragment, blank, whereClause_blank]

theorem Merge.fragment_blank (s : Merge) : s.blank.fragment = s.fragment.blank := by
  simp [fragment, blank, ← announce_blank, rowColumns_blank, rowParameters_blank,
    parameterList_blank]

theorem Statement.fragment_blank (s : Statement) : s.blank.fragment = s.fragment.blank := by
  cases s with
  | select s => exact s.fragment_blank
  | insert s => exact s.fragment_blank
  | update s => exact s.fragment_blank
  | delete s => exact s.fragment_blank
  | merge s => exact s.fragment_blank
  | lastIdentity => simp [blank, fragment]
  | call t ps => simp [blank, fragment, parameterList_blank]
  | procedure t ps => simp [blank, fragment]
  | written s ps => simp [blank, fragment]
  | discover d q ps => simp [blank, fragment]

theorem Link.ofStatement_blank (d : Dialect) (operation : String) (s : Statement) :
    ofStatement d operation s.blank = (ofStatement d operation s).map blank := by
  rw [ofStatement, ofStatement, s.fragment_blank, render_blank]
  cases s.fragment.render d.placeholderStyle <;> rfl

end SchemaSql
