import SchemaSql.Error

/-!
Options of requests: the columns wanted back, the order and number of rows, and the choices that
each kind of write offers.
-/

set_option autoImplicit false
set_option relaxedAutoImplicit false

namespace SchemaSql

/-- The columns a caller wants back. -/
inductive Desired
  | none
  | all
  | named (names : List String)
deriving DecidableEq, Inhabited

def Desired.isNone : Desired → Bool
  | .none => true
  | .all => false
  | .named names => names.isEmpty

structure SortTerm where
  column : String
  descending : Bool := false
deriving DecidableEq, Inhabited

/-- Reads a column and an optional direction, separated by blanks. -/
def SortTerm.parse (input : String) : Except Error SortTerm :=
  match Text.words input.toList with
  | [] => .error (.invalidOperation .emptySort)
  | column :: rest =>
    let direction : Except Error Bool :=
      match rest with
      | [] => .ok false
      | word :: _ =>
        let word := word.map Char.toUpper
        if word = "ASC".toList then .ok false
        else if word = "DESC".toList then .ok true
        else .error (.invalidOperation (.unknownSortDirection (String.ofList word)))
    match direction with
    | .error e => .error e
    | .ok descending =>
      if rest.length ≤ 1 then .ok ⟨String.ofList column, descending⟩
      else .error (.invalidOperation (.malformedSort input))

structure Limits where
  option : LimitOption := .none
  skip : Option Int64 := none
  take : Option Int64 := none
  seed : Option Int64 := none
deriving DecidableEq, Inhabited

namespace Limits

/-- A number of rows to skip or take is a row limit, whether or not the request says so. -/
def effective (l : Limits) : LimitOption :=
  if l.option = .none ∧ (l.skip.isSome ∨ l.take.isSome) then .rows else l.option

def hasSkip (l : Limits) : Bool :=
  match l.skip with
  | some n => 0 < n
  | none => false

end Limits

structure InsertOptions where
  identityInsert : Bool := false
deriving DecidableEq, Inhabited

structure UpdateOptions where
  useKeyMarks : Bool := false
  returnOldValues : Bool := false
  ignoreRowsAffected : Bool := false
deriving DecidableEq, Inhabited

structure DeleteOptions where
  useKeyMarks : Bool := false
  ignoreRowsAffected : Bool := false
deriving DecidableEq, Inhabited

structure UpsertOptions where
  useKeyMarks : Bool := false
  identityInsert : Bool := false
deriving DecidableEq, Inhabited

end SchemaSql
