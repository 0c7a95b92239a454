import SchemaSql.Error
import SchemaSql.Text.Lowercase

/-!
Pieces of a statement's text with the parameters they carry, in the order in which they are
written. A fragment is rendered for a dialect once it is complete: every parameter becomes a
placeholder, and a text written by the caller has its numbered placeholders moved behind the
parameters before it. Values stay in the parameters.
-/

set_option autoImplicit false
set_option relaxedAutoImplicit false

namespace SchemaSql

inductive Piece
  | text (s : String)
  | param (p : Parameter)
  | raw (s : String) (parameters : List Parameter)
deriving DecidableEq

structure Fragment where
  pieces : List Piece
deriving DecidableEq

def Piece.parameters : Piece → List Parameter
  | .text _ => []
  | .param p => [p]
  | .raw _ ps => ps

namespace Fragment

def empty : Fragment := ⟨[]⟩

def text (s : String) : Fragment := ⟨if s.isEmpty then [] else [.text s]⟩

def param (p : Parameter) : Fragment := ⟨[.param p]⟩

def raw (s : String) (parameters : List Parameter) : Fragment := ⟨[.raw s parameters]⟩

/-- One list of pieces after another, with the texts that meet written as one. -/
def joinPieces : List Piece → List Piece → List Piece
  | [], bs => bs
  | [.text s], .text t :: bs => .text (s ++ t) :: bs
  | a :: as, bs => a :: joinPieces as bs

def append (a b : Fragment) : Fragment := ⟨joinPieces a.pieces b.pieces⟩

instance : Append Fragment := ⟨append⟩

def concat (parts : List Fragment) : Fragment :=
  parts.foldr (fun part rest ↦ part ++ rest) empty

/-- The fragments with a separator between each two. -/
def join (separator : String) : List Fragment → Fragment
  | [] => empty
  | [part] => part
  | part :: rest => part ++ text separator ++ join separator rest

def isEmpty (f : Fragment) : Bool := f.pieces.isEmpty

def parameters (f : Fragment) : List Parameter := f.pieces.flatMap Piece.parameters

/-- The number that the digits spell, if 64 bits hold it. -/
def placeholderNumber? (digits : List Char) : Option Nat :=
  if digits.isEmpty then none
  else
    let n := Decimal.readNat digits
    if n < power2 64 then some n else none

/-- The digits of a placeholder, moved by the offset. -/
def shiftDigits (offset : Nat) (digits : List Char) : List Char :=
  match placeholderNumber? digits with
  | some n => (toString ((n + offset) % power2 64)).toList
  | none => digits

/-- Where the text stands while its placeholders are moved. -/
inductive ShiftState
  | plain
  | quoted (quote : Char)
  | digits (read : List Char)

/-- Moves the placeholders of a text by an offset. Quotes are copied; the digits behind an
unquoted dollar sign are gathered until another character comes. -/
def shiftFrom (offset : Nat) : ShiftState → List Char → List Char
  | .plain, [] => []
  | .quoted _, [] => []
  | .digits ds, [] => shiftDigits offset ds.reverse
  | .quoted q, c :: cs => c :: shiftFrom offset (if c = q then .plain else .quoted q) cs
  | .plain, c :: cs => c :: shiftFrom offset (entering c) cs
  | .digits ds, c :: cs =>
    if c.isDigit then shiftFrom offset (.digits (c :: ds)) cs
    else shiftDigits offset ds.reverse ++ c :: shiftFrom offset (entering c) cs
where
  /-- What an unquoted character starts. -/
  entering (c : Char) : ShiftState :=
    if c.toNat = 39 ∨ c = '"' then .quoted c else if c = '$' then .digits [] else .plain

def shiftPlaceholders (offset : Nat) (cs : List Char) : List Char :=
  if offset = 0 then cs else shiftFrom offset .plain cs

/-- The placeholder of the parameter that is written as number `k`. -/
def placeholder (style : PlaceholderStyle) (k : Nat) (p : Parameter) : String :=
  match style with
  | .named => p.name
  | .numbered => "$" ++ toString k
  | .positional => "?"

/-- A parameter among those already written that has the same name. -/
def clash? (written : List Parameter) (p : Parameter) : Option Parameter :=
  written.find? fun q ↦ Text.lowercase q.name == Text.lowercase p.name

/-- Adds parameters to those already written; no two of them may share a name. -/
def register (written : List Parameter) : List Parameter → Except Error (List Parameter)
  | [] => .ok written
  | p :: ps =>
    match clash? written p with
    | some q => .error (.duplicateParameter p.name q.origin p.origin)
    | none => register (written ++ [p]) ps

/-- The text of a piece that follows `count` parameters. -/
def pieceText (style : PlaceholderStyle) (count : Nat) : Piece → String
  | .text s => s
  | .param p => placeholder style (count + 1) p
  | .raw s _ =>
    match style with
    | .numbered => String.ofList (shiftPlaceholders count s.toList)
    | _ => s

def renderFrom (style : PlaceholderStyle) (written : List Parameter) :
    List Piece → Except Error (String × List Parameter)
  | [] => .ok ("", written)
  | piece :: rest =>
    match register written piece.parameters with
    | .error e => .error e
    | .ok written' =>
      match renderFrom style written' rest with
      | .error e => .error e
      | .ok (text, all) => .ok (pieceText style written.length piece ++ text, all)

/-- The text of the fragment and its parameters in the order of their placeholders. -/
def render (style : PlaceholderStyle) (f : Fragment) : Except Error (String × List Parameter) :=
  renderFrom style [] f.pieces

end Fragment

end SchemaSql
