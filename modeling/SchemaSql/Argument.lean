import SchemaSql.Error

/-!
The data that a request carries: nothing, named properties, or parameters made beforehand. A
property may be marked as part of the key.
-/

set_option autoImplicit false
set_option relaxedAutoImplicit false

namespace SchemaSql

structure Property where
  name : String
  value : Value
  isKey : Bool := false
deriving DecidableEq, Inhabited

inductive Argument
  | none
  | properties (properties : List Property)
  | parameters (parameters : List Parameter)
deriving DecidableEq, Inhabited

namespace Argument

def isNone : Argument → Bool
  | .none => true
  | _ => false

/-- The properties in order; a parameter counts as one under its name without markers. -/
def toProperties : Argument → List Property
  | .none => []
  | .properties ps => ps
  | .parameters ps => ps.map fun p ↦ { name := p.bare, value := p.value }

/-- Replaces the first item that satisfies `p`, or appends `new` if there is none. -/
def replaceFirst {α : Type} (p : α → Bool) (f : α → α) (new : α) : List α → List α
  | [] => [new]
  | a :: as => if p a then f a :: as else a :: replaceFirst p f new as

/-- Gives a property a value, adding the property if it is missing. -/
def set (name : String) (value : Value) : Argument → Argument
  | .none => .properties [{ name, value }]
  | .properties ps =>
    .properties (replaceFirst (fun p ↦ Text.sameAscii p.name name) (fun p ↦ { p with value })
      { name, value } ps)
  | .parameters ps =>
    .parameters (replaceFirst (fun p ↦ Text.sameAscii p.bare name) (fun p ↦ { p with value })
      (Parameter.make name value .audit) ps)

def ofJson : Json → Except Error Argument
  | .null => .ok .none
  | .object members =>
    .ok (.properties (members.map fun m ↦ { name := m.1, value := Value.ofJson m.2 }))
  | j => .error (.mapping (.argumentNotObject j.render))

def ofPairs (pairs : List (String × Value)) : Argument :=
  .properties (pairs.map fun p ↦ { name := p.1, value := p.2 })

/-- The parameters for a text that the caller wrote. -/
def toParameters : Argument → List Parameter
  | .none => []
  | .parameters ps => ps
  | .properties ps => ps.map fun p ↦ Parameter.make p.name p.value .raw

end Argument

end SchemaSql
