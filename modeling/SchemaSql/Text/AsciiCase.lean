/-!
Comparison and folding that change the case of ASCII letters and leave every other character as
it is. Column names, keywords and modes are compared this way.
-/

set_option autoImplicit false
set_option relaxedAutoImplicit false

namespace SchemaSql.Text

def asciiLower (s : String) : String :=
  String.ofList (s.toList.map Char.toLower)

def asciiUpper (s : String) : String :=
  String.ofList (s.toList.map Char.toUpper)

def sameAscii (a b : String) : Bool :=
  a.toList.map Char.toLower == b.toList.map Char.toLower

/-- The order of texts by code point, in which a text follows its beginnings. -/
def precedes : List Char → List Char → Bool
  | [], [] => false
  | [], _ :: _ => true
  | _ :: _, [] => false
  | a :: as, b :: bs => a.toNat < b.toNat || (a == b && precedes as bs)

theorem sameAscii_self (a : String) : sameAscii a a = true := by
  simp [sameAscii]

theorem sameAscii_comm (a b : String) : sameAscii a b = sameAscii b a := by
  simp only [sameAscii, Bool.beq_comm]

theorem sameAscii_iff (a b : String) :
    sameAscii a b = true ↔ a.toList.map Char.toLower = b.toList.map Char.toLower := by
  simp [sameAscii]

end SchemaSql.Text
