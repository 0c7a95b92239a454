/-!
Powers of two and of ten, and the integers that 64 bits hold with a sign.
-/

set_option autoImplicit false
set_option relaxedAutoImplicit false

namespace SchemaSql

def power2 (n : Nat) : Nat := Nat.pow 2 n

def power10 (n : Nat) : Nat := Nat.pow 10 n

def leastInt64 : Int := -9223372036854775808

def greatestInt64 : Int := 9223372036854775807

def isInt64 (n : Int) : Bool := leastInt64 ≤ n && n ≤ greatestInt64

end SchemaSql
