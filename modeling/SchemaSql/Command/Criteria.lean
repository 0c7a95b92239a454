import SchemaSql.Binding.Clauses

/-!
What restricts a request to some rows of its target, besides keys: nothing, a filter by properties,
or a condition that the caller wrote. The one that was set last counts.
-/

set_option autoImplicit false
set_option relaxedAutoImplicit false

namespace SchemaSql

inductive Criteria
  | none
  | filter (filter : Argument) (ignoreNulls : Bool)
  | written (text : String) (argument : Argument)
deriving DecidableEq

namespace Criteria

def isNone : Criteria → Bool
  | .none => true
  | _ => false

/-- Says whether a filter passes over properties that are null; without a filter it says nothing. -/
def ignoringNulls (ignoreNulls : Bool) : Criteria → Criteria
  | .filter f _ => .filter f ignoreNulls
  | c => c

def predicates (b : Binding) : Criteria → Except Error (List Predicate)
  | .none => .ok []
  | .filter f ignoreNulls => b.filterCriteria f ignoreNulls
  | .written text argument => .ok [.written text argument.toParameters]

end Criteria

end SchemaSql
