import SchemaSql.Dialect.Basic
import SchemaSql.Name

/-!
Quoted identifiers. Each dialect encloses an identifier in its own pair of characters and doubles
the closing one inside, so any text can be an identifier. `scanQuoted?` reads one quoted identifier
from the front of a text.
-/

set_option autoImplicit false
set_option relaxedAutoImplicit false

namespace SchemaSql

namespace Dialect

def openQuote : Dialect → Char
  | .sqlServer | .access => '['
  | .mySql => ObjectName.backquote
  | .postgreSql | .sqlite => '"'

def closeQuote : Dialect → Char
  | .sqlServer | .access => ']'
  | .mySql => ObjectName.backquote
  | .postgreSql | .sqlite => '"'

/-- Writes every `q` twice. -/
def double (q : Char) : List Char → List Char
  | [] => []
  | c :: cs => if c = q then c :: c :: double q cs else c :: double q cs

def quoteChars (d : Dialect) (cs : List Char) : List Char :=
  d.openQuote :: (double d.closeQuote cs ++ [d.closeQuote])

def quote (d : Dialect) (name : String) : String :=
  String.ofList (d.quoteChars name.toList)

/-- Access has no schemas, so there a name is quoted without its own. -/
def quoteName (d : Dialect) (n : ObjectName) : String :=
  match d, n.schema with
  | .access, _ => d.quote n.name
  | _, none => d.quote n.name
  | _, some schema => d.quote schema ++ "." ++ d.quote n.name

/-- Reads up to the first `q` that is not doubled: what was quoted, and the rest. -/
def scanClosing? (q : Char) : List Char → Option (List Char × List Char)
  | [] => none
  | [c] => if c = q then some ([], []) else none
  | c :: d :: cs =>
    if c = q then
      if d = q then (scanClosing? q cs).map fun r ↦ (q :: r.1, r.2) else some ([], d :: cs)
    else (scanClosing? q (d :: cs)).map fun r ↦ (c :: r.1, r.2)

/-- Reads one quoted identifier: its text, and what follows it. -/
def scanQuoted? (d : Dialect) : List Char → Option (List Char × List Char)
  | [] => none
  | c :: cs => if c = d.openQuote then scanClosing? d.closeQuote cs else none

end Dialect

end SchemaSql
