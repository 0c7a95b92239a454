import SchemaSql.Dialect.Quote
import SchemaSql.Dialect.Types
import SchemaSql.Parameter

/-!
Columns. A column answers to its own name and to its property name, the name cut down to what an
identifier may hold, in any ASCII letter case.
-/

set_option autoImplicit false
set_option relaxedAutoImplicit false

namespace SchemaSql

def isPropertyChar (c : Char) : Bool := c.isAlphanum || c == '_'

/-- The ASCII letters, digits and underscores of a name, behind an underscore if they would not
start with a letter or an underscore. -/
def propertyName (name : String) : String :=
  let kept := name.toList.filter isPropertyChar
  match kept with
  | c :: _ => if c.isAlpha || c == '_' then String.ofList kept else "_" ++ String.ofList kept
  | [] => "_"

structure Column where
  name : String
  quoted : String
  property : String
  typeName : String
  dbType : Option DbType
  nullable : Bool := true
  isKey : Bool := false
  isIdentity : Bool := false
  isComputed : Bool := false
  maxLength : Option Int := none
  precision : Option Int := none
  scale : Option Int := none
deriving DecidableEq

namespace Column

def make (d : Dialect) (name typeName : String) : Column where
  name
  quoted := d.quote name
  property := propertyName name
  typeName
  dbType := d.dbType? typeName

def valueKind (c : Column) : Option ValueKind := c.dbType.map DbType.valueKind

def notNull (c : Column) : Column := { c with nullable := false }

def key (c : Column) : Column := { c with isKey := true, nullable := false }

def identity (c : Column) : Column := { c with isIdentity := true }

def computed (c : Column) : Column := { c with isComputed := true }

/-- Whether a name, with or without markers, means this column. -/
def answersTo (c : Column) (name : String) : Bool :=
  Text.sameAscii c.name (bareName name) || Text.sameAscii c.property (bareName name)

/-- The database fills identity and computed columns itself. -/
def isWritable (c : Column) : Bool := !c.isIdentity && !c.isComputed

/-- A parameter that is named for the column and has its type. -/
def parameter (c : Column) (value : Value) (origin : Origin) : Parameter :=
  { Parameter.make ("@" ++ c.property) value origin with dbType := c.dbType }

end Column

end SchemaSql
