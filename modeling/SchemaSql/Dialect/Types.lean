import SchemaSql.Dialect.Basic
import SchemaSql.Text.Blank

/-!
Column types. A dialect's type names map to the type families of `DbType`, each of which holds one
kind of value. A type name is read in any letter case, up to its first parenthesis, and without the
word `unsigned`.
-/

set_option autoImplicit false
set_option relaxedAutoImplicit false

namespace SchemaSql

inductive DbType
  | boolean | tinyInt | smallInt | int | bigInt | decimal | money | real | double
  | char | varChar | nChar | nVarChar | text | binary | varBinary
  | date | time | dateTime | dateTimeOffset | guid | xml | json
deriving DecidableEq

inductive ValueKind
  | bool | integer | float | decimal | text | bytes
  | date | time | timestamp | timestampWithOffset | uuid
deriving DecidableEq

namespace DbType

def all : List DbType :=
  [.boolean, .tinyInt, .smallInt, .int, .bigInt, .decimal, .money, .real, .double, .char, .varChar,
    .nChar, .nVarChar, .text, .binary, .varBinary, .date, .time, .dateTime, .dateTimeOffset, .guid,
    .xml, .json]

def name : DbType → String
  | .boolean => "Boolean"
  | .tinyInt => "TinyInt"
  | .smallInt => "SmallInt"
  | .int => "Int"
  | .bigInt => "BigInt"
  | .decimal => "Decimal"
  | .money => "Money"
  | .real => "Real"
  | .double => "Double"
  | .char => "Char"
  | .varChar => "VarChar"
  | .nChar => "NChar"
  | .nVarChar => "NVarChar"
  | .text => "Text"
  | .binary => "Binary"
  | .varBinary => "VarBinary"
  | .date => "Date"
  | .time => "Time"
  | .dateTime => "DateTime"
  | .dateTimeOffset => "DateTimeOffset"
  | .guid => "Guid"
  | .xml => "Xml"
  | .json => "Json"

def valueKind : DbType → ValueKind
  | .boolean => .bool
  | .tinyInt | .smallInt | .int | .bigInt => .integer
  | .decimal | .money => .decimal
  | .real | .double => .float
  | .char | .varChar | .nChar | .nVarChar | .text | .xml | .json => .text
  | .binary | .varBinary => .bytes
  | .date => .date
  | .time => .time
  | .dateTime => .timestamp
  | .dateTimeOffset => .timestampWithOffset
  | .guid => .uuid

end DbType

def ValueKind.name : ValueKind → String
  | .bool => "Bool"
  | .integer => "Integer"
  | .float => "Float"
  | .decimal => "Decimal"
  | .text => "Text"
  | .bytes => "Bytes"
  | .date => "Date"
  | .time => "Time"
  | .timestamp => "Timestamp"
  | .timestampWithOffset => "TimestampWithOffset"
  | .uuid => "Uuid"

namespace Dialect

/-- Type names in lower case, each group with the family it belongs to. -/
def typeNames : Dialect → List (List String × DbType)
  | .sqlServer =>
    [(["bit"], .boolean), (["tinyint"], .tinyInt), (["smallint"], .smallInt), (["int"], .int),
      (["bigint"], .bigInt), (["decimal", "numeric"], .decimal),
      (["money", "smallmoney"], .money), (["real"], .real), (["float"], .double),
      (["char"], .char), (["varchar"], .varChar), (["nchar"], .nChar),
      (["nvarchar", "sysname"], .nVarChar), (["text", "ntext"], .text),
      (["binary", "timestamp", "rowversion"], .binary), (["varbinary", "image"], .varBinary),
      (["date"], .date), (["time"], .time),
      (["datetime", "datetime2", "smalldatetime"], .dateTime),
      (["datetimeoffset"], .dateTimeOffset), (["uniqueidentifier"], .guid), (["xml"], .xml)]
  | .postgreSql =>
    [(["bool", "boolean"], .boolean), (["int2", "smallint", "smallserial"], .smallInt),
      (["int", "int4", "integer", "serial", "serial4"], .int),
      (["int8", "bigint", "bigserial", "serial8"], .bigInt),
      (["numeric", "decimal"], .decimal), (["money"], .money), (["float4", "real"], .real),
      (["float8", "double precision"], .double), (["bpchar", "char", "character"], .char),
      (["varchar", "character varying", "citext"], .varChar), (["text", "name"], .text),
      (["bytea"], .varBinary), (["date"], .date),
      (["time", "timetz", "time without time zone", "time with time zone"], .time),
      (["timestamp", "timestamp without time zone"], .dateTime),
      (["timestamptz", "timestamp with time zone"], .dateTimeOffset), (["uuid"], .guid),
      (["xml"], .xml), (["json", "jsonb"], .json)]
  | .mySql =>
    [(["bit", "bool", "boolean"], .boolean), (["tinyint"], .tinyInt),
      (["smallint", "year"], .smallInt), (["mediumint", "int", "integer"], .int),
      (["bigint"], .bigInt), (["decimal", "numeric", "dec", "fixed"], .decimal),
      (["float"], .real), (["double", "double precision", "real"], .double), (["char"], .char),
      (["varchar", "enum", "set"], .varChar),
      (["tinytext", "text", "mediumtext", "longtext"], .text), (["binary"], .binary),
      (["varbinary", "tinyblob", "blob", "mediumblob", "longblob"], .varBinary),
      (["date"], .date), (["time"], .time), (["datetime", "timestamp"], .dateTime),
      (["json"], .json)]
  | .sqlite =>
    [(["integer", "int", "bigint", "int8"], .bigInt), (["smallint", "int2"], .smallInt),
      (["tinyint"], .tinyInt), (["mediumint"], .int), (["boolean", "bool"], .boolean),
      (["real", "double", "double precision", "float"], .double),
      (["numeric", "decimal"], .decimal), (["text", "clob"], .text),
      (["varchar", "character varying", "nvarchar", "varying character"], .varChar),
      (["char", "character", "nchar", "native character"], .char), (["blob"], .binary),
      (["date"], .date), (["datetime", "timestamp"], .dateTime), (["time"], .time),
      (["uuid", "guid"], .guid), (["json"], .json)]
  | .access =>
    [(["bit", "yesno", "logical"], .boolean), (["byte"], .tinyInt),
      (["short", "smallint", "integer2"], .smallInt),
      (["long", "int", "integer", "counter", "autoincrement"], .int), (["bigint"], .bigInt),
      (["decimal", "numeric"], .decimal), (["currency", "money"], .money),
      (["single", "real"], .real), (["double", "float"], .double), (["char"], .char),
      (["text", "varchar", "string"], .varChar), (["longtext", "memo", "longchar"], .text),
      (["binary"], .binary), (["varbinary", "longbinary", "oleobject"], .varBinary),
      (["datetime", "date"], .dateTime), (["guid", "uniqueidentifier"], .guid)]

/-- Parts of a type name that decide its family where the whole name is not listed. SQLite reads
type names by such affinities. -/
def typeNameParts : Dialect → List (List String × DbType)
  | .sqlite =>
    [(["int"], .bigInt), (["char", "clob", "text"], .text), (["real", "floa", "doub"], .double)]
  | _ => []

end Dialect

/-- Whether a text occurs within another. -/
def Text.occursIn (part : List Char) : List Char → Bool
  | [] => part.isEmpty
  | c :: cs => part.isPrefixOf (c :: cs) || Text.occursIn part cs

/-- Removes the occurrences of a text from left to right; `skip` characters are part of one that
was found. -/
def Text.removeAll (part : List Char) : Nat → List Char → List Char
  | _, [] => []
  | skip + 1, _ :: cs => Text.removeAll part skip cs
  | 0, c :: cs =>
    if part ≠ [] ∧ part.isPrefixOf (c :: cs) then Text.removeAll part (part.length - 1) cs
    else c :: Text.removeAll part 0 cs

namespace Dialect

/-- The part of a type name that decides its family. -/
def baseTypeName (typeName : List Char) : List Char :=
  let head := (typeName.map Char.toLower).takeWhile fun c ↦ c != '('
  Text.trimChars (Text.removeAll "unsigned".toList 0 head)

def dbType? (d : Dialect) (typeName : String) : Option DbType :=
  let base := baseTypeName typeName.toList
  match d.typeNames.find? fun e ↦ e.1.any fun n ↦ n.toList == base with
  | some e => some e.2
  | none =>
    (d.typeNameParts.find? fun e ↦ e.1.any fun n ↦ Text.occursIn n.toList base).map (·.2)

end Dialect

end SchemaSql
