import SchemaSql.CommandLine.Report
import SchemaSql.Store.Description

/-!
The program: reads the files that a command line names, and prints the report. The database is a
file that describes its tables and rows.
-/

set_option autoImplicit false
set_option relaxedAutoImplicit false

namespace SchemaSql

/-- The file that a database address names. -/
def databaseFile (address : String) : String :=
  match address.dropPrefix? "sqlite://", address.dropPrefix? "sqlite:" with
  | some file, _ | none, some file => file.toString
  | none, none => address

def readFile? (file : String) : IO (Option String) := do
  try
    return some (← IO.FS.readFile file)
  catch _ =>
    return none

def openStore (address : String) : IO (Except Error Store) := do
  match ← readFile? (databaseFile address) with
  | none => return .error (.driver "unable to open database file")
  | some text =>
    match Store.readDescription text with
    | .ok database => return .ok { database }
    | .error r => return .error r.error

def runInvocation (i : Invocation) : IO Report := do
  match i.settingsFile with
  | none => return i.report none (← openStore i.database)
  | some file =>
    match ← readFile? file with
    | some text => return i.report (some text) (← openStore i.database)
    | none => return { code := 1, complaint := some ("Error: reading " ++ file) }

end SchemaSql

def main (args : List String) : IO UInt32 := do
  let report ← match SchemaSql.Invocation.read? (← IO.getEnv "DATABASE_URL") args with
    | some i => SchemaSql.runInvocation i
    | none => pure SchemaSql.Report.misused
  for line in report.lines do
    IO.println line
  if let some complaint := report.complaint then
    IO.eprintln complaint
  return UInt32.ofNat report.code
