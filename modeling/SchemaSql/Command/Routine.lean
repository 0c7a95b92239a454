import SchemaSql.Argument
import SchemaSql.Catalog.Descriptor
import SchemaSql.Chain

/-!
Calls of stored procedures and table functions. Every declared parameter is passed, with the value
of the property that it answers to or with null.
-/

set_option autoImplicit false
set_option relaxedAutoImplicit false

namespace SchemaSql

def boundParameter (properties : List Property) (p : RoutineParameter) : Parameter :=
  let value := match properties.find? fun q ↦ p.answersTo q.name with
    | some q => q.value
    | none => .null
  { Parameter.make p.name value .argument with dbType := p.dbType, direction := p.direction }

/-- The parameters of a call. If `strict`, every property must mean one of them. -/
def bindRoutine (object : String) (declared : List RoutineParameter) (argument : Argument)
    (strict : Bool) : Except Error (List Parameter) :=
  let properties := argument.toProperties
  match properties.find? fun q ↦ strict && !declared.any fun p ↦ p.answersTo q.name with
  | some q => .error (.mapping (.unknownRoutineProperty q.name object))
  | none => .ok (declared.map (boundParameter properties))

def functionSource (d : Dialect) (f : TableFunction) (arguments : List Parameter) :
    Except Error Source :=
  if d.supportsTableFunctions then .ok (.function f.target arguments)
  else .error (.unsupported d .tableFunctions)

def procedureLink (d : Dialect) (p : Procedure) (arguments : List Parameter) :
    Except Error Link :=
  match d with
  | .sqlServer | .access => .ok (Link.ofProcedure "ProcedureCall" p.target arguments)
  | .postgreSql | .mySql => Link.ofStatement d "ProcedureCall" (.call p.target arguments)
  | .sqlite => .error (.unsupported d .storedProcedures)

end SchemaSql
