import SchemaSql.Command.Basic

/-!
A table of users, which instances of general statements are about: a key, a name, and a mark of
removed users.
-/

set_option autoImplicit false
set_option relaxedAutoImplicit false

namespace SchemaSql.Users

def id (d : Dialect) : Column := (Column.make d "Id" "integer").key

def name (d : Dialect) : Column := Column.make d "Name" "text"

def removed (d : Dialect) : Column := Column.make d "Removed" "boolean"

def table (d : Dialect) : Table :=
  Table.make d ⟨none, "Users"⟩ true [id d, name d, removed d]

/-- Removed users are marked, and a name is written anew by every change. -/
def environment (d : Dialect) (mark name : Value) : Environment where
  dialect := d
  rules :=
    { softDeletes := [⟨"Removed", mark⟩]
      values := [{ column := "Name", onUpdate := true, value := .fixed name }] }

/-- Renames the users that have the given key and are without a mark. -/
def rename (d : Dialect) (key name : Value) : Command :=
  .updateWhere (table d) (.properties [⟨"Name", name, false⟩])
    (.filter (.properties [⟨"Id", key, false⟩, ⟨"Removed", .null, false⟩]) false) false false

end SchemaSql.Users
