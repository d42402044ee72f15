import Runbook.Catalog
import Std.Data.HashMap

/-!
# Catalogs as tables

A catalog that is made for looking up: a table from names to commands, without an order among them.
A command is entered under its own name, unless that is taken. To be listed, the commands are
brought into the order of their names.

`Catalog` keeps the same commands in the order in which they were added, and looks a name up by
going through them.
-/

namespace Runbook

/-- Commands under their names. -/
structure Catalog.Table where
  commands : Std.HashMap String Command

namespace Catalog.Table

/-- A table without commands. -/
def empty : Table := ⟨∅⟩

instance : EmptyCollection Table := ⟨empty⟩

/-- The table has a command of the name. -/
def contains (t : Table) (name : String) : Bool := t.commands.contains name

/-- The command of a name, or the error that there is none. -/
def resolve (t : Table) (name : String) : Except CatalogError Command :=
  match t.commands[name]? with
  | some command => .ok command
  | none => .error (.unknown name)

/-- The number of commands. -/
def size (t : Table) : Nat := t.commands.size

/-- Enters a command under its name, unless that is taken. -/
def add (t : Table) (command : Command) : Table × Option CatalogError :=
  if t.contains command.name then (t, some (.duplicate command.name))
  else (⟨t.commands.insert command.name command⟩, none)

/-- Enters commands up to the first that is refused, and reports why it is. -/
def addAll (t : Table) : List Command → Table × Option CatalogError
  | [] => (t, none)
  | command :: rest =>
    match t.add command with
    | (t, none) => t.addAll rest
    | (t, some e) => (t, some e)

/-- The commands, in no order. -/
def values (t : Table) : List Command := t.commands.toList.map (·.2)

/-- The commands by ascending name. -/
def sorted (t : Table) : List Command := t.values.mergeSort fun a b => a.name ≤ b.name

end Catalog.Table

end Runbook
