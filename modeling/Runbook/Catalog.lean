import Runbook.Command.Standard

/-!
# Catalogs

A catalog holds commands under their names; upper and lower case make different names. A name that
is taken stays with the command that came first: `add` refuses another one.
-/

namespace Runbook

/-- Commands with distinct names, in the order in which they were added. -/
structure Catalog where
  commands : List Command
  nodup : (commands.map (·.name)).Nodup

/-- Why a catalog cannot serve a name. -/
inductive CatalogError where
  | duplicate (name : String)
  | unknown (name : String)
deriving DecidableEq, Repr

namespace CatalogError

/-- The words in which an error is reported. -/
def message : CatalogError → String
  | .duplicate name => s!"function `{name}` is already registered"
  | .unknown name => s!"unknown function `{name}`"

end CatalogError

namespace Catalog

/-- A catalog without commands. -/
def empty : Catalog := ⟨[], List.nodup_nil⟩

instance : EmptyCollection Catalog := ⟨empty⟩

instance : Inhabited Catalog := ⟨empty⟩

/-- The command of a name, if the catalog has one. -/
def find? (c : Catalog) (name : String) : Option Command :=
  c.commands.find? fun command => command.name = name

/-- The catalog has a command of the name. -/
def contains (c : Catalog) (name : String) : Bool :=
  c.commands.any fun command => command.name = name

/-- The command of a name, or the error that there is none. -/
def resolve (c : Catalog) (name : String) : Except CatalogError Command :=
  match c.find? name with
  | some command => .ok command
  | none => .error (.unknown name)

/-- The number of commands. -/
def size (c : Catalog) : Nat := c.commands.length

/-- Adds a command, unless its name is taken. -/
def add (c : Catalog) (command : Command) : Except CatalogError Catalog :=
  if h : c.contains command.name = true then .error (.duplicate command.name)
  else .ok
    { commands := c.commands ++ [command]
      nodup := by
        simp only [contains, List.any_eq_true, decide_eq_true_eq, not_exists, not_and] at h
        rw [List.map_append, List.map_singleton, List.nodup_append]
        refine ⟨c.nodup, by simp, ?_⟩
        intro a ha b hb
        obtain ⟨d, hd, rfl⟩ := List.mem_map.1 ha
        rw [List.mem_singleton] at hb
        exact hb ▸ h d hd }

/-- Adds commands up to the first whose name is taken, and reports that name. -/
def addAll (c : Catalog) : List Command → Catalog × Option CatalogError
  | [] => (c, none)
  | command :: rest =>
    match c.add command with
    | .ok c => c.addAll rest
    | .error e => (c, some e)

/-- The catalog of the commands that come with the library. -/
def standard : Catalog := (empty.addAll Command.standard).1

/-- The commands by ascending name. -/
def sorted (c : Catalog) : List Command := c.commands.mergeSort fun a b => a.name ≤ b.name

end Catalog

end Runbook
