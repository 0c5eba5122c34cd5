/-
# Tables in insertion order

A table maps names to entries and remembers the order in which names came.
Writing to a name that is present keeps its place; a new name goes to the
end. Scopes and dicts are both tables.

Key definitions: `Table`, `Table.get?`, `Table.set`, `Table.erase`,
`Table.names`.
-/

namespace RuleScript

/-- A table from names to entries, in insertion order. -/
abbrev Table (α : Type) := List (String × α)

namespace Table

variable {α β : Type}

/-- The entry of a name. -/
def get? (t : Table α) (name : String) : Option α := t.lookup name

/-- Whether a name has an entry. -/
def has (t : Table α) (name : String) : Bool := (t.get? name).isSome

/-- The table with the entry of `name` set: in place if the name is present,
else at the end. -/
def set : Table α → String → α → Table α
  | [], name, a => [(name, a)]
  | (n, b) :: rest, name, a =>
    if n = name then (n, a) :: rest else (n, b) :: set rest name a

/-- The table without a name. -/
def erase : Table α → String → Table α
  | [], _ => []
  | (n, b) :: rest, name => if n = name then rest else (n, b) :: erase rest name

/-- The names of a table, in insertion order. -/
def names (t : Table α) : List String := t.map Prod.fst

/-- The entries of a table, in insertion order. -/
def entries (t : Table α) : List α := t.map Prod.snd

/-- The table with every pair of a list written to it in turn. -/
def setAll (t : Table α) (pairs : List (String × α)) : Table α :=
  pairs.foldl (fun t p => t.set p.1 p.2) t

end Table

end RuleScript
