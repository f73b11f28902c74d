/-!
# Settings in TOML

The values of a settings file, and the tree that its tables and keys grow into.  A table is opened
at most once by a header, and by dotted keys only from the table that they stand in; a key is bound
at most once.  Numbers and dates have no part in any setting, so only their being well formed
counts.
-/

set_option autoImplicit false

namespace Glossopoeia

/-- How a table came to be. -/
inductive TableOrigin where
  /-- Only as part of the name of another one. -/
  | implied
  /-- By a header. -/
  | header
  /-- By a dotted key. -/
  | dotted
deriving DecidableEq, Repr

/-- A value of a settings file. -/
inductive Toml where
  /-- A string. -/
  | text (s : String)
  /-- A truth value. -/
  | bool (b : Bool)
  /-- A number. -/
  | number
  /-- A date or a time. -/
  | moment
  /-- An array. -/
  | list (items : List Toml)
  /-- A table in braces, which cannot grow. -/
  | inline (fields : List (String × Toml))
  /-- A table. -/
  | table (origin : TableOrigin) (fields : List (String × Toml))
  /-- A row of tables, the latest first. -/
  | tables (rows : List (List (String × Toml)))
deriving Inhabited

namespace Toml

/-- The fields of a table, first bound first. -/
abbrev Fields := List (String × Toml)

/-- Bind a key that is not bound yet, or bind it anew. -/
def setField (key : String) (v : Toml) : Fields → Fields
  | [] => [(key, v)]
  | (k, old) :: rest => if k = key then (key, v) :: rest else (k, old) :: setField key v rest

/-- Change the fields of the table at a path.  On the way, missing tables are implied and of a row
of tables the latest counts. -/
def within (change : Fields → Option Fields) : List String → Fields → Option Fields
  | [], fields => change fields
  | key :: path, fields =>
    match fields.lookup key with
    | none => (within change path []).map fun sub ↦ setField key (.table .implied sub) fields
    | some (.table origin sub) =>
      (within change path sub).map fun sub ↦ setField key (.table origin sub) fields
    | some (.tables (row :: rows)) =>
      (within change path row).map fun row ↦ setField key (.tables (row :: rows)) fields
    | some _ => none

/-- Bind a key that is not bound yet. -/
def bindNew (key : String) (v : Toml) (fields : Fields) : Option Fields :=
  match fields.lookup key with
  | none => some (setField key v fields)
  | some _ => none

/-- Bind a dotted key.  The tables on the way are not those of headers, and the last of them is one
that dotted keys have made. -/
def bindDotted (v : Toml) : List String → Fields → Option Fields
  | [], _ => none
  | [key], fields => bindNew key v fields
  | key :: path, fields =>
    match fields.lookup key with
    | none => (bindDotted v path []).map fun sub ↦ setField key (.table .dotted sub) fields
    | some (.table .dotted sub) =>
      (bindDotted v path sub).map fun sub ↦ setField key (.table .dotted sub) fields
    | some (.table .implied sub) =>
      if path.length = 1 then none
      else (bindDotted v path sub).map fun sub ↦ setField key (.table .implied sub) fields
    | some (.tables (row :: rows)) =>
      if path.length = 1 then none
      else (bindDotted v path row).map fun row ↦ setField key (.tables (row :: rows)) fields
    | some _ => none

/-- Open a table by its header. -/
def openTable (key : String) (fields : Fields) : Option Fields :=
  match fields.lookup key with
  | none => some (setField key (.table .header []) fields)
  | some (.table .implied sub) => some (setField key (.table .header sub) fields)
  | some _ => none

/-- Open a further table of a row. -/
def openRow (key : String) (fields : Fields) : Option Fields :=
  match fields.lookup key with
  | none => some (setField key (.tables [[]]) fields)
  | some (.tables rows) => some (setField key (.tables ([] :: rows)) fields)
  | some _ => none

/-- A line of a settings file. -/
inductive Statement where
  /-- The header of a table. -/
  | table (path : List String) (key : String)
  /-- The header of a further table of a row. -/
  | row (path : List String) (key : String)
  /-- A key and its value. -/
  | binding (path : List String) (v : Toml)

/-- The tree of a settings file, and the table that its keys now go to. -/
structure Growing where
  /-- The root table. -/
  root : Fields
  /-- The path of the table in hand. -/
  here : List String

/-- Grow the tree by one statement. -/
def Growing.add (g : Growing) : Statement → Option Growing
  | .table path key =>
    (within (openTable key) path g.root).map fun root ↦ ⟨root, path ++ [key]⟩
  | .row path key => (within (openRow key) path g.root).map fun root ↦ ⟨root, path ++ [key]⟩
  | .binding path v =>
    (within (bindDotted v path) g.here g.root).map fun root ↦ { g with root := root }

/-- The root table that statements make. -/
def ofStatements (list : List Statement) : Option Fields :=
  (list.foldlM Growing.add ⟨[], []⟩).map Growing.root

end Toml

end Glossopoeia
