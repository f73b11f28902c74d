import Glossopoeia.CommandLine.Arguments

/-!
# Running the command

The command as a function from files to files.  `Workdir` is a directory with the files in it, and
`Workdir.run` says how the command ends and what the directory holds afterwards.
-/

set_option autoImplicit false

namespace Glossopoeia.CommandLine

open Text

/-- Where settings are looked for if no file is named. -/
def defaultConfig : String := "config.toml"

/-- How the command ends. -/
inductive Status where
  /-- It has done what it was asked. -/
  | done
  /-- Something is wrong with what it read or where it was to write. -/
  | failed
  /-- Its arguments make no sense. -/
  | unusable
deriving DecidableEq, Repr

/-- The exit code of a status. -/
def Status.code : Status → Nat
  | done => 0
  | failed => 1
  | unusable => 2

/-- The text of the document that is asked for, from the text of the settings file, if there is one,
and that of the save file; a file that cannot be read has no text. -/
def Arguments.compose (a : Arguments) (config save : Option String) : Except Error String := do
  let settings ← match config with
    | some text => Settings.read text
    | none => if a.config.isSome then throw .unavailable else pure Settings.default
  let text ← match save with
    | some text => pure text
    | none => throw .unavailable
  let save ← SaveFile.readJson text
  let language ← buildLanguage save (a.buildOptions settings)
  return language.write

/-- A directory: its files by their paths. -/
structure Workdir where
  /-- The files, each with its path and its text. -/
  files : List (String × String)
deriving DecidableEq, Repr

namespace Workdir

/-- The steps of a path; an absolute one begins with an empty step. -/
def steps (path : List Char) : List (List Char) :=
  match split '/' path with
  | [] :: rest => [] :: rest.filter fun s ↦ !s.isEmpty && s != ['.']
  | list => list.filter fun s ↦ !s.isEmpty && s != ['.']

/-- The steps of the paths of all files. -/
def paths (d : Workdir) : List (List (List Char)) := d.files.map fun f ↦ steps f.1.toList

/-- Is there a directory at these steps?  The working directory is one, and so is every directory on
the way to a file. -/
def hasDirectory (d : Workdir) (path : List (List Char)) : Bool :=
  path.isEmpty || d.paths.any fun p ↦ path.length < p.length && path.isPrefixOf p

/-- May the path name a file?  One that ends in a slash names a directory. -/
def namesFile (path : String) : Bool := path.toList.getLast? != some '/'

/-- The text of the file at a path. -/
def read? (d : Workdir) (path : String) : Option String :=
  if namesFile path then
    (d.files.find? fun f ↦ steps f.1.toList == steps path.toList).map Prod.snd
  else none

/-- Can a file be written at a path?  Its directory has to be there, and it must not be one
itself. -/
def canWrite (d : Workdir) (path : String) : Bool :=
  let steps := steps path.toList
  namesFile path && d.hasDirectory steps.dropLast && !d.hasDirectory steps

/-- The directory with a file written. -/
def write (d : Workdir) (path text : String) : Workdir :=
  if (d.read? path).isSome then
    ⟨d.files.map fun f ↦
      if steps f.1.toList == steps path.toList then (f.1, text) else f⟩
  else ⟨d.files ++ [(path, text)]⟩

/-- Run the command in a directory. -/
def run (d : Workdir) (args : List String) : Status × Workdir :=
  match Request.ofArguments args with
  | .unusable => (.unusable, d)
  | .information => (.done, d)
  | .work a =>
    match a.compose (d.read? (a.config.getD defaultConfig)) (d.read? a.input) with
    | .error _ => (.failed, d)
    | .ok text => if d.canWrite a.output then (.done, d.write a.output text) else (.failed, d)

end Workdir

end Glossopoeia.CommandLine
