import Glossopoeia.Config.Settings
import Glossopoeia.Text.Basic

/-!
# Arguments of the command line

The command reads a save file and writes the document of its language.  An option's value follows it
as the next argument, after an equals sign, or directly after a short name.  No option may be given
twice, a flag takes no value, and there are no arguments besides options.
-/

set_option autoImplicit false

namespace Glossopoeia.CommandLine

open Text

/-- An option with a value. -/
inductive Setting where
  /-- The save file. -/
  | input
  /-- The document. -/
  | output
  /-- The settings file. -/
  | config
  /-- The voice of one speech engine. -/
  | voice
  /-- The voice of the other. -/
  | espeakLanguage
  /-- The language whose sounds are used when speaking. -/
  | language
deriving DecidableEq, Repr

/-- Is the value the path of a file, which cannot be empty? -/
def Setting.isPath : Setting → Bool
  | input | output | config => true
  | _ => false

/-- An option without a value. -/
inductive Flag where
  /-- Add declined forms. -/
  | decline
  /-- Leave out derived words. -/
  | noDerive
deriving DecidableEq, Repr

/-- What an option's name stands for. -/
inductive Name where
  /-- An option with a value. -/
  | setting (s : Setting)
  /-- An option without a value. -/
  | flag (f : Flag)
  /-- A question about the command itself. -/
  | information
deriving DecidableEq, Repr

/-- The options by their long names. -/
def longNames : List (String × Name) :=
  [("input", .setting .input), ("output", .setting .output), ("config", .setting .config),
   ("decline", .flag .decline), ("no-derive", .flag .noDerive), ("voice", .setting .voice),
   ("espeak-language", .setting .espeakLanguage), ("language", .setting .language),
   ("help", .information), ("version", .information)]

/-- The options by their short names. -/
def shortNames : List (Char × Name) :=
  [('i', .setting .input), ('o', .setting .output), ('c', .setting .config),
   ('v', .setting .voice), ('l', .setting .language), ('h', .information), ('V', .information)]

/-- What has been said so far. -/
structure Draft where
  /-- The values given. -/
  values : List (Setting × String)
  /-- The flags given. -/
  flags : List Flag
deriving DecidableEq, Repr

namespace Draft

/-- Give a value. -/
def give (d : Draft) (s : Setting) (value : String) : Option Draft :=
  if (d.values.lookup s).isSome || (s.isPath && value == "") then none
  else some { d with values := (s, value) :: d.values }

/-- Give a flag. -/
def raise (d : Draft) (f : Flag) : Option Draft :=
  if d.flags.contains f then none else some { d with flags := f :: d.flags }

end Draft

/-- What the command is to do. -/
structure Arguments where
  /-- The path of the save file. -/
  input : String
  /-- The path of the document. -/
  output : String
  /-- The path of the settings file. -/
  config : Option String
  /-- Add declined forms? -/
  decline : Bool
  /-- Leave out derived words? -/
  noDerive : Bool
  /-- The voice of one speech engine. -/
  voice : Option String
  /-- The voice of the other. -/
  espeakLanguage : Option String
  /-- The language whose sounds are used when speaking. -/
  language : Option String
deriving DecidableEq, Repr

/-- What the arguments amount to. -/
inductive Request where
  /-- Do the work. -/
  | work (a : Arguments)
  /-- Say something about the command. -/
  | information
  /-- The arguments make no sense. -/
  | unusable
deriving DecidableEq, Repr

/-- The work that has been asked for, if both files are named. -/
def Draft.finish (d : Draft) : Request :=
  match d.values.lookup .input, d.values.lookup .output with
  | some input, some output =>
    .work {
      input := input
      output := output
      config := d.values.lookup .config
      decline := d.flags.contains .decline
      noDerive := d.flags.contains .noDerive
      voice := d.values.lookup .voice
      espeakLanguage := d.values.lookup .espeakLanguage
      language := d.values.lookup .language }
  | _, _ => .unusable

/-- Could the argument be a value of its own?  One that begins with a hyphen could not, except the
hyphen alone. -/
def isValue (arg : String) : Bool := arg == "-" || arg.toList.head? != some '-'

/-- An argument taken apart. -/
inductive Argument where
  /-- The end of the options. -/
  | stop
  /-- An option, perhaps with a value of its own. -/
  | option (name : Name) (value : Option String)
  /-- Anything else. -/
  | unknown
deriving DecidableEq, Repr

/-- Take an argument apart. -/
def readArgument (arg : String) : Argument :=
  match arg.toList with
  | ['-', '-'] => .stop
  | '-' :: '-' :: rest =>
    let (name, value) := match cut '=' rest with
      | some (name, value) => (name, some (String.ofList value))
      | none => (rest, none)
    match longNames.lookup (String.ofList name) with
    | some name => .option name value
    | none => .unknown
  | '-' :: c :: rest =>
    match shortNames.lookup c, rest with
    | some .information, _ => .option .information none
    | some name, [] => .option name none
    | some name, '=' :: value => .option name (some (String.ofList value))
    | some name, value => .option name (some (String.ofList value))
    | none, _ => .unknown
  | _ => .unknown

/-- Read arguments. -/
def readFrom (d : Draft) : List String → Request
  | [] => d.finish
  | arg :: rest =>
    match readArgument arg with
    | .unknown => .unusable
    | .stop => if rest.isEmpty then d.finish else .unusable
    | .option .information none => .information
    | .option (.flag f) none =>
      match d.raise f with
      | some d => readFrom d rest
      | none => .unusable
    | .option (.setting s) (some value) =>
      match d.give s value with
      | some d => readFrom d rest
      | none => .unusable
    | .option (.setting s) none =>
      match rest with
      | value :: rest =>
        if isValue value then
          match d.give s value with
          | some d => readFrom d rest
          | none => .unusable
        else .unusable
      | [] => .unusable
    | .option _ (some _) => .unusable

/-- Read all arguments. -/
def Request.ofArguments (args : List String) : Request := readFrom ⟨[], []⟩ args

/-- What a build is told, by the settings and, where they say something else, by the arguments. -/
def Arguments.buildOptions (a : Arguments) (s : Settings) : BuildOptions :=
  let o := s.buildOptions
  { o with
    decline := o.decline || a.decline
    derive := o.derive && !a.noDerive
    voice := a.voice.or o.voice
    espeakLanguage := a.espeakLanguage.or o.espeakLanguage
    preferredLanguage := a.language.or o.preferredLanguage }

end Glossopoeia.CommandLine
