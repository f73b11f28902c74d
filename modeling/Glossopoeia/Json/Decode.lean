import Glossopoeia.Json.Basic
import Glossopoeia.Dictionary

/-!
# Decoding JSON

Readers of plain types, and `Record`, which reads a structure from an object or from an array of its
fields in order.  An object's fields are read in the order in which they stand there, so that of two
faults the first is reported; unknown keys are skipped and whatever they hold is not looked at.
-/

set_option autoImplicit false

namespace Glossopoeia

/-- Why a value could not be decoded. -/
inductive DecodeError where
  /-- The value is not of the required shape, or cannot be read at all. -/
  | mismatch
  /-- The value is none of the shapes of an affix rule. -/
  | affixRule
  /-- A declension rule is not an object of one key. -/
  | ruleKeys (found : Nat)
  /-- An affix slot is not an object of one key. -/
  | slotKeys (found : Nat)
deriving DecidableEq, Repr

/-- The text of a decoding error; a plain mismatch has none of its own. -/
def DecodeError.message : DecodeError → Option String
  | mismatch => none
  | affixRule => some "affix rule is not a replacement, conditional, plain or empty rule"
  | ruleKeys n =>
    some ("declension rule must have exactly one key, found " ++ toString n)
  | slotKeys n =>
    some ("affix slot must have exactly one key, found " ++ toString n)

/-- A reader of values of type `α`. -/
abbrev Decoder (α : Type) := Json → Except DecodeError α

namespace Decoder

variable {α : Type}

/-- A string. -/
def text : Decoder String
  | .text s => .ok s
  | _ => .error .mismatch

/-- A truth value. -/
def bool : Decoder Bool
  | .bool b => .ok b
  | _ => .error .mismatch

/-- The double nearest to a whole number of 64 bits. -/
def floatOfInt (n : Int) : Float :=
  let size := (UInt64.ofNat n.natAbs).toFloat
  if n < 0 then -size else size

/-- A number, read as a double. -/
def float : Decoder Float
  | .int n => .ok (floatOfInt n)
  | .float x => .ok x
  | _ => .error .mismatch

/-- Any value that can be held. -/
def value : Decoder Json := fun v ↦ if v.isReadable then .ok v.normalize else .error .mismatch

/-- Null, or a value that `d` reads. -/
def optional (d : Decoder α) : Decoder (Option α)
  | .null => .ok none
  | v => (d v).map some

/-- An array. -/
def list (d : Decoder α) : Decoder (List α)
  | .list items => items.mapM d
  | _ => .error .mismatch

/-- An object whose keys are free; of two values for one key the later holds. -/
def dictionary (d : Decoder α) : Decoder (Dictionary α)
  | .object fields =>
    fields.foldlM (fun dict (key, v) ↦ (d v).map (dict.insert key)) Dictionary.empty
  | _ => .error .mismatch

end Decoder

/-! ## Structures -/

/-- When a field may be missing. -/
inductive Presence where
  /-- Never. -/
  | required
  /-- Always: it has a default. -/
  | optional
  /-- In an object, but not in an array. -/
  | keyed
deriving DecidableEq, Repr

/-- A field of a structure. -/
structure Field (α : Type) where
  /-- Its key in an object. -/
  key : String
  /-- When it may be missing. -/
  presence : Presence
  /-- Read its value into the structure. -/
  read : Json → α → Except DecodeError α

/-- The field that `d` reads and `set` stores. -/
def Field.of {α β : Type} (key : String) (presence : Presence) (d : Decoder β)
    (set : β → α → α) : Field α :=
  ⟨key, presence, fun v a ↦ (d v).map fun b ↦ set b a⟩

/-- How a structure is read: what it is before any field is read, and its fields in order. -/
structure Record (α : Type) where
  /-- The structure with every field at its default. -/
  blank : α
  /-- The fields. -/
  fields : List (Field α)

namespace Record

variable {α : Type}

/-- Read the fields of an object; `seen` holds the keys read so far, none of which may come again.
-/
def readObject (fields : List (Field α)) :
    List String → α → List (String × Json) → Except DecodeError α
  | seen, a, [] =>
    if fields.all fun f ↦ f.presence != .required || seen.contains f.key then .ok a
    else .error .mismatch
  | seen, a, (key, v) :: rest =>
    match fields.find? (·.key == key) with
    | none => readObject fields seen a rest
    | some f =>
      if seen.contains key then .error .mismatch
      else
        match f.read v a with
        | .ok a => readObject fields (key :: seen) a rest
        | .error e => .error e

/-- Read the fields from the items of an array. -/
def readArray : List (Field α) → α → List Json → Except DecodeError α
  | fields, a, [] =>
    if fields.all fun f ↦ f.presence == .optional then .ok a else .error .mismatch
  | [], _, _ :: _ => .error .mismatch
  | f :: fields, a, v :: rest =>
    match f.read v a with
    | .ok a => readArray fields a rest
    | .error e => .error e

/-- Read a structure. -/
def decode (r : Record α) : Decoder α
  | .object fields => readObject r.fields [] r.blank fields
  | .list items => readArray r.fields r.blank items
  | _ => .error .mismatch

end Record

end Glossopoeia
