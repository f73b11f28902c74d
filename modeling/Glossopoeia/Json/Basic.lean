/-!
# JSON values

Whole numbers and doubles are kept apart, because they are written differently.  An object read from
a text still has its fields in the order of the text, a repeated key included; `normalize` gives the
value proper, where keys ascend and of two values for one key the later holds.

A text may spell a value that nothing can hold: a number beyond the doubles, half of a surrogate
pair, a nesting beyond the limit.  Such a value is `unreadable`.  It does no harm where nobody
looks.
-/

set_option autoImplicit false

namespace Glossopoeia

/-- A JSON value. -/
inductive Json where
  /-- The null value. -/
  | null
  /-- A truth value. -/
  | bool (value : Bool)
  /-- A whole number. -/
  | int (value : Int)
  /-- A number with a fraction or an exponent. -/
  | float (value : Float)
  /-- A string. -/
  | text (value : String)
  /-- An array. -/
  | list (items : List Json)
  /-- An object. -/
  | object (fields : List (String × Json))
  /-- What the text spells, but nothing can hold. -/
  | unreadable

namespace Json

instance : Inhabited Json := ⟨null⟩

/-- Put a field in its place among ascending fields, unless the key is there already. -/
def insertField (key : String) (value : Json) : List (String × Json) → List (String × Json)
  | [] => [(key, value)]
  | (k, v) :: rest =>
    if key < k then (key, value) :: (k, v) :: rest
    else if key = k then (k, v) :: rest
    else (k, v) :: insertField key value rest

mutual

/-- The value proper: in every object the keys ascend and each occurs once. -/
def normalize : Json → Json
  | list items => list (normalizeItems items)
  | object fields => object (normalizeFields fields)
  | v => v

/-- `normalize` on the items of an array. -/
def normalizeItems : List Json → List Json
  | [] => []
  | v :: rest => normalize v :: normalizeItems rest

/-- `normalize` on the fields of an object: of two fields with one key the later holds. -/
def normalizeFields : List (String × Json) → List (String × Json)
  | [] => []
  | (k, v) :: rest => insertField k (normalize v) (normalizeFields rest)

end

mutual

/-- Can the value and all its parts be held? -/
def isReadable : Json → Bool
  | unreadable => false
  | list items => areReadable items
  | object fields => fieldsReadable fields
  | _ => true

/-- `isReadable` on the items of an array. -/
def areReadable : List Json → Bool
  | [] => true
  | v :: rest => isReadable v && areReadable rest

/-- `isReadable` on the fields of an object. -/
def fieldsReadable : List (String × Json) → Bool
  | [] => true
  | (_, v) :: rest => isReadable v && fieldsReadable rest

end

/-- The field of an object with the given key. -/
def field? : Json → String → Option Json
  | object fields, key => fields.lookup key
  | _, _ => none

/-- The string that a value is, if it is one. -/
def text? : Json → Option String
  | text s => some s
  | _ => none

/-- An array of strings. -/
def texts (items : List String) : Json := list (items.map text)

end Json

end Glossopoeia
