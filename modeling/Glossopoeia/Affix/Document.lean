import Glossopoeia.Affix.Basic
import Glossopoeia.Json.Decode

/-!
# Affixes in documents

An affix rule is an object whose keys tell its shape: it is a replacement if it has the four texts
of one, else conditional if it has the six of one, else plain if it has the two of one, and empty
only if it has no key at all.  A slot and a declension rule are objects of one key, and a
derivational affix is its rule with a `type` beside it.
-/

set_option autoImplicit false

namespace Glossopoeia

/-! ## Writing -/

/-- The fields of an affix rule. -/
def AffixRule.fields : AffixRule → List (String × Json)
  | substitute p sp r sr =>
    [("pronunciation_regex", .text p), ("spelling_regex", .text sp),
     ("pronunciation_replacement", .text r), ("spelling_replacement", .text sr)]
  | conditional p sp t ts f fs =>
    [("pronunciation_regex", .text p), ("spelling_regex", .text sp),
     ("t_pronunciation_add", .text t), ("t_spelling_add", .text ts),
     ("f_pronunciation_add", .text f), ("f_spelling_add", .text fs)]
  | plain a s => [("pronunciation_add", .text a), ("spelling_add", .text s)]
  | empty => []

/-- An affix rule as a document has it. -/
def AffixRule.toJson (r : AffixRule) : Json := .object r.fields

/-- A declension rule as a document has it. -/
def DeclensionRule.toJson (r : DeclensionRule) : Json := .object [(r.declension, r.affix.toJson)]

/-- A slot as a document has it. -/
def AffixSlot.toJson (s : AffixSlot) : Json :=
  .object [(s.kind.name, .list (s.rules.map DeclensionRule.toJson))]

/-- An affix map as a document has it. -/
def AffixMap.toJson (m : AffixMap) : Json :=
  .object (m.entries.map fun (pos, slots) ↦ (pos, .list (slots.map AffixSlot.toJson)))

/-- A derivational affix as a document has it. -/
def DerivationalAffix.toJson (a : DerivationalAffix) : Json :=
  .object (("type", .text a.position.name) :: a.rule.fields)

/-- The derivational affixes as a document has them. -/
def DerivationalAffixMap.toJson (m : DerivationalAffixMap) : Json :=
  .object (m.entries.map fun (tag, a) ↦ (tag, a.toJson))

/-! ## Reading -/

namespace AffixRule

/-- The texts of the given keys, if each of them is there, once, and holds a string. -/
def texts? (fields : List (String × Json)) (keys : List String) : Option (List String) :=
  keys.mapM fun key ↦
    match fields.filter (·.1 == key) with
    | [(_, .text s)] => some s
    | _ => none

/-- The keys of a replacement. -/
def substituteKeys : List String :=
  ["pronunciation_regex", "spelling_regex", "pronunciation_replacement", "spelling_replacement"]

/-- The keys of a conditional rule. -/
def conditionalKeys : List String :=
  ["pronunciation_regex", "spelling_regex", "t_pronunciation_add", "t_spelling_add",
   "f_pronunciation_add", "f_spelling_add"]

/-- The keys of a plain rule. -/
def plainKeys : List String := ["pronunciation_add", "spelling_add"]

/-- A replacement, if the fields are those of one. -/
def substitute? (fields : List (String × Json)) : Option AffixRule :=
  match texts? fields substituteKeys with
  | some [p, sp, r, sr] => some (substitute p sp r sr)
  | _ => none

/-- A conditional rule, if the fields are those of one. -/
def conditional? (fields : List (String × Json)) : Option AffixRule :=
  match texts? fields conditionalKeys with
  | some [p, sp, t, ts, f, fs] => some (conditional p sp t ts f fs)
  | _ => none

/-- A plain rule, if the fields are those of one. -/
def plain? (fields : List (String × Json)) : Option AffixRule :=
  match texts? fields plainKeys with
  | some [a, s] => some (plain a s)
  | _ => none

/-- The rule of the first shape that fits the fields. -/
def ofFields? (fields : List (String × Json)) : Option AffixRule :=
  (substitute? fields).or <| (conditional? fields).or <| (plain? fields).or <|
    if fields.isEmpty then some empty else none

/-- Read an affix rule.  The whole value has to be readable, whatever shape it has. -/
def decode : Decoder AffixRule := fun v ↦
  let rule? : Option AffixRule :=
    match v with
    | .object fields => ofFields? fields
    | .list [] => some empty
    | _ => none
  match rule? with
  | some rule => if v.isReadable then .ok rule else .error .affixRule
  | none => .error .affixRule

end AffixRule

/-- Read a declension rule. -/
def DeclensionRule.decode : Decoder DeclensionRule := fun v ↦
  match Decoder.dictionary AffixRule.decode v with
  | .error e => .error e
  | .ok d =>
    match d.entries with
    | [(declension, affix)] => .ok ⟨declension, affix⟩
    | entries => .error (.ruleKeys entries.length)

/-- Read the fields of a slot; kinds are told apart by name, and of two lists for one kind the later
holds. -/
def AffixSlot.decodeFields :
    List (AffixKind × List DeclensionRule) → List (String × Json) →
      Except DecodeError (List (AffixKind × List DeclensionRule))
  | found, [] => .ok found
  | found, (key, v) :: rest =>
    match AffixKind.ofName? key with
    | none => .error .mismatch
    | some kind =>
      match Decoder.list DeclensionRule.decode v with
      | .error e => .error e
      | .ok rules => decodeFields ((kind, rules) :: found.filter (·.1 != kind)) rest

/-- Read a slot. -/
def AffixSlot.decode : Decoder AffixSlot
  | .object fields =>
    match decodeFields [] fields with
    | .error e => .error e
    | .ok [(kind, rules)] => .ok ⟨kind, rules⟩
    | .ok found => .error (.slotKeys found.length)
  | _ => .error .mismatch

/-- Read an affix map. -/
def AffixMap.decode : Decoder AffixMap := Decoder.dictionary (Decoder.list AffixSlot.decode)

/-- Read an end of a word: its name, or an object that binds its name to null. -/
def WordEnd.decode : Decoder WordEnd := fun v ↦
  let name? : Option String :=
    match v with
    | .text s => some s
    | .object [(s, .null)] => some s
    | _ => none
  match name?.bind WordEnd.ofName? with
  | some position => .ok position
  | none => .error .mismatch

/-- Read a derivational affix: its type and, from all other fields, its rule. -/
def DerivationalAffix.decode : Decoder DerivationalAffix
  | .object fields =>
    match fields.filter (·.1 == "type") with
    | [(_, type)] =>
      match WordEnd.decode type with
      | .error e => .error e
      | .ok position =>
        match AffixRule.decode (.object (fields.filter (·.1 != "type"))) with
        | .ok rule => .ok ⟨position, rule⟩
        | .error e => .error e
    | _ => .error .mismatch
  | _ => .error .mismatch

/-- Read the derivational affixes. -/
def DerivationalAffixMap.decode : Decoder DerivationalAffixMap :=
  Decoder.dictionary DerivationalAffix.decode

end Glossopoeia
