import Glossopoeia.Declension.Word
import Glossopoeia.Declension.Combination
import Glossopoeia.Affix.Transform
import Glossopoeia.Positions

/-!
# Declension

A word is declined by every combination of its part of speech's slots: each slot of a combination
contributes one of its rules, one after the other, and every form on the way counts.  The slots are
taken in the order of their kinds' names: particles, prefixes, replacements, suffixes.  A particle
ends a combination, since it does nothing to the word.

Many a form comes up more than once.  The forms are collected in groups of those that sound alike,
and one that a form of its group absorbs is dropped (`SoundGroups`).
-/

set_option autoImplicit false

namespace Glossopoeia

open Text

/-- The place of a kind in the order of the kinds' names. -/
def AffixKind.rank : AffixKind → Nat
  | particle => 0
  | front => 1
  | replacement => 2
  | back => 3

/-- A rule of a slot, compiled. -/
structure CompiledRule where
  /-- The name of the form that it makes. -/
  declension : String
  /-- What it does. -/
  transform : Transform
deriving DecidableEq, Repr

/-- A slot, compiled. -/
structure CompiledSlot where
  /-- What its rules do to a word. -/
  kind : AffixKind
  /-- Its rules. -/
  rules : List CompiledRule
deriving DecidableEq, Repr

namespace CompiledSlot

/-- Does the rule take part in declension?  In a slot of replacements a condition does not. -/
def isUsable (kind : AffixKind) (r : DeclensionRule) : Bool :=
  match kind, r.affix with
  | .replacement, .conditional .. => false
  | _, _ => true

/-- Compile a slot. -/
def ofSlot (slot : AffixSlot) : Except Error CompiledSlot := do
  let rules ← (slot.rules.filter (isUsable slot.kind)).mapM fun r ↦ do
    let t ← Transform.ofRule r.affix
    return (⟨r.declension, t⟩ : CompiledRule)
  return ⟨slot.kind, rules⟩

/-- The end of the word that additions go to. -/
def position (s : CompiledSlot) : WordEnd := if s.kind = .front then .front else .back

end CompiledSlot

/-- A form of a word. -/
structure Variant where
  /-- How it sounds. -/
  phonetic : List Char
  /-- The names of the rules that made it, in order. -/
  declension : List String
  /-- Its part of speech. -/
  partOfSpeech : String
deriving DecidableEq, Repr

namespace Variant

/-- The form without a mark of primary stress at its start. -/
def unstressed (form : List Char) : List Char :=
  match form with
  | c :: rest => if c = SoundRule.primaryStress then rest else form
  | [] => []

/-- The forms that slots make of a form, one slot after the other, with `labels` for the rules
applied already.  Forms made further on come before the form they are made of. -/
def expand (partOfSpeech : String) : List CompiledSlot → List Char → List String → List Variant
  | [], _, _ => []
  | slot :: rest, form, labels =>
    if slot.kind = .particle then []
    else
      slot.rules.flatMap fun rule ↦
        let next := rule.transform.apply slot.position form (unstressed form)
        let labels := labels ++ [rule.declension]
        expand partOfSpeech rest next labels ++ [⟨next, labels, partOfSpeech⟩]

/-- Do the labels agree up to the shorter of the two lists? -/
def labelsAgree : List String → List String → Bool
  | a :: as, b :: bs => a == b && labelsAgree as bs
  | _, _ => true

/-- Is `v` absorbed by the form that is kept? -/
def isAbsorbed (kept v : Variant) : Bool :=
  kept.partOfSpeech == v.partOfSpeech && labelsAgree kept.declension v.declension

/-- How the forms of a group sound: as the first of them does. -/
def soundOf? (group : List Variant) : Option (List Char) := group.head?.map phonetic

theorem soundOf?_append {group : List Variant} {sound : List Char}
    (h : soundOf? group = some sound) (v : Variant) : soundOf? (group ++ [v]) = some sound := by
  cases group with
  | nil => cases h
  | cons first rest => exact h

end Variant

/-- Forms in groups of those that sound alike, and where the group of each sound stands. -/
structure SoundGroups where
  /-- The groups, in the order in which their sounds came up first. -/
  groups : List (List Variant)
  /-- Where the group of each sound stands. -/
  bySound : Positions (List Char)
  /-- The table is that of the groups. -/
  tells : bySound.Tells Variant.soundOf? groups

namespace SoundGroups

/-- No groups. -/
def empty : SoundGroups := ⟨[], .empty, .empty⟩

/-- The group at a place. -/
def groupAt (g : SoundGroups) (place : Nat) (h : place < g.groups.length) : List Variant :=
  g.groups.get ⟨place, h⟩

theorem soundOf?_groupAt (g : SoundGroups) {sound : List Char} {place : Nat}
    (h : g.bySound.get? sound = some place) :
    Variant.soundOf? (g.groupAt place (g.tells.lt_length h)) = some sound := by
  have hsound := (g.tells sound place).1 h
  rwa [List.getElem?_eq_getElem (g.tells.lt_length h)] at hsound

/-- Put a form into the group of its sound, unless one of that group absorbs it. -/
def extend (g : SoundGroups) (v : Variant) (place : Nat)
    (h : g.bySound.get? v.phonetic = some place) : SoundGroups :=
  let group := g.groupAt place (g.tells.lt_length h)
  if group.any (Variant.isAbsorbed · v) then g
  else
    { groups := g.groups.set place (group ++ [v])
      bySound := g.bySound
      tells := g.tells.set <| by
        rw [Variant.soundOf?_append (g.soundOf?_groupAt h), (g.tells v.phonetic place).1 h] }

/-- Open a group for a form that sounds like none. -/
def push (g : SoundGroups) (v : Variant) (h : g.bySound.get? v.phonetic = none) : SoundGroups where
  groups := g.groups ++ [[v]]
  bySound := g.bySound.insert v.phonetic g.groups.length
  tells := g.tells.append_singleton h rfl

/-- Put a form into the group of those that sound alike, unless one of them absorbs it; a form that
sounds like none opens a group. -/
def insert (g : SoundGroups) (v : Variant) : SoundGroups :=
  match h : g.bySound.get? v.phonetic with
  | some place => g.extend v place h
  | none => g.push v h

/-- The groups of many forms. -/
def ofVariants (variants : List Variant) : SoundGroups := variants.foldl insert empty

end SoundGroups

/-- The forms that are not absorbed, grouped by sound. -/
def Variant.dedup (variants : List Variant) : List Variant :=
  (SoundGroups.ofVariants variants).groups.flatten

/-- The slots of all parts of speech, compiled, and the spelling of what they make. -/
structure Decliner where
  /-- The slots of each part of speech, in the order of their kinds. -/
  slots : Dictionary (List CompiledSlot)
  /-- The spelling. -/
  speller : Speller
deriving DecidableEq

namespace Decliner

/-- Slots in the order of their kinds; those of one kind stay as they were. -/
def sortSlots (slots : List CompiledSlot) : List CompiledSlot :=
  slots.mergeSort fun a b ↦ decide (a.kind.rank ≤ b.kind.rank)

/-- Compile bindings of an affix map. -/
def compileEntries :
    List (String × List AffixSlot) → Except Error (List (String × List CompiledSlot))
  | [] => .ok []
  | (pos, slots) :: rest => do
    let compiled ← slots.mapM CompiledSlot.ofSlot
    let others ← compileEntries rest
    return (pos, sortSlots compiled) :: others

/-- Compile an affix map. -/
def ofAffixMap (map : AffixMap) (speller : Speller) : Except Error Decliner := do
  let entries ← compileEntries map.entries
  return ⟨Dictionary.ofList entries, speller⟩

/-- The slots of a part of speech. -/
def slotsOf (d : Decliner) (partOfSpeech : String) : List CompiledSlot :=
  (d.slots.get? partOfSpeech).getD []

/-- Has the part of speech any slots? -/
def hasRules (d : Decliner) (partOfSpeech : String) : Bool := !(d.slotsOf partOfSpeech).isEmpty

/-- All forms of a word, in the order of the combinations that make them. -/
def variants (d : Decliner) (w : RootWord) : List Variant :=
  (allCombinations (d.slotsOf w.partOfSpeech)).flatMap fun slots ↦
    Variant.expand w.partOfSpeech slots w.phonetic.toList []

/-- The entries of a form, one for each gloss. -/
def entriesOf (d : Decliner) (w : RootWord) (v : Variant) : List LexiconEntry :=
  let phonetic := String.ofList v.phonetic
  let spelled := d.speller.spell phonetic
  w.glosses.map fun gloss ↦
    { LexiconEntry.new phonetic spelled gloss v.partOfSpeech v.declension with
      derived := w.derived
      declined := true
      metadata := .object [("source", .object [("declined_word", w.source)])] }

/-- The declined forms of a word. -/
def declineRoot (d : Decliner) (w : RootWord) : List LexiconEntry :=
  (Variant.dedup (d.variants w)).flatMap (d.entriesOf w)

/-- The declined forms of a word in any shape; `derived` is about words that are no entries. -/
def decline (d : Decliner) (word : WordInput) (derived : Bool) :
    Except Error (List LexiconEntry) :=
  (word.toRoot d.speller derived).map d.declineRoot

/-- The declined forms of an entry. -/
def declineEntry (d : Decliner) (e : LexiconEntry) : List LexiconEntry :=
  d.declineRoot ⟨e.phonetic, e.partOfSpeech, [e.english], e.derived, e.asValue⟩

end Decliner

end Glossopoeia
