import Glossopoeia.Lexicon.Entry
import Glossopoeia.Positions

/-!
# Indices in order

An index binds keys to entries and keeps the keys in the order in which they were first bound.  The
keys and the entries stand in two lists, place by place, and a table says where each key stands: a
key that is bound again keeps its place, and its entry there is replaced.

That the three agree is part of the index, so whatever place is found in one of them is a place in
the others, and no look-up can miss.
-/

set_option autoImplicit false

namespace Glossopoeia

/-- Entries under keys, in the order in which the keys were first bound. -/
structure OrderedIndex (κ : Type) [DecidableEq κ] where
  /-- The keys. -/
  keys : List κ
  /-- What each key is bound to. -/
  entries : List LexiconEntry
  /-- Where each key stands. -/
  positions : Positions κ
  /-- Every key is bound. -/
  length_entries : entries.length = keys.length
  /-- The table is that of the keys. -/
  tells : positions.Tells some keys

namespace OrderedIndex

variable {κ : Type} [DecidableEq κ]

/-- The index without a key. -/
def empty : OrderedIndex κ := ⟨[], [], .empty, rfl, .empty⟩

/-- What the key at a place that was found is bound to. -/
def entryAt (index : OrderedIndex κ) :
    (found : Option Nat) → (∀ place, found = some place → place < index.keys.length) →
      Option LexiconEntry
  | some place, h => some (index.entries.get ⟨place, index.length_entries ▸ h place rfl⟩)
  | none, _ => none

/-- Bind the key at a place to another entry. -/
def replace (index : OrderedIndex κ) (place : Nat) (e : LexiconEntry) : OrderedIndex κ where
  keys := index.keys
  entries := index.entries.set place e
  positions := index.positions
  length_entries := List.length_set.trans index.length_entries
  tells := index.tells

/-- Bind a key that is not bound yet. -/
def push (index : OrderedIndex κ) (key : κ) (e : LexiconEntry)
    (h : index.positions.get? key = none) : OrderedIndex κ where
  keys := index.keys ++ [key]
  entries := index.entries ++ [e]
  positions := index.positions.insert key index.keys.length
  length_entries := by rw [List.length_append, List.length_append, index.length_entries]; rfl
  tells := index.tells.append_singleton h rfl

/-- Bind a key, in place of what it was bound to. -/
def insert (index : OrderedIndex κ) (key : κ) (e : LexiconEntry) : OrderedIndex κ :=
  match h : index.positions.get? key with
  | some place => index.replace place e
  | none => index.push key e h

/-- What a key is bound to. -/
def get? (index : OrderedIndex κ) (key : κ) : Option LexiconEntry :=
  index.entryAt (index.positions.get? key) fun _ h ↦ index.tells.lt_length h

/-- What the first key that satisfies `p` is bound to. -/
def find? (index : OrderedIndex κ) (p : κ → Bool) : Option LexiconEntry :=
  index.entryAt (index.keys.findIdx? p) fun _ h ↦ (List.findIdx?_eq_some_iff_getElem.1 h).1

end OrderedIndex

end Glossopoeia
