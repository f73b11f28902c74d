import Glossopoeia.Affix.Basic
import Glossopoeia.GrammarTable.Label

/-!
# The cells of a grammar table

While a table is read, its rules are filed by kind.  An empty cell has no kind of its own: it
follows the cell before it, and those at the start of a table wait for the first cell that has a
kind.
-/

set_option autoImplicit false

namespace Glossopoeia

/-- Where rules are filed: under a kind, or waiting for one. -/
abbrev Bucket := Option AffixKind

/-- A table that is being read. -/
structure TableState where
  /-- What the table's type line says. -/
  tableType : String
  /-- The part of speech that it is about. -/
  partOfSpeech : String
  /-- Its labels. -/
  labels : Labels
  /-- The rules read so far, by bucket, in the order in which the buckets were opened. -/
  filed : List (Bucket × List DeclensionRule)
  /-- The bucket of the latest rule. -/
  current : Option Bucket
  /-- The bucket that an empty cell goes to. -/
  last : Bucket
deriving DecidableEq

namespace TableState

/-- No table yet. -/
def start : TableState := ⟨"", "", Dictionary.empty, [], none, none⟩

/-- The state without the rules and labels of a finished table. -/
def clear (s : TableState) : TableState :=
  { s with labels := Dictionary.empty, filed := [], current := none, last := none }

/-- Add a rule to a bucket, opening it if need be. -/
def fileUnder (bucket : Bucket) (rule : DeclensionRule) :
    List (Bucket × List DeclensionRule) → List (Bucket × List DeclensionRule)
  | [] => [(bucket, [rule])]
  | (b, rules) :: rest =>
    if b = bucket then (b, rules ++ [rule]) :: rest
    else (b, rules) :: fileUnder bucket rule rest

/-- Give the waiting rules their kind. -/
def settle (kind : AffixKind) :
    List (Bucket × List DeclensionRule) → List (Bucket × List DeclensionRule)
  | [] => []
  | (none, rules) :: rest => (some kind, rules) :: rest
  | entry :: rest => entry :: settle kind rest

/-- File the rule of a cell. -/
def addRule (s : TableState) (kind : Option AffixKind) (rule : DeclensionRule) : TableState :=
  let last := s.current.getD s.last
  match kind with
  | none =>
    { s with filed := fileUnder last rule s.filed, current := some last, last := last }
  | some kind =>
    let filed := if last.isNone then settle kind s.filed else s.filed
    { s with filed := fileUnder (some kind) rule filed, current := some (some kind), last := last }

theorem fileUnder_ne_nil (bucket : Bucket) (rule : DeclensionRule)
    (filed : List (Bucket × List DeclensionRule)) : fileUnder bucket rule filed ≠ [] := by
  cases filed with
  | nil => exact List.cons_ne_nil _ _
  | cons entry rest =>
    rw [fileUnder]
    split <;> exact List.cons_ne_nil _ _

theorem filed_addRule_ne_nil (s : TableState) (kind : Option AffixKind) (rule : DeclensionRule) :
    (s.addRule kind rule).filed ≠ [] := by
  cases kind <;> exact fileUnder_ne_nil _ _ _

end TableState

end Glossopoeia
