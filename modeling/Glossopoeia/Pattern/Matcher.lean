import Glossopoeia.Pattern.Basic

/-!
# Matching

`Pattern.run` tries the ways to match a pattern at one place in order of preference and hands each
to the rest of the match, until the rest accepts one.  It is recursive on the pattern; only the
rounds of an unbounded repetition are counted by the characters left, which is enough because every
round after the first has to consume one.

`Pattern.segments` walks over a whole text and cuts it into what is kept and what is matched.

No match is given up for the number of ways that had to be tried.
-/

set_option autoImplicit false

namespace Glossopoeia

open Text

/-- A place in a text, and what has been remembered on the way there. -/
structure Cursor where
  /-- The text to the left, nearest character first. -/
  before : List Char
  /-- The text to the right. -/
  after : List Char
  /-- Remembered texts, the latest first. -/
  groups : List (Nat × List Char)
deriving DecidableEq, Repr

namespace Cursor

/-- The place at the start of a text. -/
def atStart (cs : List Char) : Cursor := ⟨[], cs, []⟩

/-- The text between an earlier place and this one. -/
def textFrom (start stop : Cursor) : List Char :=
  (stop.before.take (stop.before.length - start.before.length)).reverse

/-- The text remembered under a number. -/
def groupText? (s : Cursor) (index : Nat) : Option (List Char) := s.groups.lookup index

/-- The place `n` characters to the left, if the text reaches so far. -/
def back? (s : Cursor) : Nat → Option Cursor
  | 0 => some s
  | n + 1 =>
    match s.before with
    | [] => none
    | c :: rest => back? ⟨rest, c :: s.after, s.groups⟩ n

/-- The place after `text`, if it follows. -/
def skip? (s : Cursor) : List Char → Option Cursor
  | [] => some s
  | p :: ps =>
    match s.after with
    | [] => none
    | c :: rest => if p = c then skip? ⟨c :: s.before, rest, s.groups⟩ ps else none

/-- Does a character of a word stand on the left? -/
def wordBefore (s : Cursor) : Bool := s.before.head?.any isWordChar

/-- Does a character of a word stand on the right? -/
def wordAfter (s : Cursor) : Bool := s.after.head?.any isWordChar

/-- Is this a place of the given kind? -/
def isAt (s : Cursor) : Place → Bool
  | .textStart => s.before.isEmpty
  | .textEnd => s.after.isEmpty
  | .lineStart => s.before.head?.all (· == '\n')
  | .lineEnd => s.after.head?.all (· == '\n')
  | .wordEdge => s.wordBefore != s.wordAfter
  | .noWordEdge => s.wordBefore == s.wordAfter
  | .wordStart => !s.wordBefore && s.wordAfter
  | .wordEnd => s.wordBefore && !s.wordAfter
  | .noWordBefore => !s.wordBefore
  | .noWordAfter => !s.wordAfter

/-- Has `stop` fewer characters on its right than `start`? -/
def advanced (start stop : Cursor) : Bool := stop.after.length < start.after.length

end Cursor

/-- The rest of a match: it accepts a place, and says where the match ends, or refuses it. -/
abbrev Rest := Cursor → Option Cursor

/-- A way to match from a place on, given the rest of the match. -/
abbrev Step := Cursor → Rest → Option Cursor

namespace Step

/-- `n` rounds. -/
def exactly (m : Step) : Nat → Step
  | 0, s, k => k s
  | n + 1, s, k => m s fun t ↦ exactly m n t k

/-- Up to `n` rounds. -/
def upTo (m : Step) (greedy : Bool) : Nat → Step
  | 0, s, k => k s
  | n + 1, s, k =>
    if greedy then (m s fun t ↦ upTo m greedy n t k) <|> k s
    else k s <|> m s fun t ↦ upTo m greedy n t k

/-- Any number of rounds, each of which consumes a character; `fuel` bounds their number. -/
def more (m : Step) (greedy : Bool) : Nat → Step
  | 0, s, k => k s
  | fuel + 1, s, k =>
    if greedy then
      (m s fun t ↦ if s.advanced t then more m greedy fuel t k else none) <|> k s
    else
      k s <|> m s fun t ↦ if s.advanced t then more m greedy fuel t k else none

/-- One round and any number of further rounds.  Only the first may be empty, and then it is the
only one. -/
def many (m : Step) (greedy : Bool) : Step := fun s k ↦
  m s fun t ↦ if s.advanced t then more m greedy t.after.length t k else k t

/-- Any number of rounds. -/
def any (m : Step) (greedy : Bool) : Step := fun s k ↦
  if greedy then many m greedy s k <|> k s else k s <|> many m greedy s k

/-- At least `least` and at most `most` rounds. -/
def rounds (m : Step) (least : Nat) (most : Option Nat) (greedy : Bool) : Step := fun s k ↦
  match most, least with
  | some n, _ => exactly m least s fun t ↦ upTo m greedy (n - least) t k
  | none, 0 => any m greedy s k
  | none, n + 1 => exactly m n s fun t ↦ many m greedy t k

end Step

namespace Pattern

/-- The first way to match `p` from `s` on that the rest `k` accepts. -/
def run : Pattern → Cursor → Rest → Option Cursor
  | empty, s, k => k s
  | one set, s, k =>
    match s.after with
    | [] => none
    | c :: rest => if set.contains c then k ⟨c :: s.before, rest, s.groups⟩ else none
  | place a, s, k => if s.isAt a then k s else none
  | seq p q, s, k => p.run s fun t ↦ q.run t k
  | alt p q, s, k => p.run s k <|> q.run s k
  | group index p, s, k => p.run s fun t ↦ k { t with groups := (index, s.textFrom t) :: t.groups }
  | repeated p least most greedy, s, k => Step.rounds (fun s k ↦ p.run s k) least most greedy s k
  | backreference index, s, k => (s.groupText? index).bind fun text ↦ (s.skip? text).bind k
  | ahead expected p, s, k =>
    match p.run s some, expected with
    | some t, true => k { s with groups := t.groups }
    | none, false => k s
    | _, _ => none
  | behind expected width p, s, k =>
    match (s.back? width).bind fun start ↦ p.run start some, expected with
    | some t, true => k { s with groups := t.groups }
    | none, false => k s
    | _, _ => none
  | atomic p, s, k => (p.run s some).bind k

/-- Where a match begins and ends. -/
structure Match where
  /-- The place where it begins. -/
  start : Cursor
  /-- The place where it ends, with what it remembers. -/
  stop : Cursor

/-- The matched text. -/
def Match.text (m : Match) : List Char := m.start.textFrom m.stop

/-- The text remembered under a number; number zero is the whole match. -/
def Match.group? (m : Match) (index : Nat) : Option (List Char) :=
  if index = 0 then some m.text else m.stop.groupText? index

/-- Is the matched text empty? -/
def Match.isEmpty (m : Match) : Bool := !m.start.advanced m.stop

/-- The first match at or after a place. -/
def searchFrom (p : Pattern) (before : List Char) : List Char → Option Match
  | [] => (p.run ⟨before, [], []⟩ some).map fun stop ↦ ⟨⟨before, [], []⟩, stop⟩
  | c :: rest =>
    match p.run ⟨before, c :: rest, []⟩ some with
    | some stop => some ⟨⟨before, c :: rest, []⟩, stop⟩
    | none => searchFrom p (c :: before) rest

/-- Does the pattern match somewhere in the text? -/
def occursIn (p : Pattern) (cs : List Char) : Bool := (p.searchFrom [] cs).isSome

/-- A stretch of a text: between matches, or matched. -/
inductive Segment where
  /-- Text that is not part of a match. -/
  | kept (text : List Char)
  /-- A match. -/
  | found (m : Match)

/-- The segments of the text to the right of a place.  Matches do not overlap, and an empty match
does not count where the match before it ended, which is what `closed` tells.  Every step but the
last consumes a character, so the length of the text is fuel enough. -/
def segmentsFrom (p : Pattern) : Nat → Bool → List Char → List Char → List Segment
  | 0, _, _, after => [.kept after]
  | fuel + 1, closed, before, after =>
    let stepOver (head : List Segment) (before after : List Char) : List Segment :=
      match after with
      | [] => head
      | c :: rest => head ++ .kept [c] :: segmentsFrom p fuel false (c :: before) rest
    match p.searchFrom before after with
    | none => [.kept after]
    | some m =>
      let gap := after.take (m.start.before.length - before.length)
      if m.isEmpty then
        if closed && gap.isEmpty then stepOver [] before after
        else stepOver [.kept gap, .found m] m.stop.before m.stop.after
      else .kept gap :: .found m :: segmentsFrom p fuel true m.stop.before m.stop.after

/-- The segments of a text, from left to right. -/
def segments (p : Pattern) (cs : List Char) : List Segment :=
  p.segmentsFrom (cs.length + 1) false [] cs

/-- The text with every match replaced by what `f` makes of it. -/
def replaceWith (p : Pattern) (f : Match → List Char) (cs : List Char) : List Char :=
  (p.segments cs).flatMap fun
    | .kept text => text
    | .found m => f m

end Pattern

end Glossopoeia
