import Glossopoeia.Pattern.Class

/-!
# Tokens of patterns

A written pattern is first cut into tokens, each with its escapes, classes and counts already read.
What a brace means depends on the dialect: in the regular one it always opens a count, in the
extended one it stands for itself unless it opens a count that has something to repeat.

Behind an opening parenthesis and a question mark there may be no comment, no condition, and no `x`
among the options: blanks in a pattern always stand for themselves.
-/

set_option autoImplicit false

namespace Glossopoeia.Pattern

open Text

/-- What an opening parenthesis opens. -/
inductive Opening where
  /-- A group that is remembered, perhaps under a name. -/
  | capture (name : Option (List Char))
  /-- A group that is not remembered; some options are switched inside of it. -/
  | plain (switches : List (Char × Bool))
  /-- A look at what follows. -/
  | ahead (expected : Bool)
  /-- A look at what precedes. -/
  | behind (expected : Bool)
  /-- A group whose first match is final. -/
  | atomic
deriving DecidableEq, Repr

/-- How often something is repeated, and in which order of preference. -/
structure Count where
  /-- The least number of rounds. -/
  least : Nat
  /-- The greatest number of rounds, if there is one. -/
  most : Option Nat
  /-- Are fewer rounds preferred? -/
  reluctant : Bool
  /-- Is the first match final? -/
  possessive : Bool
deriving DecidableEq, Repr

/-- A token of a pattern. -/
inductive Token where
  /-- A character that stands for itself. -/
  | char (c : Char)
  /-- One character of a set. -/
  | set (s : CharSet)
  /-- The full stop. -/
  | any
  /-- The caret. -/
  | caret
  /-- The dollar sign. -/
  | dollar
  /-- A kind of place. -/
  | place (a : Place)
  /-- The text of a group, by number. -/
  | backreference (index : Nat)
  /-- The text of a group, by name. -/
  | namedBackreference (name : List Char)
  /-- An opening parenthesis. -/
  | opening (what : Opening)
  /-- Options switched for the rest of the group. -/
  | switches (list : List (Char × Bool))
  /-- A closing parenthesis. -/
  | closing
  /-- The bar between alternatives. -/
  | bar
  /-- A repetition of what precedes. -/
  | count (n : Count)
deriving DecidableEq, Repr

/-- The token of an escape. -/
def Token.ofEscape : Escape → Token
  | .char c => .char c
  | .set s => .set s
  | .place a => .place a
  | .backreference n => .backreference n
  | .namedBackreference name => .namedBackreference name

/-- May a count follow the token? -/
def Token.endsAtom : Token → Bool
  | .opening _ => false
  | .bar => false
  | .count _ => false
  | _ => true

/-! ## Counts -/

/-- Digits; none at all is no error here.  In the regular dialect blanks may surround them. -/
def readBound (dialect : Dialect) (cs : List Char) : List Char × List Char :=
  match dialect with
  | .regular =>
    let rest := trimLeft cs
    (rest.takeWhile isAsciiDigit, trimLeft (rest.dropWhile isAsciiDigit))
  | .extended => (cs.takeWhile isAsciiDigit, cs.dropWhile isAsciiDigit)

/-- The greatest bound of a count. -/
def boundLimit : Nat := Nat.pow 2 32 - 1

/-- A bound that has digits and is not too large. -/
def boundOf? (digits : List Char) : Option Nat :=
  if digits.isEmpty || boundLimit < numberOf digits then none else some (numberOf digits)

/-- Read the bounds of a count after its opening brace.  The upper one may be missing if nothing
else stands in its place. -/
def readBounds (dialect : Dialect) (cs : List Char) : Option ((Nat × Option Nat) × List Char) :=
  match readBound dialect cs with
  | (low, '}' :: rest) => (boundOf? low).map fun n ↦ ((n, some n), rest)
  | (low, ',' :: rest) => do
    let least ← if dialect = .extended && low.isEmpty then some 0 else boundOf? low
    match rest with
    | '}' :: rest => some ((least, none), rest)
    | _ =>
      match readBound dialect rest with
      | (high, '}' :: rest) => (boundOf? high).map fun most ↦ ((least, some most), rest)
      | _ => none
  | _ => none

/-- Read the marks that may follow the bounds of a count. -/
def readMarks (dialect : Dialect) (least : Nat) (most : Option Nat) (cs : List Char) :
    Token × List Char :=
  let (reluctant, rest) := match cs with
    | '?' :: rest => (true, rest)
    | _ => (false, cs)
  match dialect, rest with
  | .extended, '+' :: rest => (.count ⟨least, most, reluctant, true⟩, rest)
  | _, _ => (.count ⟨least, most, reluctant, false⟩, rest)

/-! ## Opening parentheses -/

/-- The options that can be switched. -/
def optionLetters : List Char := ['i', 'm', 's', 'U', 'u', 'R']

/-- Read the options that are switched, up to the closing parenthesis or the colon. -/
def readSwitches (on : Bool) (seen : List Char) :
    List Char → Option (List (Char × Bool) × Char × List Char)
  | [] => none
  | c :: rest =>
    if c == ':' || c == ')' then
      if seen.head? == some '-' then none else some ([], c, rest)
    else if c == '-' then
      if on then readSwitches false ('-' :: seen) rest else none
    else if optionLetters.contains c && !seen.contains c then
      (readSwitches on (c :: seen) rest).map fun (list, stop, rest) ↦ ((c, on) :: list, stop, rest)
    else none

/-- Is `c` part of a group's name in the regular dialect? -/
def isGroupNameChar (first : Bool) (c : Char) : Bool :=
  c == '_' || (isWordChar c && !(first && isDecimalDigit c)) ||
    (!first && (c == '.' || c == '[' || c == ']'))

/-- Is the text the name of a group? -/
def isGroupName (dialect : Dialect) (name : List Char) : Bool :=
  match dialect, name with
  | _, [] => false
  | .extended, name => name.all isNameChar
  | .regular, c :: rest => isGroupNameChar true c && rest.all (isGroupNameChar false)

/-- Read the name of a group after its opening angle bracket. -/
def readGroupName (dialect : Dialect) (cs : List Char) : Option (Token × List Char) := do
  let (name, rest) ← cut '>' cs
  if isGroupName dialect name then some (.opening (.capture (some name)), rest) else none

/-- Read what follows an opening parenthesis. -/
def readOpening (dialect : Dialect) (cs : List Char) : Option (Token × List Char) :=
  match dialect, cs with
  | .extended, '?' :: '=' :: rest => some (.opening (.ahead true), rest)
  | .extended, '?' :: '!' :: rest => some (.opening (.ahead false), rest)
  | .extended, '?' :: '<' :: '=' :: rest => some (.opening (.behind true), rest)
  | .extended, '?' :: '<' :: '!' :: rest => some (.opening (.behind false), rest)
  | .extended, '?' :: '>' :: rest => some (.opening .atomic, rest)
  | .extended, '?' :: 'P' :: '=' :: rest => do
    let (name, rest) ← cut ')' rest
    if isGroupName .extended name then some (.namedBackreference name, rest) else none
  | _, '?' :: 'P' :: '<' :: rest => readGroupName dialect rest
  | _, '?' :: '<' :: rest => readGroupName dialect rest
  | _, '?' :: rest =>
    match readSwitches true [] rest with
    | some (list, ':', rest) => some (.opening (.plain list), rest)
    | some ([], _, _) => none
    | some (list, _, rest) => some (.switches list, rest)
    | none => none
  | _, rest => some (.opening (.capture none), rest)

/-! ## Tokens -/

/-- Read a token; `repeatable` tells whether something precedes that a count could repeat. -/
def readToken (dialect : Dialect) (repeatable : Bool) : List Char → Option (Token × List Char)
  | [] => none
  | '\\' :: rest => (readEscape dialect false rest).map fun (e, rest) ↦ (.ofEscape e, rest)
  | '[' :: rest => (readClass dialect rest).map fun (s, rest) ↦ (.set s, rest)
  | '(' :: rest => readOpening dialect rest
  | ')' :: rest => some (.closing, rest)
  | '|' :: rest => some (.bar, rest)
  | '.' :: rest => some (.any, rest)
  | '^' :: rest => some (.caret, rest)
  | '$' :: rest => some (.dollar, rest)
  | '*' :: rest => some (readMarks dialect 0 none rest)
  | '+' :: rest => some (readMarks dialect 1 none rest)
  | '?' :: rest => some (readMarks dialect 0 (some 1) rest)
  | '{' :: rest =>
    match dialect, repeatable, readBounds dialect rest with
    | .regular, _, some ((least, most), rest) => some (readMarks .regular least most rest)
    | .regular, _, none => none
    | .extended, true, some ((least, most), rest) => some (readMarks .extended least most rest)
    | .extended, _, _ => some (.char '{', rest)
  | c :: rest => some (.char c, rest)

/-- The tokens of a text.  Each consumes a character, so the length of the text is fuel enough. -/
def tokensFrom (dialect : Dialect) : Nat → Bool → List Char → Option (List Token)
  | _, _, [] => some []
  | 0, _, _ => none
  | fuel + 1, repeatable, cs =>
    match readToken dialect repeatable cs with
    | none => none
    | some (token, rest) => (tokensFrom dialect fuel token.endsAtom rest).map (token :: ·)

/-- The tokens of a written pattern. -/
def tokens (dialect : Dialect) (cs : List Char) : Option (List Token) :=
  tokensFrom dialect cs.length false cs

end Glossopoeia.Pattern
