import Glossopoeia.Pattern.Token

/-!
# Reading patterns

`Pattern.read?` reads a written pattern.  Its tokens are taken one after the other; the groups that
are still open are kept on a stack, each with its finished alternatives and the pieces of the one in
hand, latest first.

The tokens are a part of those that the two dialects have (see `Escape` and `Token`), so a pattern
with another one is refused.  Two of the options that can be switched have no effect: characters are
those of Unicode whether or not `u` is on, and a line ends at a line feed alone even if `R` is on.
There is no limit to the size of a pattern or to the depth of its groups.
-/

set_option autoImplicit false

namespace Glossopoeia.Pattern

/-- The options that a pattern can switch. -/
structure Options where
  /-- Is case disregarded? -/
  ignoreCase : Bool
  /-- Do the caret and the dollar sign also match at line ends? -/
  byLine : Bool
  /-- Does the full stop match a line feed? -/
  acrossLines : Bool
  /-- Are fewer rounds preferred unless a count says otherwise? -/
  swapped : Bool
deriving DecidableEq, Repr

namespace Options

/-- The options that hold at the start. -/
def initial : Options := ⟨false, false, false, false⟩

/-- Switch one option; `u` and `R` have no effect. -/
def switch (o : Options) : Char × Bool → Options
  | ('i', on) => { o with ignoreCase := on }
  | ('m', on) => { o with byLine := on }
  | ('s', on) => { o with acrossLines := on }
  | ('U', on) => { o with swapped := on }
  | _ => o

/-- One character of a set, under the options. -/
def one (o : Options) (s : CharSet) : Pattern := .one (if o.ignoreCase then s.ignoreCase else s)

end Options

/-- A group that is still open. -/
structure Frame where
  /-- What opened it. -/
  what : Opening
  /-- Its number, if it is remembered. -/
  index : Nat
  /-- The options that hold again after it. -/
  outer : Options
  /-- Its finished alternatives, the latest first. -/
  branches : List Pattern
  /-- The pieces of the alternative in hand, the latest first. -/
  pieces : List Pattern

namespace Frame

/-- A group just opened. -/
def start (what : Opening) (index : Nat) (outer : Options) : Frame := ⟨what, index, outer, [], []⟩

/-- The alternatives, with the one in hand finished, in order. -/
def alternatives (f : Frame) : List Pattern :=
  (sequence f.pieces.reverse :: f.branches).reverse

/-- One more piece. -/
def push (f : Frame) (p : Pattern) : Frame := { f with pieces := p :: f.pieces }

end Frame

/-- The first of several alternatives that matches. -/
def choice : List Pattern → Pattern
  | [] => empty
  | [p] => p
  | p :: rest => alt p (choice rest)

/-- A look at what precedes.  Alternatives of different widths are looked for one by one. -/
def lookBehind (expected : Bool) (alternatives : List Pattern) : Option Pattern :=
  match (choice alternatives).width? with
  | some n => some (behind expected n (choice alternatives))
  | none => do
    let looks ← alternatives.mapM fun p ↦ p.width?.map fun n ↦ behind expected n p
    return if expected then choice looks else sequence looks

/-- What a closed group is. -/
def Frame.close (f : Frame) : Option Pattern :=
  let body := choice f.alternatives
  match f.what with
  | .capture _ => some (group f.index body)
  | .plain _ => some body
  | .ahead expected => some (ahead expected body)
  | .behind expected => lookBehind expected f.alternatives
  | .atomic => some (atomic body)

/-- Does the pattern consume nothing by its very form? -/
def isBare : Pattern → Bool
  | empty => true
  | place _ => true
  | ahead _ _ => true
  | behind _ _ _ => true
  | _ => false

/-- Can the closed group be repeated?  In the extended dialect a look cannot, and a group that is
not remembered can if what stands in it can. -/
def Frame.repeatable (dialect : Dialect) (f : Frame) : Bool :=
  match dialect, f.what with
  | .extended, .ahead _ => false
  | .extended, .behind _ => false
  | .extended, .plain _ => !(choice f.alternatives).isBare
  | _, _ => true

/-- What has been read of a pattern. -/
structure Reading where
  /-- The innermost open group; the whole pattern counts as one. -/
  top : Frame
  /-- The groups around it. -/
  enclosing : List Frame
  /-- The options in force. -/
  options : Options
  /-- Is the latest piece something that a count can repeat? -/
  repeatable : Bool
  /-- The number of remembered groups opened so far. -/
  opened : Nat
  /-- The named groups. -/
  names : List (List Char × Nat)
  /-- Has a group been recalled by number? -/
  recalled : Bool

namespace Reading

/-- Nothing read yet. -/
def start : Reading :=
  ⟨Frame.start (.plain []) 0 Options.initial, [], Options.initial, false, 0, [], false⟩

/-- One more piece. -/
def push (r : Reading) (repeatable : Bool) (p : Pattern) : Reading :=
  { r with top := r.top.push p, repeatable := repeatable }

/-- Open a group.  In the regular dialect no two groups have one name. -/
def openGroup (dialect : Dialect) (r : Reading) (what : Opening) : Option Reading :=
  let nested (r : Reading) (index : Nat) (options : Options) : Reading :=
    { r with
      top := Frame.start what index r.options
      enclosing := r.top :: r.enclosing
      options := options
      repeatable := false }
  match what with
  | .capture name =>
    let index := r.opened + 1
    let r := { r with opened := index }
    match name with
    | none => some (nested r index r.options)
    | some name =>
      if dialect = .regular && (r.names.lookup name).isSome then none
      else some (nested { r with names := (name, index) :: r.names } index r.options)
  | .plain list => some (nested r 0 (list.foldl Options.switch r.options))
  | _ => some (nested r 0 r.options)

/-- Close the innermost group. -/
def closeGroup (dialect : Dialect) (r : Reading) : Option Reading :=
  match r.enclosing, r.top.close with
  | outer :: rest, some p =>
    some { r with
      top := outer.push p
      enclosing := rest
      options := r.top.outer
      repeatable := r.top.repeatable dialect }
  | _, _ => none

/-- Repeat the latest piece. -/
def repeatLast (dialect : Dialect) (r : Reading) (n : Count) : Option Reading :=
  match r.repeatable, r.top.pieces with
  | true, p :: rest =>
    if n.most.any (· < n.least) then none
    else
      let q := repeated p n.least n.most (n.reluctant == r.options.swapped)
      some { r with
        top := { r.top with pieces := (if n.possessive then atomic q else q) :: rest }
        repeatable := dialect = .regular }
  | _, _ => none

/-- Take one more token. -/
def step (dialect : Dialect) (r : Reading) : Token → Option Reading
  | .char c => some (r.push true (r.options.one (.single c)))
  | .set s => some (r.push true (r.options.one s))
  | .any => some (r.push true (one (if r.options.acrossLines then .all else .withinLine)))
  | .caret =>
    some (r.push (dialect = .regular) (place (if r.options.byLine then .lineStart else .textStart)))
  | .dollar =>
    some (r.push (dialect = .regular) (place (if r.options.byLine then .lineEnd else .textEnd)))
  | .place a => some (r.push (dialect = .regular) (place a))
  | .backreference n =>
    if n ≤ r.opened then some { r.push true (backreference n) with recalled := true } else none
  | .namedBackreference name => (r.names.lookup name).map fun n ↦ r.push true (backreference n)
  | .opening what => r.openGroup dialect what
  | .switches list =>
    some { r with options := list.foldl Options.switch r.options, repeatable := false }
  | .closing => r.closeGroup dialect
  | .bar =>
    some { r with
      top := { r.top with
        branches := sequence r.top.pieces.reverse :: r.top.branches
        pieces := [] }
      repeatable := false }
  | .count n => r.repeatLast dialect n

/-- The pattern read, if no group is open.  Groups are recalled either by number or by name. -/
def finish (r : Reading) : Option Pattern :=
  if r.enclosing.isEmpty && !(r.recalled && !r.names.isEmpty) then
    some (choice r.top.alternatives)
  else none

end Reading

/-- The pattern that tokens describe. -/
def ofTokens (dialect : Dialect) (list : List Token) : Option Pattern :=
  (list.foldlM (Reading.step dialect) Reading.start).bind Reading.finish

/-- Read a pattern written as characters. -/
def ofChars (dialect : Dialect) (cs : List Char) : Option Pattern :=
  (tokens dialect cs).bind (ofTokens dialect)

/-- Read a written pattern; `none` if it is not one. -/
def read? (dialect : Dialect) (source : String) : Option Pattern := ofChars dialect source.toList

end Glossopoeia.Pattern
