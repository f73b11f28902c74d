import Glossopoeia.Config.Toml
import Glossopoeia.Text.Digit
import Glossopoeia.Text.Basic

/-!
# Reading TOML

`Toml.read?` reads a settings file.  Readers that repeat themselves do so with fuel; every step
consumes a character, so the length of the text is fuel enough.
-/

set_option autoImplicit false

namespace Glossopoeia.Toml

open Text

/-! ## Blanks and comments -/

/-- Is `c` a blank within a line? -/
def isGap (c : Char) : Bool := c == ' ' || c == '\t'

/-- The text after the blanks that it begins with. -/
def skipGap (cs : List Char) : List Char := cs.dropWhile isGap

/-- The text after the end of a line that it begins with. -/
def skipNewline : List Char → Option (List Char)
  | '\n' :: rest => some rest
  | '\r' :: '\n' :: rest => some rest
  | _ => none

/-- May `c` stand in a comment? -/
def isCommentChar (c : Char) : Bool := c == '\t' || 0x20 ≤ c.toNat

/-- The text after a comment that it may begin with. -/
def skipComment : List Char → List Char
  | '#' :: rest => rest.dropWhile isCommentChar
  | cs => cs

/-- The text after the rest of a line, which holds nothing but blanks and a comment. -/
def skipLine (cs : List Char) : Option (List Char) :=
  match skipComment (skipGap cs) with
  | [] => some []
  | cs => skipNewline cs

/-- The text after blanks, line ends and comments. -/
def skipLines : Nat → List Char → List Char
  | 0, cs => cs
  | fuel + 1, cs =>
    let rest := skipComment (skipGap cs)
    match skipNewline rest with
    | some rest => skipLines fuel rest
    | none => rest

/-! ## Strings -/

/-- May `c` stand in a string on one line? -/
def isStringChar (c : Char) : Bool := c == '\t' || (0x20 ≤ c.toNat && c.toNat != 0x7F)

/-- Read an escape after its backslash. -/
def readEscape : List Char → Option (Char × List Char)
  | 'b' :: rest => some ('\x08', rest)
  | 't' :: rest => some ('\t', rest)
  | 'n' :: rest => some ('\n', rest)
  | 'f' :: rest => some ('\x0c', rest)
  | 'r' :: rest => some ('\r', rest)
  | '"' :: rest => some ('"', rest)
  | '\\' :: rest => some ('\\', rest)
  | 'u' :: rest => if rest.length < 4 then none else (charOfHex (rest.take 4)).map (·, rest.drop 4)
  | 'U' :: rest => if rest.length < 8 then none else (charOfHex (rest.take 8)).map (·, rest.drop 8)
  | _ => none

/-- Read a basic string after its opening quote. -/
def readBasic : Nat → List Char → Option (List Char × List Char)
  | 0, _ => none
  | fuel + 1, cs =>
    match cs with
    | [] => none
    | '"' :: rest => some ([], rest)
    | '\\' :: rest => do
      let (c, rest) ← readEscape rest
      let (body, rest) ← readBasic fuel rest
      some (c :: body, rest)
    | c :: rest =>
      if isStringChar c then (readBasic fuel rest).map fun (body, rest) ↦ (c :: body, rest)
      else none

/-- Read a literal string after its opening quote. -/
def readLiteral (cs : List Char) : Option (List Char × List Char) :=
  match cs.span fun c ↦ isStringChar c && c != '\x27' with
  | (body, '\x27' :: rest) => some (body, rest)
  | _ => none

/-- The quotes that close a string of several lines may follow one or two that belong to it. -/
def closeLong (quote : Char) : List Char → Option (List Char × List Char)
  | a :: b :: c :: rest =>
    if a == quote && b == quote && c == quote then
      match rest with
      | d :: e :: more =>
        if d == quote && e == quote then some ([quote, quote], more)
        else if d == quote then some ([quote], e :: more)
        else some ([], rest)
      | [d] => if d == quote then some ([quote], []) else some ([], rest)
      | [] => some ([], [])
    else none
  | _ => none

/-- The text after a backslash at the end of a line and all blanks that follow. -/
def skipContinuation (cs : List Char) : Option (List Char) :=
  (skipNewline (skipGap cs)).map fun rest ↦
    rest.dropWhile fun c ↦ isGap c || c == '\n' || c == '\r'

/-- Read a string of several lines after its opening quotes; `escapes` tells whether a backslash
begins an escape. -/
def readLong (quote : Char) (escapes : Bool) : Nat → List Char → Option (List Char × List Char)
  | 0, _ => none
  | fuel + 1, cs =>
    match closeLong quote cs with
    | some closed => some closed
    | none =>
      match skipNewline cs with
      | some rest => (readLong quote escapes fuel rest).map fun (body, rest) ↦ ('\n' :: body, rest)
      | none =>
        match cs with
        | [] => none
        | c :: rest =>
          if c == '\\' && escapes then
            match skipContinuation rest with
            | some rest => readLong quote escapes fuel rest
            | none => do
              let (c, rest) ← readEscape rest
              let (body, rest) ← readLong quote escapes fuel rest
              some (c :: body, rest)
          else if isStringChar c then
            (readLong quote escapes fuel rest).map fun (body, rest) ↦ (c :: body, rest)
          else none

/-- A line end right after the opening quotes does not belong to the string. -/
def openLong (quote : Char) (escapes : Bool) (cs : List Char) : Option (List Char × List Char) :=
  let cs := (skipNewline cs).getD cs
  readLong quote escapes (cs.length + 1) cs

/-- Read a string of any form. -/
def readString : List Char → Option (List Char × List Char)
  | '"' :: '"' :: '"' :: rest => openLong '"' true rest
  | '"' :: rest => readBasic (rest.length + 1) rest
  | '\x27' :: '\x27' :: '\x27' :: rest => openLong '\x27' false rest
  | '\x27' :: rest => readLiteral rest
  | _ => none

/-! ## Keys -/

/-- May `c` stand in a key without quotes? -/
def isBareChar (c : Char) : Bool :=
  isAsciiDigit c || ('a' ≤ c && c ≤ 'z') || ('A' ≤ c && c ≤ 'Z') || c == '-' || c == '_'

/-- Read one part of a key. -/
def readSimpleKey (cs : List Char) : Option (String × List Char) :=
  match cs with
  | '"' :: rest =>
    (readBasic (rest.length + 1) rest).map fun (body, rest) ↦ (String.ofList body, rest)
  | '\x27' :: rest => (readLiteral rest).map fun (body, rest) ↦ (String.ofList body, rest)
  | _ =>
    match cs.span isBareChar with
    | ([], _) => none
    | (body, rest) => some (String.ofList body, rest)

/-- Read a key, its parts separated by full stops; blanks after it are left out. -/
def readKey : Nat → List Char → Option (List String × List Char)
  | 0, _ => none
  | fuel + 1, cs => do
    let (part, rest) ← readSimpleKey (skipGap cs)
    match skipGap rest with
    | '.' :: rest =>
      let (parts, rest) ← readKey fuel rest
      some (part :: parts, rest)
    | rest => some ([part], rest)

/-! ## Numbers and dates -/

/-- Is the text a run of digits in which an underscore may stand between two? -/
def isDigits (digit : Char → Bool) : List Char → Bool
  | [] => false
  | [c] => digit c
  | c :: '_' :: rest => digit c && isDigits digit rest
  | c :: rest => digit c && isDigits digit rest

/-- The text without a sign. -/
def dropSign : List Char → List Char
  | '+' :: rest => rest
  | '-' :: rest => rest
  | cs => cs

/-- Is the text a decimal whole number without a sign? -/
def isDecimal (cs : List Char) : Bool :=
  isDigits isAsciiDigit cs && (cs.length == 1 || cs.head? != some '0')

/-- The greatest size of a whole number with the given sign. -/
def sizeLimit (negative : Bool) : Nat := if negative then Nat.pow 2 63 else Nat.pow 2 63 - 1

/-- The size of a number to a base up to sixteen. -/
def sizeInBase (base : Nat) (cs : List Char) : Nat :=
  (cs.filterMap hexValue).foldl (fun n d ↦ n * base + d) 0

/-- Is `c` a digit to the given base? -/
def isDigitOf (base : Nat) (c : Char) : Bool := (hexValue c).any (· < base)

/-- Is the text a whole number? -/
def isInteger (cs : List Char) : Bool :=
  match cs with
  | '0' :: 'x' :: rest => isDigits (isDigitOf 16) rest && sizeInBase 16 rest ≤ sizeLimit false
  | '0' :: 'o' :: rest => isDigits (isDigitOf 8) rest && sizeInBase 8 rest ≤ sizeLimit false
  | '0' :: 'b' :: rest => isDigits (isDigitOf 2) rest && sizeInBase 2 rest ≤ sizeLimit false
  | _ =>
    isDecimal (dropSign cs) && sizeInBase 10 (dropSign cs) ≤ sizeLimit (cs.head? == some '-')

/-- Is the text an exponent without its letter? -/
def isExponent (cs : List Char) : Bool := isDigits isAsciiDigit (dropSign cs)

/-- Is the text a number with a fraction or an exponent, or one of the special ones? -/
def isFloat (cs : List Char) : Bool :=
  let cs := dropSign cs
  if cs = "inf".toList ∨ cs = "nan".toList then true
  else
    let (mantissa, exponent) := cs.span fun c ↦ c != 'e' && c != 'E'
    let fine := exponent.isEmpty || isExponent (exponent.drop 1)
    match cut '.' mantissa with
    | some (whole, fraction) => isDecimal whole && isDigits isAsciiDigit fraction && fine
    | none => isDecimal mantissa && !exponent.isEmpty && fine

/-- The number that exactly `n` digits spell at the start of a text. -/
def fixedDigits (n : Nat) (cs : List Char) : Option (Nat × List Char) :=
  let digits := cs.take n
  if digits.length = n && digits.all isAsciiDigit then some (numberOf digits, cs.drop n) else none

/-- What follows `c`. -/
def expect (c : Char) : List Char → Option (List Char)
  | d :: rest => if c = d then some rest else none
  | [] => none

/-- The number of days of a month. -/
def daysIn (year month : Nat) : Nat :=
  if month = 2 then
    if year % 4 = 0 ∧ (year % 100 ≠ 0 ∨ year % 400 = 0) then 29 else 28
  else if month ∈ [4, 6, 9, 11] then 30 else 31

/-- What follows a date. -/
def skipDate (cs : List Char) : Option (List Char) := do
  let (year, rest) ← fixedDigits 4 cs
  let (month, rest) ← fixedDigits 2 (← expect '-' rest)
  let (day, rest) ← fixedDigits 2 (← expect '-' rest)
  if 1 ≤ month ∧ month ≤ 12 ∧ 1 ≤ day ∧ day ≤ daysIn year month then some rest else none

/-- What follows a time of day. -/
def skipTime (cs : List Char) : Option (List Char) := do
  let (hour, rest) ← fixedDigits 2 cs
  let (minute, rest) ← fixedDigits 2 (← expect ':' rest)
  let (second, rest) ← fixedDigits 2 (← expect ':' rest)
  if 23 < hour ∨ 59 < minute ∨ 60 < second then none
  else
    match rest with
    | '.' :: more =>
      let digits := more.takeWhile isAsciiDigit
      if digits.isEmpty then none else some (more.drop digits.length)
    | _ => some rest

/-- What follows an offset from universal time, which may be missing. -/
def skipOffset : List Char → Option (List Char)
  | 'Z' :: rest => some rest
  | 'z' :: rest => some rest
  | '+' :: rest => hours rest
  | '-' :: rest => hours rest
  | cs => some cs
where
  /-- What follows hours and minutes. -/
  hours (cs : List Char) : Option (List Char) := do
    let (hour, rest) ← fixedDigits 2 cs
    let (minute, rest) ← fixedDigits 2 (← expect ':' rest)
    if 23 < hour ∨ 59 < minute then none else some rest

/-- What follows a date, a time, or both. -/
def skipMoment (cs : List Char) : Option (List Char) :=
  match skipDate cs with
  | none => skipTime cs
  | some (c :: rest) =>
    if c = 'T' ∨ c = 't' then (skipTime rest).bind skipOffset
    else if c = ' ' ∧ rest.head?.any isAsciiDigit then (skipTime rest).bind skipOffset
    else some (c :: rest)
  | some [] => some []

/-- May `c` stand in a number or a truth value? -/
def isScalarChar (c : Char) : Bool := isBareChar c || c == '+' || c == '.'

/-- Read a number, a date or a truth value. -/
def readScalar (cs : List Char) : Option (Toml × List Char) :=
  match skipMoment cs with
  | some rest => some (.moment, rest)
  | none =>
    let (word, rest) := cs.span isScalarChar
    if word = "true".toList then some (.bool true, rest)
    else if word = "false".toList then some (.bool false, rest)
    else if isInteger word || isFloat word then some (.number, rest)
    else none

/-! ## Values -/

/-- The table in braces that bindings make. -/
def inlineOf (bindings : List (List String × Toml)) : Option Toml :=
  (bindings.foldlM (fun fields (path, v) ↦ bindDotted v path fields) []).map .inline

mutual

/-- Read a value. -/
def readValue : Nat → List Char → Option (Toml × List Char)
  | 0, _ => none
  | fuel + 1, cs =>
    match cs with
    | '[' :: rest =>
      (readItems fuel (skipLines rest.length rest)).map fun (items, rest) ↦ (.list items, rest)
    | '{' :: rest =>
      match skipGap rest with
      | '}' :: rest => some (.inline [], rest)
      | rest => do
        let (bindings, rest) ← readBindings fuel rest
        return (← inlineOf bindings, rest)
    | c :: _ =>
      if c == '"' || c == '\x27' then
        (readString cs).map fun (body, rest) ↦ (.text (String.ofList body), rest)
      else readScalar cs
    | [] => none

/-- Read the items of an array up to its closing bracket. -/
def readItems : Nat → List Char → Option (List Toml × List Char)
  | 0, _ => none
  | fuel + 1, cs =>
    match cs with
    | ']' :: rest => some ([], rest)
    | _ => do
      let (v, rest) ← readValue fuel cs
      match skipLines rest.length rest with
      | ',' :: rest =>
        let (items, rest) ← readItems fuel (skipLines rest.length rest)
        some (v :: items, rest)
      | ']' :: rest => some ([v], rest)
      | _ => none

/-- Read the bindings of a table in braces up to its closing brace. -/
def readBindings : Nat → List Char → Option (List (List String × Toml) × List Char)
  | 0, _ => none
  | fuel + 1, cs => do
    let (path, rest) ← readKey cs.length cs
    let rest ← expect '=' rest
    let (v, rest) ← readValue fuel (skipGap rest)
    match skipGap rest with
    | ',' :: rest =>
      let (bindings, rest) ← readBindings fuel rest
      some ((path, v) :: bindings, rest)
    | '}' :: rest => some ([(path, v)], rest)
    | _ => none

end

/-! ## Files -/

/-- Read a key and its value. -/
def readBinding (cs : List Char) : Option (Statement × List Char) := do
  let (path, rest) ← readKey cs.length cs
  let rest ← expect '=' rest
  let (v, rest) ← readValue (2 * rest.length + 2) (skipGap rest)
  return (.binding path v, rest)

/-- Read a header after its opening brackets, up to the given closing ones. -/
def readHeader (make : List String → String → Statement) (close : List Char) (cs : List Char) :
    Option (Statement × List Char) := do
  let (path, rest) ← readKey cs.length cs
  let rest ← stripStart close rest
  return (make path.dropLast (← path.getLast?), rest)

/-- Read a statement. -/
def readStatement : List Char → Option (Statement × List Char)
  | '[' :: '[' :: rest => readHeader .row [']', ']'] rest
  | '[' :: rest => readHeader .table [']'] rest
  | cs => readBinding cs

/-- Read the statements of a file, one a line. -/
def readStatements : Nat → List Char → Option (List Statement)
  | 0, cs => if cs.isEmpty then some [] else none
  | fuel + 1, cs =>
    match skipLines cs.length cs with
    | [] => some []
    | cs => do
      let (statement, rest) ← readStatement cs
      let rest ← skipLine rest
      let others ← readStatements fuel rest
      return statement :: others

/-- The root table of a settings file; a byte-order mark may stand before it. -/
def read? (text : String) : Option Fields :=
  let cs := match text.toList with
    | '\ufeff' :: rest => rest
    | cs => cs
  (readStatements cs.length cs).bind ofStatements

end Glossopoeia.Toml
