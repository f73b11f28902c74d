/-!
# Symbols of the phonetic alphabet

The symbols that a phonetic form is written with, sorted as the tables of the International Phonetic
Alphabet sort them, and the division of a text into symbols.
-/

set_option autoImplicit false

namespace Glossopoeia.Phonology

/-- The kinds of phonetic symbols. -/
inductive SymbolKind where
  /-- A consonant made with air from the lungs. -/
  | pulmonicConsonant
  /-- Any other consonant. -/
  | otherConsonant
  /-- A vowel. -/
  | vowel
  /-- A mark of length, stress or tie. -/
  | suprasegmental
  /-- A mark that modifies a symbol. -/
  | diacritic
deriving DecidableEq, Repr

/-- The pulmonic consonants. -/
def pulmonicConsonants : List Char :=
  ['b', '\u03b2', '\u0299', 'c', '\u00e7', 'd', '\u0256', '\u1d91', '\u02a3', '\u02a5', '\u02a4',
   '\uab66', 'f', '\u0278', 'g', '\u0262', '\u0270', 'h', '\u0266', '\u0127', '\u0267', 'j',
   '\u029d', '\u025f', 'k', 'l', '\u026b', '\u026c', '\u026e', '𝼅', '\u026d', '\ua78e', '\u029f',
   '𝼄', 'm', '\u0271', 'n', '\u0273', '\u0272', '\u014b', '\u0274', 'p', 'q', 'r', '\u0279',
   '\u027e', '\u027d', '\u027b', '\u027a', '𝼈', '\u0281', '\u0280', 's', '\u0282', '\u0283', 't',
   '\u0288', '\u02a6', '\u02a8', '\u02a7', '\uab67', 'v', '\u2c71', '\u028b', 'x', '\u0263',
   '\u03c7', '\u028e', '𝼆', 'z', '\u0290', '\u0292', '\u03b8', '\u00f0', '\u0294', '\u0295', 'R']

/-- The consonants made without air from the lungs. -/
def otherConsonants : List Char :=
  ['\u0253', '\u0257', '\u0284', '\u0260', '\u029b', 'w', '\u028d', '\u0265', '\u02a1', '\u02a2',
   '\u0255', '\u0291', '\u029c', '\u0298', '\u01c0', '\u01c3', '\u01c2', '\u01c1', '𝼊']

/-- The vowels, and the hook that colours one. -/
def vowels : List Char :=
  ['a', '\u00e6', '\u0251', '\u0252', '\u0250', 'e', '\u025b', '\u025c', '\u025e', '\u0259', 'i',
   '\u0268', '\u026a', 'y', '\u028f', '\u00f8', '\u0258', '\u0275', '\u0153', '\u0276', '\u0264',
   'o', '\u0254', 'u', '\u0289', '\u028a', '\u026f', '\u028c', '\u025a', '\u02de']

/-- The marks of length, stress and tie. -/
def suprasegmentals : List Char :=
  ['\u02d0', '\u02d1', '\u02c8', '\u02cc', '\u035c', '\u0361']

/-- The marks that modify a symbol. -/
def diacritics : List Char :=
  ['\u02f3', '\u0325', '\u030a', '\u0324', '\u032a', '\u0329', '\u032c', '\u02f7', '\u0330',
   '\u02fd', '\u033a', '\u032f', '\u02b0', '\u033c', '\u033b', '\u02d2', '\u0339', '\u0303',
   '\u02b2', '\u02d3', '\u031c', '\u02d6', '\u031f', '\u207f', '\u00a8', '\u0308', '\u02e0',
   '\u02cd', '\u0320', '\u20e1', '\u02df', '\u033d', '\u02e4', '\uab68', '\u0319']

/-- The kind of a character, if the tables have it. -/
def kindOf (c : Char) : Option SymbolKind :=
  if pulmonicConsonants.contains c then some .pulmonicConsonant
  else if otherConsonants.contains c then some .otherConsonant
  else if vowels.contains c then some .vowel
  else if suprasegmentals.contains c then some .suprasegmental
  else if diacritics.contains c then some .diacritic
  else none

/-- The kind of a symbol; the tables hold symbols of one character only. -/
def classify (symbol : String) : Option SymbolKind :=
  match symbol.toList with
  | [c] => kindOf c
  | _ => none

/-- Is `c` a mark that combines with the character before it? -/
def isCombining (c : Char) : Bool := 0x300 ≤ c.toNat && c.toNat ≤ 0x36F

/-- The symbols of a text: one character each, with the combining marks that follow it. -/
def symbols : List Char → List (List Char)
  | [] => []
  | c :: rest => (c :: rest.takeWhile isCombining) :: symbols (rest.dropWhile isCombining)
termination_by cs => cs.length
decreasing_by
  have := (List.dropWhile_sublist isCombining (l := rest)).length_le
  simp only [List.length_cons]
  omega

end Glossopoeia.Phonology
