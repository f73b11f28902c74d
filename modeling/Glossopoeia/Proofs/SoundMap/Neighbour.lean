import Glossopoeia.Proofs.SoundMap.Marker

/-!
# Spelling beside a neighbour

A line whose marker names a neighbouring sound spells its phoneme where it has such a neighbour, and
leaves the neighbour alone: what is rewritten is the phoneme with its neighbour, and what is written
is the spelling with the same neighbour on the same side (`Neighbour.exists_spelledBy_beside`).  The
neighbour is remembered by the pattern and put back by the template, so the proof follows it from
the one to the other.

Two kinds of lines lose the neighbour.  Behind `$1` a spelling that begins with a digit becomes part
of the number of the group (`not_rewritten_digit`), and for `V_#` the template holds the class
letter itself, which is replaced in patterns but not in templates (`not_rewritten_vowelFinal`).
-/

set_option autoImplicit false

namespace Glossopoeia

open Text Pattern Phonology

/-! ## Templates with one group -/

namespace Template

theorem bracedFrom_append {text : List Char} (h : '$' ∉ text) (more : List Char) :
    bracedFrom none (text ++ more) = text ++ bracedFrom none more := by
  induction text with
  | nil => rfl
  | cons c rest ih =>
    obtain ⟨hc, hrest⟩ := List.ne_and_not_mem_of_not_mem_cons h
    rw [List.cons_append, bracedFrom, if_neg (Ne.symm hc), ih hrest]
    rfl

theorem ofBraced_append {text : List Char} (h : '$' ∉ text) (more : List Char) :
    ofBraced (text ++ more) = (text.map fun c ↦ .literal [c]) ++ ofBraced more := by
  induction text with
  | nil => rfl
  | cons c rest ih =>
    obtain ⟨hc, hrest⟩ := List.ne_and_not_mem_of_not_mem_cons h
    rw [List.cons_append, ofBraced, ih hrest, List.map_cons, List.cons_append]
    · rintro _ rfl
      exact absurd rfl hc
    · rintro _ rfl
      exact absurd rfl hc

theorem fill_append (groups : Nat → Option (List Char)) (t t' : Template) :
    fill groups (t ++ t') = fill groups t ++ fill groups t' := List.flatMap_append

/-- A reference to the first group, then a text that does not begin with a digit. -/
theorem fill_firstGroup_append {text : List Char} (h : '$' ∉ text)
    (hdigit : ∀ c ∈ text.head?, isAsciiDigit c = false) (groups : Nat → Option (List Char)) :
    fill groups (ofBraced (braced (Context.firstGroup ++ text))) = (groups 1).getD [] ++ text := by
  have hbraced : braced (Context.firstGroup ++ text) = '$' :: '{' :: '1' :: '}' :: text := by
    cases text with
    | nil => rfl
    | cons c rest =>
      obtain ⟨hc, hrest⟩ := List.ne_and_not_mem_of_not_mem_cons h
      show bracedFrom (some ['1']) (c :: rest) = _
      rw [bracedFrom, hdigit c rfl, if_neg Bool.false_ne_true, if_neg (Ne.symm hc),
        bracedFrom_verbatim hrest]
      rfl
  have hpieces : ofBraced ('$' :: '{' :: '1' :: '}' :: text) = .group 1 :: ofBraced text := rfl
  rw [hbraced, hpieces, ofBraced_verbatim h]
  exact congrArg _ (writes_literals text groups)

/-- A text, then a reference to the first group. -/
theorem fill_append_firstGroup {text : List Char} (h : '$' ∉ text)
    (groups : Nat → Option (List Char)) :
    fill groups (ofBraced (braced (text ++ Context.firstGroup))) = text ++ (groups 1).getD [] := by
  have hpieces : ofBraced (bracedFrom none Context.firstGroup) = [.group 1] := by rfl
  rw [braced, bracedFrom_append h, ofBraced_append h, hpieces, fill_append,
    writes_literals text groups]
  exact congrArg _ (List.append_nil _)

end Template

/-! ## Markers -/

/-- The markers of a neighbouring sound. -/
inductive Neighbour where
  /-- A consonant on the left, perhaps at the end of the word: `C_` and `C_#`. -/
  | consonant (final : Bool)
  /-- A letter on the right: `_x`. -/
  | next (letter : Char)
  /-- Any other than the listed letters on the right: `!_` and the letters in braces, with commas
  between them. -/
  | noneOf (listed : List Char)
  /-- A letter on the left, at the end of the word: `x_#`. -/
  | previous (letter : Char)
deriving DecidableEq, Repr

namespace Neighbour

/-- How it is written. -/
def marker : Neighbour → List Char
  | consonant final => ['C', '_'] ++ if final then ['#'] else []
  | next letter => ['_', letter]
  | noneOf listed => '!' :: '_' :: '{' :: (listed ++ ['}'])
  | previous letter => [letter, '_', '#']

/-- The listed letters without the commas. -/
def excluded (listed : List Char) : List Char := listed.filter (· != ',')

/-- The context that the marker stands for. -/
def context : Neighbour → Context
  | consonant final => if final then .afterConsonantFinal else .afterConsonant
  | next letter => .followedBy [letter]
  | noneOf listed => .notFollowedBy (excluded listed)
  | previous letter => .afterFinal [letter]

/-- May the character stand for itself beside the mark of a place? -/
def IsLetter (c : Char) : Prop := isBlank c = false ∧ c ∉ metacharacters ∧ c ≠ '#' ∧ c ≠ '_'

instance (c : Char) : Decidable (IsLetter c) := inferInstanceAs (Decidable (_ ∧ _))

/-- May the character stand for itself among listed letters? -/
def IsListable (c : Char) : Prop :=
  isBlank c = false ∧ SoundClass.isSpecial c = false ∧ c ≠ 'C' ∧ c ≠ 'V'

instance (c : Char) : Decidable (IsListable c) := inferInstanceAs (Decidable (_ ∧ _))

/-- Is the marker made of letters?  The letter `C` before the mark of the last place is that of
`consonant`. -/
def IsWritten : Neighbour → Prop
  | consonant _ => True
  | next letter => IsLetter letter
  | noneOf listed => (∀ c ∈ listed, IsListable c) ∧ excluded listed ≠ []
  | previous letter => IsLetter letter ∧ letter ≠ 'C'

/-- Does the neighbour stand on the left? -/
def onLeft : Neighbour → Bool
  | consonant _ | previous _ => true
  | next _ | noneOf _ => false

/-- Must the word end there? -/
def isFinal : Neighbour → Bool
  | consonant final => final
  | previous _ => true
  | next _ | noneOf _ => false

/-- May the character be the neighbour? -/
def admits (s : SoundClass) : Neighbour → Char → Bool
  | consonant _, c => s.admits 'C' c
  | next letter, c => s.admits letter c
  | noneOf listed, c => !(excluded listed).contains c
  | previous letter, c => s.admits letter c

/-- The text with its neighbour. -/
def beside (m : Neighbour) (c : Char) (text : List Char) : List Char :=
  if m.onLeft then c :: text else text ++ [c]

/-- The phoneme with a neighbour is written as its spelling with the same neighbour. -/
def hit (m : Neighbour) (s : SoundClass) (phoneme roman : List Char) : Hit :=
  fun _ matched after new ↦ ∃ c, m.admits s c = true ∧ (m.isFinal = true → after = []) ∧
    matched = m.beside c phoneme ∧ new = m.beside c roman

variable {m : Neighbour}

theorem takeWhile_isSolid {run : List Char} (h : ∀ c ∈ run, isBlank c = false) :
    run.takeWhile isSolid = run :=
  List.takeWhile_eq_self_iff.2 fun c hc ↦ by simp [isSolid, h c hc]

theorem excludedBy_append {listed : List Char} (h : listed ≠ []) :
    Context.excludedBy (listed ++ ['}']) = some (excluded listed) := by
  obtain ⟨c, rest, rfl⟩ := List.exists_cons_of_ne_nil h
  have hcut : cutLast '}' (c :: rest ++ ['}']) = some (c :: rest, []) := by
    rw [cutLast, List.reverse_append]
    simp [cut]
  rw [Context.excludedBy, hcut]
  rfl

theorem read?_marker (h : m.IsWritten) : Context.read? m.marker = some m.context := by
  cases m with
  | consonant final => cases final <;> rfl
  | next letter =>
    obtain ⟨hblank, -, hmark, -⟩ := h
    have hsolid : ∀ c ∈ ['_', letter], isBlank c = false := by simpa using ⟨by decide, hblank⟩
    have hmarkers : ['_', letter] ∉ Context.fixedMarkers := by simp [Context.fixedMarkers, hmark]
    rw [marker, Context.read?_eq_readNeighbour hmarkers, Context.readNeighbour,
      takeWhile_isSolid hsolid]
    rfl
  | noneOf listed =>
    obtain ⟨hlisted, hne⟩ := h
    have hsolid : ∀ c ∈ '!' :: '_' :: '{' :: (listed ++ ['}']), isBlank c = false := by
      have hends : isBlank '!' = false ∧ isBlank '_' = false ∧ isBlank '{' = false ∧
          isBlank '}' = false := by decide
      simp only [List.forall_mem_cons, List.forall_mem_append, List.not_mem_nil]
      exact ⟨hends.1, hends.2.1, hends.2.2.1, fun c hc ↦ (hlisted c hc).1, hends.2.2.2,
        fun _ h ↦ h.elim⟩
    have hlistedNe : listed ≠ [] := fun hnil ↦ hne (by rw [hnil]; rfl)
    rw [marker, Context.read?_eq_readNeighbour (by simp [Context.fixedMarkers]),
      Context.readNeighbour, takeWhile_isSolid hsolid]
    simp only [excludedBy_append hlistedNe]
    rfl
  | previous letter =>
    obtain ⟨⟨hblank, -, hmark, hplace⟩, hconsonant⟩ := h
    have hsolid : ∀ c ∈ [letter, '_', '#'], isBlank c = false := by
      simpa using ⟨hblank, by decide, by decide⟩
    have hmarkers : [letter, '_', '#'] ∉ Context.fixedMarkers := by
      simp [Context.fixedMarkers, hmark, hconsonant]
    rw [marker, Context.read?_eq_readNeighbour hmarkers, Context.readNeighbour,
      takeWhile_isSolid hsolid]
    split
    · next heq => exact absurd (List.cons.inj heq).1 hplace
    · next heq => cases heq
    · rfl

/-! ## Patterns -/

variable {s : SoundClass} {phoneme roman : List Char}

/-- The set that the neighbour is of. -/
def set (m : Neighbour) (s : SoundClass) : CharSet :=
  match m with
  | consonant _ => s.letterSet 'C'
  | next letter | previous letter => s.letterSet letter
  | noneOf listed => .inverse (.ofChars (excluded listed))

theorem contains_set (m : Neighbour) (s : SoundClass) (c : Char) :
    (m.set s).contains c = m.admits s c := by
  cases m with
  | noneOf listed => rw [set, admits, CharSet.contains, CharSet.contains_ofChars]
  | _ => exact s.contains_letterSet _ c

/-- Is the neighbour remembered?  A letter on the left is written as it stands in the line. -/
def isRemembered : Neighbour → Bool
  | previous _ => false
  | _ => true

/-- What the pattern has for the neighbour, as it is written. -/
def text : Neighbour → List Char
  | consonant _ => Context.grouped ['C']
  | next letter => Context.grouped [letter]
  | noneOf listed => Context.grouped ('[' :: '^' :: (excluded listed ++ [']']))
  | previous letter => [letter]

/-- The piece of the neighbour. -/
def piece (m : Neighbour) (s : SoundClass) : Pattern :=
  if m.isRemembered then .group 1 (one (m.set s)) else one (m.set s)

/-- The pieces of the pattern. -/
def pieces (m : Neighbour) (s : SoundClass) (phoneme : List Char) : List Pattern :=
  (if m.onLeft then m.piece s :: (phoneme.map s.letterSet).map one
    else (phoneme.map s.letterSet).map one ++ [m.piece s]) ++
  if m.isFinal then [place .textEnd] else []

theorem toList_spellingPattern (m : Neighbour) (phoneme roman : List Char) :
    (Context.rule phoneme roman m.context).spellingPattern.toList
      = (if m.onLeft then m.text ++ phoneme else phoneme ++ m.text) ++
        if m.isFinal then ['$'] else [] := by
  cases m with
  | consonant final =>
    cases final <;> simp [context, Context.rule, Context.ruleOf, text, onLeft, isFinal]
  | _ => simp [context, Context.rule, Context.ruleOf, text, onLeft, isFinal]

/-- A group of one letter begins with the letter or with the bracket of a class. -/
theorem head?_substitute_singleton {c : Char} (hc : c ∉ metacharacters) :
    s.substitute [c] ≠ [] ∧ (s.substitute [c]).head? ≠ some '?' := by
  refine ⟨s.substitute_ne_nil (List.cons_ne_nil _ _), ?_⟩
  rw [SoundClass.substitute, List.flatMap_singleton]
  split
  · exact fun heq ↦ absurd (Option.some.inj heq) (by decide)
  · split
    · exact fun heq ↦ absurd (Option.some.inj heq) (by decide)
    · exact fun heq ↦ hc (Option.some.inj heq ▸ by decide)

theorem substitute_grouped (cs : List Char) :
    s.substitute (Context.grouped cs) = Context.grouped (s.substitute cs) := by
  rw [Context.grouped, ← List.singleton_append, s.substitute_append, s.substitute_append]
  rfl

/-- The written neighbour denotes its piece. -/
theorem exists_denotes_text (hs : s.vowelChars ≠ []) (h : m.IsWritten) :
    ∃ opened, Denotes 0 (s.substitute m.text) [m.piece s] opened := by
  have hgroup {c : Char} (hc : c ∉ metacharacters) :
      ∃ opened, Denotes 0 (s.substitute (Context.grouped [c])) [.group 1 (one (s.letterSet c))]
        opened := by
    rw [substitute_grouped]
    exact ⟨1, (SoundClass.denotes_letter hs hc 1).group (head?_substitute_singleton hc)⟩
  cases m with
  | consonant final => exact hgroup (by decide)
  | next letter => exact hgroup h.2.1
  | noneOf listed =>
    have hlistable : ∀ c ∈ excluded listed, IsListable c :=
      fun c hc ↦ h.1 c (List.mem_of_mem_filter hc)
    have hplain : SoundClass.escaped (excluded listed) = excluded listed :=
      escaped_eq_self fun c hc ↦ (hlistable c hc).2.1
    have hread (rest : List Char) : readClass .regular ('^' :: excluded listed ++ ']' :: rest)
        = some (.inverse (.ofChars (excluded listed)), rest) := by
      have := (@readClass_escaped .regular _ h.2 rest).2
      rwa [hplain] at this
    have hself : s.substitute ('[' :: '^' :: (excluded listed ++ [']']))
        = '[' :: '^' :: (excluded listed ++ [']']) := by
      have hclass {c : Char} (hc : c = 'C' ∨ c = 'V') : c ∉ excluded listed := fun hmem ↦
        hc.elim (hlistable c hmem).2.2.1 (hlistable c hmem).2.2.2
      refine s.substitute_eq_self ⟨?_, ?_⟩
      · simpa using hclass (.inl rfl)
      · simpa using hclass (.inr rfl)
    rw [text, substitute_grouped, hself]
    exact ⟨1, (denotes_class hread 1).group ⟨List.cons_ne_nil _ _, by simp⟩⟩
  | previous letter => exact ⟨0, SoundClass.denotes_letter hs h.1.2.1 0⟩

/-- The written pattern denotes the pieces. -/
theorem exists_denotes_pieces (hs : s.vowelChars ≠ []) (h : m.IsWritten)
    (hphoneme : IsVerbatim phoneme) (roman : List Char) :
    ∃ opened, Denotes 0
      (s.substitute (Context.rule phoneme roman m.context).spellingPattern.toList)
      (m.pieces s phoneme) opened := by
  obtain ⟨opened, htext⟩ := exists_denotes_text hs h
  have hletters (opened : Nat) := SoundClass.denotes_substitute hs hphoneme opened
  refine ⟨opened, ?_⟩
  rw [toList_spellingPattern, s.substitute_append, pieces]
  have hsides : Denotes 0
      (s.substitute (if m.onLeft then m.text ++ phoneme else phoneme ++ m.text))
      (if m.onLeft then m.piece s :: (phoneme.map s.letterSet).map one
        else (phoneme.map s.letterSet).map one ++ [m.piece s]) opened := by
    split
    · rw [s.substitute_append]
      exact htext.append (hletters opened)
    · rw [s.substitute_append]
      exact (hletters 0).append htext
  refine hsides.append ?_
  split
  · exact denotes_dollar opened
  · exact denotes_nil opened

/-! ## Matches -/

/-- The piece takes one character, which may be the neighbour. -/
theorem run_piece_eq_some {pieces : List Pattern} {t stop : Cursor} {k : Rest} :
    (sequence (m.piece s :: pieces)).run t k = some stop ↔
      ∃ c rest, t.after = c :: rest ∧ m.admits s c = true ∧
        (sequence pieces).run ⟨c :: t.before, rest,
          if m.isRemembered then (1, [c]) :: t.groups else t.groups⟩ k = some stop := by
  rw [piece]
  split
  · rw [run_group_eq_some]
    simp only [contains_set]
  · rw [run_one_eq_some]
    simp only [contains_set]

/-- A phoneme without class letters takes itself. -/
theorem run_phoneme_eq_some (hphoneme : 'C' ∉ phoneme ∧ 'V' ∉ phoneme) {pieces : List Pattern}
    {t stop : Cursor} {k : Rest} :
    (sequence ((phoneme.map s.letterSet).map one ++ pieces)).run t k = some stop ↔
      ∃ rest, t.after = phoneme ++ rest ∧
        (sequence pieces).run ⟨phoneme.reverse ++ t.before, rest, t.groups⟩ k = some stop := by
  rw [run_sets_eq_some]
  simp only [s.fits_letterSet_iff, s.admits_iff_eq hphoneme]
  constructor
  · rintro ⟨_, rest, hafter, rfl, hrun⟩
    exact ⟨rest, hafter, hrun⟩
  · rintro ⟨rest, hafter, hrun⟩
    exact ⟨phoneme, rest, hafter, rfl, hrun⟩

/-- The pieces match the phoneme with a neighbour, and remember the neighbour. -/
theorem run_pieces_eq_some (hphoneme : 'C' ∉ phoneme ∧ 'V' ∉ phoneme) {before after : List Char}
    {stop : Cursor} :
    (sequence (m.pieces s phoneme)).run ⟨before, after, []⟩ some = some stop ↔
      ∃ c rest, after = m.beside c phoneme ++ rest ∧ m.admits s c = true ∧
        (m.isFinal = true → rest = []) ∧
        ⟨(m.beside c phoneme).reverse ++ before, rest,
          if m.isRemembered then [(1, [c])] else []⟩ = stop := by
  rw [pieces]
  cases hside : m.onLeft with
  | true =>
    rw [if_pos rfl, List.cons_append, run_piece_eq_some]
    simp only [run_phoneme_eq_some hphoneme, run_textEnd_if_eq_some, beside, hside, if_true,
      List.reverse_cons, List.append_assoc]
    constructor
    · rintro ⟨c, _, hafter, hc, rest, rfl, hrest, hstop⟩
      exact ⟨c, rest, hafter, hc, hrest, hstop⟩
    · rintro ⟨c, rest, hafter, hc, hrest, hstop⟩
      exact ⟨c, _, hafter, hc, rest, rfl, hrest, hstop⟩
  | false =>
    rw [if_neg Bool.false_ne_true, List.append_assoc, run_phoneme_eq_some hphoneme]
    simp only [List.singleton_append, run_piece_eq_some, run_textEnd_if_eq_some, beside, hside,
      Bool.false_eq_true, if_false, List.reverse_append, List.append_assoc]
    constructor
    · rintro ⟨_, hafter, c, rest, rfl, hc, hrest, hstop⟩
      exact ⟨c, rest, hafter, hc, hrest, hstop⟩
    · rintro ⟨c, rest, hafter, hc, hrest, hstop⟩
      exact ⟨_, hafter, c, rest, rfl, hc, hrest, hstop⟩

/-! ## Lines -/

/-- The two sides of a line are those of a rule beside a neighbour: texts without characters that
mean something else, and not a comment. -/
structure IsPlain (m : Neighbour) (phoneme roman : List Char) : Prop where
  /-- The marker names a neighbour. -/
  marker_written : m.IsWritten
  /-- There is something to spell. -/
  phoneme_ne : phoneme ≠ []
  /-- The phoneme stands for itself. -/
  phoneme_verbatim : IsVerbatim phoneme
  /-- It has no class letters. -/
  phoneme_noClass : 'C' ∉ phoneme ∧ 'V' ∉ phoneme
  /-- The spelling stands for itself. -/
  roman_verbatim : IsVerbatim roman
  /-- The line is no comment. -/
  no_comment : phoneme.head? ≠ some '/'

/-- The template of the line can put the neighbour back: no digit follows the number of its group,
and a neighbour that is not remembered is not one of a class. -/
def KeepsNeighbour (m : Neighbour) (roman : List Char) : Prop :=
  match m with
  | consonant _ => ∀ c ∈ roman.head?, isAsciiDigit c = false
  | previous letter => letter ≠ 'V'
  | next _ | noneOf _ => True

/-- The template writes the spelling with the neighbour. -/
theorem fill_romanization (hplain : m.IsPlain phoneme roman) (hkeeps : m.KeepsNeighbour roman)
    {c : Char} (hc : m.admits s c = true) {groups : Nat → Option (List Char)}
    (hgroups : m.isRemembered = true → groups 1 = some [c]) :
    Template.fill groups (.ofBraced (Template.braced
      (Context.rule phoneme roman m.context).romanization.toList)) = m.beside c roman := by
  have hdollar : '$' ∉ roman := fun h ↦ hplain.roman_verbatim _ h (by decide)
  cases m with
  | consonant final =>
    have hroman : (Context.rule phoneme roman (consonant final).context).romanization.toList
        = Context.firstGroup ++ roman := by
      cases final <;> exact String.toList_ofList
    rw [hroman, Template.fill_firstGroup_append hdollar hkeeps, hgroups rfl]
    rfl
  | next letter =>
    rw [context, Context.rule, Context.ruleOf, String.toList_ofList,
      Template.fill_append_firstGroup hdollar, hgroups rfl]
    rfl
  | noneOf listed =>
    rw [context, Context.rule, Context.ruleOf, String.toList_ofList,
      Template.fill_append_firstGroup hdollar, hgroups rfl]
    rfl
  | previous letter =>
    obtain ⟨⟨-, hmeta, -, -⟩, hconsonant⟩ := hplain.marker_written
    obtain rfl : c = letter := (s.admits_iff_of_ne ⟨hconsonant, hkeeps⟩).1 hc
    have hdollar' : '$' ∉ [c] ++ roman := by
      simpa [hdollar] using fun h : '$' = c ↦ hmeta (h ▸ by decide)
    rw [context, Context.rule, Context.ruleOf, String.toList_ofList]
    exact Template.writes_braced hdollar' groups

/-- The pattern and the template of a line rewrite the phoneme beside a neighbour. -/
theorem rewrites_pieces (s : SoundClass) (hplain : m.IsPlain phoneme roman)
    (hkeeps : m.KeepsNeighbour roman) :
    (sequence (m.pieces s phoneme)).Rewrites (.ofBraced (Template.braced
      (Context.rule phoneme roman m.context).romanization.toList)) (m.hit s phoneme roman) where
  of_run h := by
    obtain ⟨c, rest, hafter, hc, hrest, rfl⟩ := (run_pieces_eq_some hplain.phoneme_noClass).1 h
    refine ⟨m.beside c phoneme, rest, hafter, ?_, rfl, rfl, c, hc, hrest, rfl, ?_⟩
    · rw [beside]
      split <;> simp
    · refine fill_romanization hplain hkeeps hc fun hremembered ↦ ?_
      simp [Match.group?, Cursor.groupText?, hremembered]
  run_ne_none := by
    rintro before _ rest _ ⟨c, hc, hrest, rfl, -⟩ hnone
    rw [(run_pieces_eq_some hplain.phoneme_noClass).2 ⟨c, rest, rfl, hc, hrest, rfl⟩] at hnone
    cases hnone

theorem inContext?_eq (h : m.IsWritten) :
    SoundRule.inContext? phoneme roman m.marker = some (Context.rule phoneme roman m.context) := by
  have hedge : m.marker ≠ "_#".toList := by
    cases m with
    | consonant final => cases final <;> decide
    | next letter => simpa [marker] using h.2.2.1
    | noneOf listed => simp [marker]
    | previous letter => simp [marker]
  rw [SoundRule.inContext?, read?_marker h, if_neg hedge]
  rfl

/-- **A line whose marker names a neighbour spells its phoneme beside it and leaves the neighbour
alone**: what is rewritten is the phoneme with a neighbour, and it becomes the spelling with the
same neighbour on the same side. -/
theorem exists_spelledBy_beside (m : Neighbour) (lists : List String) {line : String}
    (hline : IsContextLine line.toList phoneme roman m.marker) (hplain : m.IsPlain phoneme roman)
    (hkeeps : m.KeepsNeighbour roman) :
    ∃ step, SpelledBy (.ofSymbols lists) line step ∧
      ∀ word, Rewritten (m.hit (.ofSymbols lists) phoneme roman) [] word (step.apply word) := by
  have hs := SoundClass.vowelChars_ofSymbols_ne_nil lists
  have hclass : ¬(phoneme.head? = some 'V' ∨ phoneme.head? = some 'C') := by
    rintro (h | h)
    · exact hplain.phoneme_noClass.2 (List.mem_of_mem_head? h)
    · exact hplain.phoneme_noClass.1 (List.mem_of_mem_head? h)
  obtain ⟨learnt, hcompile⟩ := compileLine_of_isContextLine (.ofSymbols lists) hline
    hplain.no_comment (fun h ↦ absurd h hclass)
    ⟨fun h ↦ hplain.phoneme_verbatim _ h (by decide),
      fun h ↦ hplain.phoneme_verbatim _ h (by decide)⟩ (inContext?_eq hplain.marker_written)
  obtain ⟨opened, hdenotes⟩ := exists_denotes_pieces hs hplain.marker_written
    hplain.phoneme_verbatim roman
  have hpattern : (Context.rule phoneme roman m.context).spellingPattern.toList ≠ [] := by
    rw [toList_spellingPattern]
    split <;> simp [hplain.phoneme_ne]
  exact exists_spelledBy_of_rewrites hcompile hpattern hdenotes (rewrites_pieces _ hplain hkeeps)

/-- With the vowel `a`, `tj > c2 / !_{a,e}` is such a line. -/
theorem exists_spelledBy_noneOf :
    IsContextLine "tj > c2 / !_{a,e}".toList ['t', 'j'] ['c', '2'] (noneOf ['a', ',', 'e']).marker ∧
      (noneOf ['a', ',', 'e']).IsPlain ['t', 'j'] ['c', '2'] ∧
      (noneOf ['a', ',', 'e']).KeepsNeighbour ['c', '2'] ∧
      ∃ step, SpelledBy (.ofSymbols ["a"]) "tj > c2 / !_{a,e}" step ∧
        ∀ word, Rewritten ((noneOf ['a', ',', 'e']).hit (.ofSymbols ["a"]) ['t', 'j'] ['c', '2']) []
          word (step.apply word) := by
  have hline : IsContextLine "tj > c2 / !_{a,e}".toList ['t', 'j'] ['c', '2']
      (noneOf ['a', ',', 'e']).marker :=
    ⟨"tj ".toList, " c2 ".toList, " !_{a,e}".toList, rfl, by decide, rfl, rfl, rfl⟩
  have hlisted : ∀ c ∈ ['a', ',', 'e'], IsListable c := List.forall_mem_cons.2
    ⟨by decide, List.forall_mem_cons.2 ⟨by decide, List.forall_mem_singleton.2 (by decide)⟩⟩
  have hplain : (noneOf ['a', ',', 'e']).IsPlain ['t', 'j'] ['c', '2'] :=
    ⟨⟨hlisted, by decide⟩, by decide, by decide, by decide, by decide, by decide⟩
  exact ⟨hline, hplain, trivial, exists_spelledBy_beside _ ["a"] hline hplain trivial⟩

/-! ## Lost neighbours -/

/-- Where neighbours are left alone, only the phoneme can be lost. -/
theorem mem_of_rewritten {before word result : List Char}
    (h : Rewritten (m.hit s phoneme roman) before word result) {c : Char} (hc : c ∈ word)
    (hphoneme : c ∉ phoneme) : c ∈ result := by
  induction h with
  | done => exact hc
  | kept _ _ ih =>
    rcases List.mem_cons.1 hc with rfl | hrest
    · exact List.mem_cons_self ..
    · exact List.mem_cons_of_mem _ (ih hrest)
  | found hhit _ ih =>
    obtain ⟨d, -, -, rfl, rfl⟩ := hhit
    have hbeside (text : List Char) : c ∈ m.beside d text ↔ c = d ∨ c ∈ text := by
      rw [beside]
      split <;> simp [or_comm]
    rcases List.mem_append.1 hc with hmatched | hrest
    · refine List.mem_append_left _ ((hbeside _).2 (.inl ?_))
      exact ((hbeside _).1 hmatched).resolve_right hphoneme
    · exact List.mem_append_right _ (ih hrest)

/-- A digit behind the reference is read as part of its number: with the vowel `a`, `j > 2 / C_`
spells `atja` as `aa`. -/
theorem not_rewritten_digit :
    ∃ step, SpelledBy (.ofSymbols ["a"]) "j > 2 / C_" step ∧
      step.apply "atja".toList = "aa".toList ∧
      ¬Rewritten ((consonant false).hit (.ofSymbols ["a"]) ['j'] ['2']) [] "atja".toList
        (step.apply "atja".toList) := by
  have hcompile : compileLine (.ofSymbols ["a"]) "j > 2 / C_".toList
      = .ok ⟨[⟨"$1j", "$12", "(C)j", "(C)2"⟩], []⟩ := by decide +kernel
  have hread : ofChars .regular (SoundClass.substitute (.ofSymbols ["a"]) "(C)j".toList)
      = some (sequence [.group 1 (one (.inverse (.union .empty (.single 'a')))),
          char 'j']) := by decide +kernel
  obtain ⟨step, hstep, hresult⟩ : ∃ step, SpelledBy (.ofSymbols ["a"]) "j > 2 / C_" step ∧
      step.apply "atja".toList = "aa".toList :=
    ⟨_, spelledBy_of_compileLine hcompile (by decide) hread, by decide⟩
  refine ⟨step, hstep, hresult, ?_⟩
  rw [hresult]
  exact fun h ↦ absurd (mem_of_rewritten h (c := 't') (by decide) (by decide)) (by decide)

/-- A vowel on the left is matched, but the letter of its class is written: with the vowel `a`,
`j > i / V_#` spells `taj` as `tVi`. -/
theorem not_rewritten_vowelFinal :
    ∃ step, SpelledBy (.ofSymbols ["a"]) "j > i / V_#" step ∧
      step.apply "taj".toList = "tVi".toList ∧
      ¬Rewritten ((previous 'V').hit (.ofSymbols ["a"]) ['j'] ['i']) [] "taj".toList
        (step.apply "taj".toList) := by
  have hcompile : compileLine (.ofSymbols ["a"]) "j > i / V_#".toList
      = .ok ⟨[⟨"Vj", "Vi", "Vj$", "Vi$"⟩], []⟩ := by decide +kernel
  have hread : ofChars .regular (SoundClass.substitute (.ofSymbols ["a"]) "Vj$".toList)
      = some (sequence [one (.union .empty (.single 'a')), char 'j', place .textEnd]) := by
    decide +kernel
  obtain ⟨step, hstep, hresult⟩ : ∃ step, SpelledBy (.ofSymbols ["a"]) "j > i / V_#" step ∧
      step.apply "taj".toList = "tVi".toList :=
    ⟨_, spelledBy_of_compileLine hcompile (by decide) hread, by decide⟩
  refine ⟨step, hstep, hresult, ?_⟩
  rw [hresult]
  exact fun h ↦ absurd (mem_of_rewritten h (c := 'a') (by decide) (by decide)) (by decide)

end Neighbour

end Glossopoeia
