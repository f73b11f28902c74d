import Glossopoeia.Proofs.SoundMap.ContextLine

/-!
# Spelling at the edge of a word

A line with the marker `#_`, `_#` or `#_#` spells its phoneme at the start of a word, at its end or
as a whole word, and nowhere else (`WordEdge.exists_spelledBy`).  Then one occurrence at most is
rewritten: the second would have to begin where the word has already begun, or to end where it has
already ended (`Rewritten.eq_or_exists`).

Two kinds of lines with these markers are spelled elsewhere too.  A line whose two sides begin with
the same class letter is taken for the rule of a whole class, which knows no context
(`not_confines_group`).  And for `_#` a line with a class letter at the end of the phoneme and one
within its spelling becomes a rule that carries the sound over, but does not ask for the end of the
word (`not_confines_classAtEnd`).
-/

set_option autoImplicit false

namespace Glossopoeia

open Pattern Phonology

/-- The markers of the edges of a word. -/
inductive WordEdge where
  /-- At the start. -/
  | initial
  /-- At the end. -/
  | final
  /-- At both. -/
  | whole
deriving DecidableEq, Repr

namespace WordEdge

/-- How it is written. -/
def marker : WordEdge → List Char
  | initial => ['#', '_']
  | final => ['_', '#']
  | whole => ['#', '_', '#']

/-- The context that the marker stands for. -/
def context : WordEdge → Context
  | initial => .initial
  | final => .final
  | whole => .whole

/-- Is a text that stands between these two at the edge? -/
def IsAt (edge : WordEdge) (before after : List Char) : Prop :=
  (edge ≠ final → before = []) ∧ (edge ≠ initial → after = [])

/-- At the edge, a text of the phoneme is written as its spelling. -/
def hit (edge : WordEdge) (s : SoundClass) (phoneme roman : List Char) : Hit :=
  fun before matched after new ↦
    edge.IsAt before after ∧ s.Admits phoneme matched ∧ new = roman

/-- The pieces of the pattern for the phoneme at the edge. -/
def pieces (edge : WordEdge) (sets : List CharSet) : List Pattern :=
  (if edge ≠ final then [place .textStart] else []) ++
    (sets.map one ++ if edge ≠ initial then [place .textEnd] else [])

theorem read?_marker (edge : WordEdge) : Context.read? edge.marker = some edge.context := by
  cases edge <;> rfl

variable {edge : WordEdge} {s : SoundClass} {phoneme roman : List Char}

/-- The written pattern denotes the pieces. -/
theorem denotes_pieces (edge : WordEdge) (hs : s.vowelChars ≠ []) (hphoneme : IsVerbatim phoneme)
    (roman : List Char) :
    Denotes 0 (s.substitute ((Context.rule phoneme roman edge.context).spellingPattern.toList))
      (edge.pieces (phoneme.map s.letterSet)) 0 := by
  have hdenotes := SoundClass.denotes_substitute hs hphoneme 0
  have hcaret (cs : List Char) : s.substitute ('^' :: cs) = ['^'] ++ s.substitute cs := rfl
  have hdollar (cs : List Char) : s.substitute (cs ++ ['$']) = s.substitute cs ++ ['$'] :=
    List.flatMap_append
  cases edge with
  | initial =>
    rw [context, Context.rule, Context.ruleOf, String.toList_ofList, hcaret]
    simpa [pieces] using (denotes_caret 0).append hdenotes
  | final =>
    rw [context, Context.rule, Context.ruleOf, String.toList_ofList, hdollar]
    simpa [pieces] using hdenotes.append (denotes_dollar 0)
  | whole =>
    rw [context, Context.rule, Context.ruleOf, String.toList_ofList, List.cons_append, hcaret,
      hdollar]
    simpa [pieces] using (denotes_caret 0).append (hdenotes.append (denotes_dollar 0))

/-- The pieces match at the edge, where a text of the sets stands. -/
theorem run_pieces_eq_some {sets : List CharSet} {before after : List Char} {stop : Cursor} :
    (sequence (edge.pieces sets)).run ⟨before, after, []⟩ some = some stop ↔
      ∃ text rest, after = text ++ rest ∧ edge.IsAt before rest ∧ Fits sets text ∧
        ⟨text.reverse ++ before, rest, []⟩ = stop := by
  rw [pieces, run_place_if_eq_some, run_sets_eq_some]
  simp only [run_textEnd_if_eq_some, Cursor.isAt, List.isEmpty_iff]
  constructor
  · rintro ⟨hbefore, text, rest, hafter, hfits, hrest, hstop⟩
    exact ⟨text, rest, hafter, ⟨hbefore, hrest⟩, hfits, hstop⟩
  · rintro ⟨text, rest, hafter, ⟨hbefore, hrest⟩, hfits, hstop⟩
    exact ⟨hbefore, text, rest, hafter, hfits, hrest, hstop⟩

theorem hit_ne_nil (hne : phoneme ≠ []) {before matched after new : List Char}
    (h : edge.hit s phoneme roman before matched after new) : matched ≠ [] :=
  h.2.1.ne_nil hne

/-- The pattern and a template that writes the spelling rewrite the hits at the edge. -/
theorem rewrites_pieces (edge : WordEdge) (s : SoundClass) (hne : phoneme ≠ []) {t : Template}
    (ht : t.Writes roman) :
    (sequence (edge.pieces (phoneme.map s.letterSet))).Rewrites t (edge.hit s phoneme roman) where
  of_run h := by
    obtain ⟨text, rest, hafter, hat, hfits, rfl⟩ := run_pieces_eq_some.1 h
    have hadmits := s.fits_letterSet_iff.1 hfits
    exact ⟨text, rest, hafter, hadmits.ne_nil hne, rfl, rfl, hat, hadmits, ht _⟩
  run_ne_none := by
    rintro before matched rest new ⟨hat, hadmits, -⟩ hnone
    rw [run_pieces_eq_some.2 ⟨matched, rest, rfl, hat, s.fits_letterSet_iff.2 hadmits, rfl⟩]
      at hnone
    cases hnone

/-! ## Words -/

/-- What the line does to a word: one text of the phoneme that stands at the edge is written as its
spelling, and the rest of the word is left alone; if there is none, all of the word is. -/
def Spells (edge : WordEdge) (s : SoundClass) (phoneme roman word result : List Char) : Prop :=
  (∃ a matched b, word = a ++ (matched ++ b) ∧ edge.IsAt a b ∧
    s.Admits phoneme matched ∧ result = a ++ (roman ++ b)) ∨
  ((∀ a matched b, word = a ++ (matched ++ b) → edge.IsAt a b →
    ¬s.Admits phoneme matched) ∧ result = word)

/-- Is a word left alone but for one text of the phoneme at the edge? -/
def Confines (edge : WordEdge) (s : SoundClass) (phoneme word result : List Char) : Prop :=
  result = word ∨ ∃ a matched b new, word = a ++ (matched ++ b) ∧ edge.IsAt a b ∧
    s.Admits phoneme matched ∧ result = a ++ (new ++ b)

theorem Spells.confines {word result : List Char} (h : edge.Spells s phoneme roman word result) :
    edge.Confines s phoneme word result := by
  rcases h with ⟨a, matched, b, hword, hat, hadmits, hresult⟩ | ⟨-, hresult⟩
  · exact .inr ⟨a, matched, b, roman, hword, hat, hadmits, hresult⟩
  · exact .inl hresult

theorem isAt_reverse {before after : List Char} :
    edge.IsAt (before.reverse ++ []) after ↔ edge.IsAt before after := by
  simp [IsAt]

/-- Behind a hit at the edge there is no other: the word has begun, or it is at its end. -/
theorem eq_of_hit (hne : phoneme ≠ []) {before matched rest new result : List Char}
    (hhit : edge.hit s phoneme roman before matched rest new)
    (h : Rewritten (edge.hit s phoneme roman) (matched.reverse ++ before) rest result) :
    result = rest := by
  refine h.eq_of_forall_not fun gap matched' rest' new' heq hhit' ↦ ?_
  by_cases hedge : edge = initial
  · have hbegun := hhit'.1.1 (by simp [hedge])
    simp only [List.append_eq_nil_iff, List.reverse_eq_nil_iff] at hbegun
    exact hit_ne_nil hne hhit hbegun.2.1
  · have hend : rest = [] := hhit.1.2 hedge
    refine hit_ne_nil hne hhit' ?_
    rw [hend] at heq
    exact (List.append_eq_nil_iff.1 (List.append_eq_nil_iff.1 heq.symm).2).1

theorem spells_of_rewritten (hne : phoneme ≠ []) {word result : List Char}
    (h : Rewritten (edge.hit s phoneme roman) [] word result) :
    edge.Spells s phoneme roman word result := by
  rcases h.eq_or_exists (hit_ne_nil hne) (eq_of_hit hne) with
    ⟨rfl, hnone⟩ | ⟨gap, matched, rest, new, rfl, ⟨hat, hfits, rfl⟩, rfl⟩
  · exact .inr ⟨fun a matched b heq hat hfits ↦
      hnone a matched b roman heq ⟨isAt_reverse.2 hat, hfits, rfl⟩, rfl⟩
  · exact .inl ⟨gap, matched, rest, rfl, isAt_reverse.1 hat, hfits, rfl⟩

/-! ## Lines -/

/-- The two sides of a line are those of a rule for the edge: texts without characters that mean
something else, not a comment, and no rule that has a meaning of its own. -/
structure IsPlain (edge : WordEdge) (phoneme roman : List Char) : Prop where
  /-- There is something to spell. -/
  phoneme_ne : phoneme ≠ []
  /-- There is a spelling. -/
  roman_ne : roman ≠ []
  /-- The phoneme stands for itself, but for class letters. -/
  phoneme_verbatim : IsVerbatim phoneme
  /-- So does the spelling. -/
  roman_verbatim : IsVerbatim roman
  /-- The line is no comment. -/
  no_comment : phoneme.head? ≠ some '/'
  /-- It is not the rule of a whole class. -/
  no_group : phoneme.head? = some 'V' ∨ phoneme.head? = some 'C' → roman.head? ≠ phoneme.head?
  /-- It does not carry a sound of a class over at the end of a word. -/
  no_classRule : edge = final → Context.classRule? phoneme roman = none

theorem IsPlain.inContext?_eq (h : edge.IsPlain phoneme roman) :
    SoundRule.inContext? phoneme roman edge.marker
      = some (Context.rule phoneme roman edge.context) := by
  rw [SoundRule.inContext?, read?_marker]
  cases edge with
  | initial => rfl
  | final => rw [h.no_classRule rfl]; rfl
  | whole => rfl

/-- **A line for the edge of a word spells its phoneme there and nowhere else.** -/
theorem exists_spelledBy (edge : WordEdge) (lists : List String) {line : String}
    (hline : IsContextLine line.toList phoneme roman edge.marker)
    (hplain : edge.IsPlain phoneme roman) :
    ∃ step, SpelledBy (.ofSymbols lists) line step ∧
      ∀ word, edge.Spells (.ofSymbols lists) phoneme roman word (step.apply word) := by
  have hs := SoundClass.vowelChars_ofSymbols_ne_nil lists
  obtain ⟨learnt, hcompile⟩ := compileLine_of_isContextLine (.ofSymbols lists) hline
    hplain.no_comment hplain.no_group
    ⟨fun h ↦ hplain.phoneme_verbatim _ h (by decide),
      fun h ↦ hplain.phoneme_verbatim _ h (by decide)⟩ hplain.inContext?_eq
  have hpattern : (Context.rule phoneme roman edge.context).spellingPattern.toList ≠ [] := by
    cases edge <;> simp [context, Context.rule, Context.ruleOf]
  have hroman : (Context.rule phoneme roman edge.context).romanization.toList = roman := by
    cases edge <;> exact String.toList_ofList
  have hwrites : (Template.ofBraced (Template.braced
      (Context.rule phoneme roman edge.context).romanization.toList)).Writes roman := by
    rw [hroman]
    exact Template.writes_braced fun h ↦ hplain.roman_verbatim _ h (by decide)
  obtain ⟨step, hstep, hrewritten⟩ := exists_spelledBy_of_rewrites hcompile hpattern
    (edge.denotes_pieces hs hplain.phoneme_verbatim roman)
    (rewrites_pieces edge _ hplain.phoneme_ne hwrites)
  exact ⟨step, hstep, fun word ↦ spells_of_rewritten hplain.phoneme_ne (hrewritten word)⟩

/-- With the vowel `a`, `Cd > t / _#` is such a line. -/
theorem exists_spelledBy_final :
    IsContextLine "Cd > t / _#".toList ['C', 'd'] ['t'] final.marker ∧
      final.IsPlain ['C', 'd'] ['t'] ∧
      ∃ step, SpelledBy (.ofSymbols ["a"]) "Cd > t / _#" step ∧
        ∀ word, final.Spells (.ofSymbols ["a"]) ['C', 'd'] ['t'] word (step.apply word) := by
  have hline : IsContextLine "Cd > t / _#".toList ['C', 'd'] ['t'] final.marker :=
    ⟨"Cd ".toList, " t ".toList, " _#".toList, rfl, by decide, rfl, rfl, rfl⟩
  have hplain : final.IsPlain ['C', 'd'] ['t'] :=
    ⟨by decide, by decide, by decide, by decide, by decide, by decide, fun _ ↦ by decide⟩
  exact ⟨hline, hplain, exists_spelledBy final ["a"] hline hplain⟩

/-! ## Spelled elsewhere -/

/-- What stands before the text at the end is left alone. -/
theorem Confines.take_eq {word result : List Char} (h : final.Confines s phoneme word result) :
    result.take (word.length - phoneme.length) = word.take (word.length - phoneme.length) := by
  rcases h with rfl | ⟨a, matched, b, new, rfl, hat, hadmits, rfl⟩
  · rfl
  · have hlength : (a ++ (matched ++ b)).length - phoneme.length = a.length := by
      obtain rfl : b = [] := hat.2 (by decide)
      have hmatched : phoneme.length = matched.length := hadmits.length_eq
      simp only [List.length_append, List.length_nil, hmatched]
      omega
    rw [hlength, List.take_left, List.take_left]

/-- The rule that carries a sound over rewrites every text of the phoneme: with the vowel `a`,
`nC > mCx / _#` spells `antant` as `amtxamtx`. -/
theorem not_confines_classAtEnd :
    ∃ step, SpelledBy (.ofSymbols ["a"]) "nC > mCx / _#" step ∧
      step.apply "antant".toList = "amtxamtx".toList ∧
      ¬final.Confines (.ofSymbols ["a"]) ['n', 'C'] "antant".toList
        (step.apply "antant".toList) := by
  have hcompile : compileLine (.ofSymbols ["a"]) "nC > mCx / _#".toList
      = .ok ⟨[⟨"n$1", "m$1x", "n(C)", "m(C)x"⟩], []⟩ := by decide +kernel
  have hread : ofChars .regular (SoundClass.substitute (.ofSymbols ["a"]) "n(C)".toList)
      = some (sequence [char 'n',
          .group 1 (one (.inverse (.union .empty (.single 'a'))))]) := by decide +kernel
  obtain ⟨step, hstep, hresult⟩ : ∃ step, SpelledBy (.ofSymbols ["a"]) "nC > mCx / _#" step ∧
      step.apply "antant".toList = "amtxamtx".toList :=
    ⟨_, spelledBy_of_compileLine hcompile (by decide) hread, by decide⟩
  refine ⟨step, hstep, hresult, ?_⟩
  rw [hresult]
  exact fun h ↦ absurd h.take_eq (by decide)

/-- So does the rule of a whole class: with the vowel `a`, `Vː > Va / _#` spells `taːtaː` as
`taataa`. -/
theorem not_confines_group :
    ∃ step, SpelledBy (.ofSymbols ["a"]) "Vː > Va / _#" step ∧
      step.apply "taːtaː".toList = "taataa".toList ∧
      ¬final.Confines (.ofSymbols ["a"]) ['V', 'ː'] "taːtaː".toList
        (step.apply "taːtaː".toList) := by
  have hcompile : compileLine (.ofSymbols ["a"]) "Vː > Va / _#".toList
      = .ok ⟨[⟨"$1ː", "$1a", "(V)ː", "(V)a"⟩], []⟩ := by decide
  have hread : ofChars .regular (SoundClass.substitute (.ofSymbols ["a"]) "(V)ː".toList)
      = some (sequence [.group 1 (one (.union .empty (.single 'a'))), char 'ː']) := by
    decide +kernel
  obtain ⟨step, hstep, hresult⟩ : ∃ step, SpelledBy (.ofSymbols ["a"]) "Vː > Va / _#" step ∧
      step.apply "taːtaː".toList = "taataa".toList :=
    ⟨_, spelledBy_of_compileLine hcompile (by decide) hread, by decide⟩
  refine ⟨step, hstep, hresult, ?_⟩
  rw [hresult]
  exact fun h ↦ absurd h.take_eq (by decide)

end WordEdge

end Glossopoeia
