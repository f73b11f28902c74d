import Glossopoeia.GrammarTable.Walk
import Glossopoeia.Proofs.Affix.Boundary
import Glossopoeia.Proofs.Affix.Solid

/-!
# Conditional particles

A conditional particle is two words, one for words with a vowel at the start and one for the others.
Which is which is not stored with the rule: it is found out again from its pattern, by looking for
the text of the vowel class in it.

The class of the consonants lists the same characters, so that text could turn up there.  It does
not (`contains_vowel_boundaryPattern`).  A pattern that asks for a consonant is longer by two
characters, which leaves three places to look at, and at each of them two characters differ on which
the vowels have no influence: a bracket is not the caret or the dollar sign, and a list of
characters does not begin with a caret, since a caret in it stands behind a backslash.
-/

set_option autoImplicit false

namespace Glossopoeia

open Phonology Text

/-! ## One class in the other -/

namespace Phonology.SoundClass

open Pattern

variable (s : SoundClass)

/-- Both classes list as many characters, and with as many backslashes. -/
theorem length_escaped_excludedChars :
    (escaped s.excludedChars).length = (escaped s.vowelChars).length := by
  rw [excludedChars, vowelChars]
  split
  · cases s.script <;> decide
  · rfl

theorem not_vowel_isPrefix_caret (rest : List Char) : ¬s.vowel <+: '^' :: rest := by
  rw [vowel_eq, List.cons_prefix_cons]
  exact fun h ↦ absurd h.1 (by decide)

/-- No list begins with a caret, so the class of the vowels is not found at the start of that of the
consonants. -/
theorem vowel_isInfix_consonant_append_iff (more : List Char) :
    s.vowel <:+: s.consonant ++ more ↔ s.vowel <:+: escaped s.excludedChars ++ ']' :: more := by
  rw [consonant_eq, List.cons_append, List.cons_append, List.append_assoc, List.singleton_append,
    List.infix_cons_iff, List.infix_cons_iff]
  refine ⟨?_, fun h ↦ .inr (.inr h)⟩
  rintro (hopening | hcaret | hlist)
  · rw [vowel_eq, List.cons_prefix_cons] at hopening
    obtain ⟨rest, hrest⟩ := hopening.2
    rw [List.append_assoc, List.singleton_append] at hrest
    have hfirst : (escaped s.vowelChars ++ ']' :: rest).head? ≠ some '^' :=
      head?_escaped_append rest rfl (by decide) (.inl (by decide))
    rw [hrest] at hfirst
    exact absurd rfl hfirst
  · exact absurd hcaret (s.not_vowel_isPrefix_caret _)
  · exact hlist

/-- The class of the vowels stands in no pattern that asks for a consonant. -/
theorem not_vowel_isInfix_consonant :
    ¬s.vowel <:+: '^' :: s.consonant ∧ ¬s.vowel <:+: s.consonant ++ ['$'] := by
  have hlength : s.vowel.length = (escaped s.excludedChars).length + 2 := by
    rw [vowel_eq, length_escaped_excludedChars]
    simp
  constructor
  · rw [List.infix_cons_iff, ← List.append_nil s.consonant, vowel_isInfix_consonant_append_iff]
    rintro (hcaret | hlist)
    · exact s.not_vowel_isPrefix_caret _ hcaret
    · -- What is left behind the caret is too short.
      have hle := hlist.length_le
      rw [hlength, List.length_append, List.length_singleton] at hle
      omega
  · rw [vowel_isInfix_consonant_append_iff]
    intro hlist
    -- What is left is as long as the class, but ends with the dollar sign.
    have heq := hlist.eq_of_length (by rw [hlength]; simp)
    have hlast := congrArg List.getLast? heq
    rw [vowel_eq, List.getLast?_cons] at hlast
    simp at hlast

end Phonology.SoundClass

/-- **The pattern of a question has the class of the vowels in it if it asks for a vowel**, and only
then. -/
theorem contains_vowel_boundaryPattern (s : SoundClass) (b : Boundary) :
    contains s.vowel (Orthography.boundaryPattern s b).toList = true ↔ b.letter = 'V' := by
  rw [contains_eq_true_iff]
  obtain ⟨hinitial, hfinal⟩ := s.not_vowel_isInfix_consonant
  cases b <;> rw [Orthography.boundaryPattern, String.toList_ofList]
  · exact iff_of_true (List.suffix_cons ..).isInfix rfl
  · exact iff_of_true (List.prefix_append ..).isInfix rfl
  · exact iff_of_false hinitial (by decide)
  · exact iff_of_false hfinal (by decide)

/-! ## Cells -/

/-- Does the cell begin with `IF` and this question? -/
def Boundary.Opens (boundary : Boundary) (cell : List Char) : Prop :=
  ∃ g₁ g₂ rest, (allBlank g₁ ∧ allBlank g₂) ∧
    cell = g₁ ++ "IF".toList ++ g₂ ++ boundary.mark ++ rest

/-- Is the cell written `IF #V THEN a - ELSE b -` or with another question?  The blanks before a
hyphen belong to the particle. -/
def Boundary.Chooses (boundary : Boundary) (a b cell : List Char) : Prop :=
  ∃ head g₁ g₂ g₃, CellForm.IsCondition boundary head ∧ (allBlank g₁ ∧ allBlank g₂ ∧ allBlank g₃) ∧
    cell = head ++ a ++ '-' :: (g₁ ++ "ELSE".toList ++ g₂ ++ b ++ '-' :: g₃)

namespace Boundary

variable {boundary boundary' : Boundary} {a b cell : List Char}

theorem Chooses.opens (h : boundary.Chooses a b cell) : boundary.Opens cell := by
  obtain ⟨_, e₁, e₂, e₃, ⟨g₁, g₂, g₃, g₄, ⟨h₁, h₂, -⟩, rfl⟩, -, rfl⟩ := h
  refine ⟨g₁, g₂, g₃ ++ "THEN".toList ++ g₄ ++ a
    ++ '-' :: (e₁ ++ "ELSE".toList ++ e₂ ++ b ++ '-' :: e₃), ⟨h₁, h₂⟩, ?_⟩
  simp only [List.append_assoc]

theorem Opens.keyword_eq (h : boundary.Opens cell) :
    ∃ rest, CellForm.keyword "IF" (trimLeft cell) = some (boundary.mark ++ rest) := by
  obtain ⟨g₁, g₂, rest, ⟨h₁, h₂⟩, rfl⟩ := h
  refine ⟨rest, (CellForm.keyword_trimLeft_eq_some_iff
    (show "IF".toList = 'I' :: ['F'] from rfl) (by decide)).2
    ⟨g₁, g₂, h₁, h₂, by simp only [List.append_assoc], ?_⟩⟩
  cases boundary <;> exact trimLeft_cons (by decide) _

/-- A cell begins with one question only. -/
theorem Opens.eq (h : boundary.Opens cell) (h' : boundary'.Opens cell) : boundary = boundary' := by
  obtain ⟨rest, hrest⟩ := h.keyword_eq
  obtain ⟨rest', hrest'⟩ := h'.keyword_eq
  have hmark := Option.some.inj (hrest.symm.trans hrest')
  have hfound := (@CellForm.findSome?_mark_eq_some_iff _ _ boundary).2 ⟨rest, rfl, rfl⟩
  have hfound' := CellForm.findSome?_mark_eq_some_iff.2 ⟨rest', hmark, rfl⟩
  exact congrArg Prod.fst (Option.some.inj (hfound.symm.trans hfound'))

end Boundary

namespace CellForm

variable {cell a b : List Char} {boundary : Boundary}

/-- How a conditional particle is written. -/
theorem chooses_of_read? (h : read? cell = some (.conditional .particle boundary a b)) :
    boundary.isInitial = true ∧ boundary.Chooses a b cell := by
  rcases Option.or_eq_some_iff.1 h with h | ⟨-, h⟩
  · obtain ⟨⟨question, rest⟩, hcondition, hbranch⟩ := Option.bind_eq_some_iff.1 h
    obtain ⟨head, hhead, rfl, -⟩ := readCondition_eq_some_iff.1 hcondition
    dsimp only at hbranch
    split at hbranch
    · next hinitial =>
      rcases Option.or_eq_some_iff.1 hbranch with hfront | ⟨-, hparticle⟩
      · obtain ⟨_, -, heq⟩ := Option.map_eq_some_iff.1 hfront
        cases heq
      · obtain ⟨⟨first, second⟩, hbranches, heq⟩ := Option.map_eq_some_iff.1 hparticle
        cases heq
        obtain ⟨run, gap, rest, rfl, rfl, -, -, -, hsecond⟩ :=
          particleBranches_eq_some_iff.1 hbranches
        obtain ⟨g₁, g₂, g₃, hgaps, rfl, -⟩ := secondFront_eq_some_iff.1 hsecond
        exact ⟨hinitial, head, g₁, g₂, g₃, hhead, hgaps, by simp only [List.append_assoc]⟩
    · obtain ⟨_, -, heq⟩ := Option.map_eq_some_iff.1 hbranch
      cases heq
  · rcases Option.or_eq_some_iff.1 h with h | ⟨-, h⟩
    · obtain ⟨_, -, heq⟩ := Option.map_eq_some_iff.1 h
      cases heq
    · rcases (readAttached?_eq_some h).1 with hkind | hkind <;> cases hkind

end CellForm

/-- What a conditional particle is compiled from. -/
theorem Orthography.read?_of_compileCell {o : Orthography} {cell : List Char}
    {pattern patternSpelled yes yesSpelled no noSpelled : String}
    (h : o.compileCell cell = .ok (some .particle,
      .conditional pattern patternSpelled yes yesSpelled no noSpelled)) :
    ∃ boundary, CellForm.read? cell
        = some (.conditional .particle boundary yes.toList no.toList) ∧
      pattern = boundaryPattern o.phonetic boundary := by
  rcases of_compileCell h with ⟨form, hform, hkind, hrule⟩ | ⟨hkind, -⟩ | ⟨hkind, -⟩
  · cases form with
    | plain kind add => cases hrule
    | conditional kind boundary a b =>
      cases hkind
      cases hrule
      exact ⟨boundary, by simpa only [String.toList_ofList] using hform, rfl⟩
  · cases hkind
  · cases hkind

namespace GrammarTables

/-- The entry of a particle that goes with words that begin with the given sound. -/
def choiceEntry (phonetic spelled sound declension : String) : LexiconEntry where
  phonetic := trimString phonetic
  spelled := trimString spelled
  english := "<" ++ sound ++ " " ++ declension ++ " Particle>"
  partOfSpeech := "Special"
  declensions := [sound ++ " " ++ declension]
  derived := false
  declined := false
  metadata := .object []

/-- No blank surrounds a gloss. -/
theorem trimString_gloss (label : String) :
    trimString ("<" ++ label ++ " Particle>") = "<" ++ label ++ " Particle>" := by
  have hgloss : ("<" ++ label ++ " Particle>").toList
      = '<' :: (label.toList ++ " Particle".toList ++ ['>']) := by simp
  have hright : trimRight ('<' :: (label.toList ++ " Particle".toList) ++ ['>'])
      = '<' :: (label.toList ++ " Particle".toList) ++ ['>'] :=
    trimRight_append_cons _ [] (by decide)
  rw [trimString, onString, hgloss, trim, trimLeft_cons (by decide), ← List.cons_append, hright,
    List.cons_append, ← hgloss, String.ofList_toList]

theorem particleEntry_eq (phonetic spelled sound declension : String) :
    particleEntry phonetic spelled (sound ++ " " ++ declension)
      = choiceEntry phonetic spelled sound declension := by
  rw [particleEntry, LexiconEntry.new, trimString_gloss, choiceEntry]
  have hgloss : "<" ++ (sound ++ " " ++ declension) ++ " Particle>"
      = "<" ++ sound ++ " " ++ declension ++ " Particle>" := by simp [String.append_assoc]
  rw [hgloss]
  rfl

/-- The entries of a conditional particle, by what its pattern has in it. -/
theorem particleEntries_conditional (o : Orthography)
    (pattern patternSpelled yes yesSpelled no noSpelled declension : String) :
    particleEntries o
        ⟨declension, .conditional pattern patternSpelled yes yesSpelled no noSpelled⟩
      = if contains o.phonetic.vowel pattern.toList then
          [choiceEntry yes yesSpelled "Vowel" declension,
            choiceEntry no noSpelled "Consonant" declension]
        else
          [choiceEntry yes yesSpelled "Consonant" declension,
            choiceEntry no noSpelled "Vowel" declension] := by
  have hvowel : "Vowel " = "Vowel" ++ " " := by decide
  have hconsonant : "Consonant " = "Consonant" ++ " " := by decide
  simp only [particleEntries, hvowel, hconsonant, ← particleEntry_eq]
  split <;> rfl

/-- **The entries of a conditional particle.**  The pattern of a question has the text of the vowel
class in it exactly if it asks for a vowel, whatever the vowels are.  So of a cell that is compiled
to a conditional particle, which begins with one of the two questions about the first sound, there
are two entries: the particle behind `THEN` goes with the sound that the question asks for, and the
one behind `ELSE` with the other. -/
theorem particleEntries_of_compileCell :
    (∀ (s : SoundClass) (b : Boundary),
      contains s.vowel (Orthography.boundaryPattern s b).toList = true ↔ b.letter = 'V') ∧
    ∀ (o : Orthography) (cell : List Char)
      (pattern patternSpelled yes yesSpelled no noSpelled declension : String),
      o.compileCell cell = .ok (some .particle,
        .conditional pattern patternSpelled yes yesSpelled no noSpelled) →
      (∃ b : Boundary, b.isInitial = true ∧ b.Chooses yes.toList no.toList cell) ∧
      (Boundary.initialVowel.Opens cell →
        particleEntries o
            ⟨declension, .conditional pattern patternSpelled yes yesSpelled no noSpelled⟩
          = [choiceEntry yes yesSpelled "Vowel" declension,
            choiceEntry no noSpelled "Consonant" declension]) ∧
      (Boundary.initialConsonant.Opens cell →
        particleEntries o
            ⟨declension, .conditional pattern patternSpelled yes yesSpelled no noSpelled⟩
          = [choiceEntry yes yesSpelled "Consonant" declension,
            choiceEntry no noSpelled "Vowel" declension]) := by
  refine ⟨contains_vowel_boundaryPattern, fun o cell pattern patternSpelled yes yesSpelled no
    noSpelled declension h ↦ ?_⟩
  obtain ⟨boundary, hread, rfl⟩ := Orthography.read?_of_compileCell h
  obtain ⟨hinitial, hchooses⟩ := CellForm.chooses_of_read? hread
  have htest := contains_vowel_boundaryPattern o.phonetic boundary
  refine ⟨⟨boundary, hinitial, hchooses⟩, fun hopens ↦ ?_, fun hopens ↦ ?_⟩
  · obtain rfl := hchooses.opens.eq hopens
    rw [particleEntries_conditional, if_pos (htest.2 rfl)]
  · obtain rfl := hchooses.opens.eq hopens
    rw [particleEntries_conditional, if_neg fun h ↦ absurd (htest.1 h) (by decide)]

/-- A language whose vowels are made of the characters that mean something in a class. -/
def ofSigns : Orthography := ⟨.ofSymbols ["^]", "[a-", "\\"], .ofSpelled ["a"], ⟨[]⟩⟩

/-- The article `l` or `la` of that language. -/
theorem particleEntries_article :
    Boundary.initialConsonant.Opens "IF #C THEN la - ELSE l -".toList ∧
    ofSigns.compileCell "IF #C THEN la - ELSE l -".toList
      = .ok (some .particle,
          .conditional "^[^\\-\\[\\\\\\]\\^a]" "^[^a]" "la " "la" "l " "l") ∧
    particleEntries ofSigns ⟨"Definite",
        .conditional "^[^\\-\\[\\\\\\]\\^a]" "^[^a]" "la " "la" "l " "l"⟩
      = [choiceEntry "la " "la" "Consonant" "Definite",
        choiceEntry "l " "l" "Vowel" "Definite"] := by
  have hopens : Boundary.initialConsonant.Opens "IF #C THEN la - ELSE l -".toList :=
    ⟨[], [' '], " THEN la - ELSE l -".toList, ⟨rfl, by decide⟩, rfl⟩
  have hcell : ofSigns.compileCell "IF #C THEN la - ELSE l -".toList
      = .ok (some .particle,
          .conditional "^[^\\-\\[\\\\\\]\\^a]" "^[^a]" "la " "la" "l " "l") := by
    decide +kernel
  exact ⟨hopens, hcell,
    (particleEntries_of_compileCell.2 _ _ _ _ _ _ _ _ "Definite" hcell).2.2 hopens⟩

end GrammarTables

end Glossopoeia
