import Glossopoeia.Proofs.Pattern.FilledTokens
import Glossopoeia.Proofs.SoundMap.Marker
import Glossopoeia.Pattern.Matcher

/-!
# The vowels of the spelling

The lines of a language teach how its vowels are written: the vowels of the spelling are the
characters of every romanization that a line gives to a phonetic vowel (`mem_vowelChars_iff`).  The
text of the classes is put together from them with a backslash before each character that would
mean something else, and as long as one character is listed both texts are classes, of just these
characters and of the others (`isClassOf_spelling`).

So they are for a language that says how a vowel is written (`compileSoundMap_isClassOf`), and then
a class can be put wherever a set of characters can stand.  A language that spells a vowel with
nothing, and no other with something, has a class without a character, which is no pattern
(`compileSoundMap_unwritten`): whether there are vowels is asked, but not whether one has a
character.
-/

set_option autoImplicit false

namespace Glossopoeia

open Outcome Phonology Text

/-! ## What lines teach -/

/-- The romanization in the right side of a line. -/
def romanOf (right : List Char) : List Char :=
  match cut '/' right with
  | none => right
  | some (roman, _) => trim roman

/-- Does the line spell a phonetic vowel as `roman`?  It is neither a comment nor the rule of a
whole class, and its left side stands for a vowel, perhaps among other phonemes. -/
def Teaches (phonetic : SoundClass) (raw roman : List Char) : Prop :=
  (trim raw).head? ≠ some '/' ∧ groupRule? (trim raw) = none ∧
    ∃ left right rest, split '>' (trim raw) = left :: right :: rest ∧ roman = romanOf (trim right) ∧
      ∃ phoneme ∈ Phonemes.expand (trim left), phonetic.contains (String.ofList phoneme) = true

/-- Is `roman` learnt from the lines as the spelling of a phonetic vowel? -/
def IsLearnt (phonetic : SoundClass) (lines : List String) (roman : List Char) : Prop :=
  ∃ line ∈ lines, Teaches phonetic line.toList roman

/-- Does the character occur in a learnt romanization?  If nothing is learnt, it is to be one of the
default vowels. -/
def IsSpelledVowel (phonetic : SoundClass) (lines : List String) (c : Char) : Prop :=
  (∃ roman, IsLearnt phonetic lines roman ∧ c ∈ roman) ∨
    (∀ roman, ¬IsLearnt phonetic lines roman) ∧ c ∈ Script.spelled.defaultBodies.1.toList

variable {phonetic : SoundClass}

/-- What is learnt from a list is what is learnt from its items. -/
theorem mem_vowels_of_concatM {α : Type} {f : α → Except Error SpellingLines} {list : List α}
    {all : SpellingLines} (h : concatM f list = .ok all) {v : String} :
    v ∈ all.vowels ↔ ∃ a ∈ list, ∃ part, f a = .ok part ∧ v ∈ part.vowels := by
  induction list generalizing all with
  | nil =>
    cases h
    simp [SpellingLines.none]
  | cons a rest ih =>
    rw [concatM, bind_eq_ok] at h
    obtain ⟨first, hfirst, h⟩ := h
    obtain ⟨others, hothers, h⟩ := bind_eq_ok.1 h
    obtain rfl := pure_eq_ok.1 h
    simp [ih hothers, hfirst]

theorem vowels_of_compilePhoneme {line right phoneme : List Char} {part : SpellingLines}
    (h : compilePhoneme phonetic line right phoneme = .ok part) :
    part.vowels = if phonetic.contains (String.ofList phoneme) then [String.ofList (romanOf right)]
      else [] := by
  rw [compilePhoneme] at h
  rw [romanOf]
  cases hcut : cut '/' right with
  | none =>
    rw [hcut] at h
    cases h
    rfl
  | some sides =>
    obtain ⟨roman, marker⟩ := sides
    rw [hcut] at h
    dsimp only at h
    split at h
    · cases h
      rfl
    · cases h

/-- What is learnt from a line. -/
theorem mem_vowels_of_compileLine {raw : List Char} {part : SpellingLines}
    (h : compileLine phonetic raw = .ok part) {v : String} :
    v ∈ part.vowels ↔ ∃ roman, Teaches phonetic raw roman ∧ v = String.ofList roman := by
  rw [compileLine] at h
  simp only [Teaches]
  generalize trim raw = line at h ⊢
  split at h
  · cases h
    simp [SpellingLines.none, split]
  · cases h
    simp [SpellingLines.none]
  · next hempty hcomment =>
    have hhead : line.head? ≠ some '/' := fun hhead ↦
      hcomment _ (List.eq_cons_of_mem_head? hhead)
    split at h
    · next rule hrule =>
      cases h
      simp [hrule]
    · next hrule =>
      split at h
      · next left right rest hsplit =>
        rw [mem_vowels_of_concatM h]
        constructor
        · rintro ⟨phoneme, hphoneme, part, hpart, hv⟩
          rw [vowels_of_compilePhoneme hpart] at hv
          split at hv
          · next hvowel =>
            exact ⟨romanOf (trim right), ⟨hhead, hrule, left, right, rest, hsplit, rfl, phoneme,
              hphoneme, hvowel⟩, List.mem_singleton.1 hv⟩
          · exact absurd hv List.not_mem_nil
        · rintro ⟨_, ⟨-, -, _, _, _, hsplit', rfl, phoneme, hphoneme, hvowel⟩, rfl⟩
          obtain ⟨rfl, rfl, rfl⟩ : left = _ ∧ right = _ ∧ rest = _ := by
            simpa [hsplit] using hsplit'
          obtain ⟨part, hpart, -⟩ := exists_part_of_concatM h hphoneme
          exact ⟨phoneme, hphoneme, part, hpart, by simp [vowels_of_compilePhoneme hpart, hvowel]⟩
      · cases h

/-- **The vowels that are learnt are the romanizations of the phonetic vowels.** -/
theorem mem_vowels_iff {lines : List String} {parts : SpellingLines}
    (h : SpellingLines.ofLines phonetic lines = .ok parts) {v : String} :
    v ∈ parts.vowels ↔ ∃ roman, IsLearnt phonetic lines roman ∧ v = String.ofList roman := by
  rw [mem_vowels_of_concatM h]
  constructor
  · rintro ⟨line, hline, part, hpart, hv⟩
    obtain ⟨roman, hteaches, rfl⟩ := (mem_vowels_of_compileLine hpart).1 hv
    exact ⟨roman, ⟨line, hline, hteaches⟩, rfl⟩
  · rintro ⟨roman, ⟨line, hline, hteaches⟩, rfl⟩
    obtain ⟨part, hpart, -⟩ := exists_part_of_concatM h hline
    exact ⟨line, hline, part, hpart, (mem_vowels_of_compileLine hpart).2 ⟨roman, hteaches, rfl⟩⟩

/-! ## The classes -/

variable {lines : List String} {parts : SpellingLines}

theorem mem_members_iff (h : SpellingLines.ofLines phonetic lines = .ok parts) {v : String} :
    v ∈ (SoundClass.ofSpelled parts.vowels).members.toList ↔
      ∃ roman, IsLearnt phonetic lines roman ∧ v = String.ofList roman := by
  rw [← mem_vowels_iff h]
  exact StringSet.mem_toList_ofList

/-- The vowels of the spelling are the characters of what is learnt, or the default ones. -/
theorem mem_vowelChars_iff (h : SpellingLines.ofLines phonetic lines = .ok parts) {c : Char} :
    c ∈ (SoundClass.ofSpelled parts.vowels).vowelChars ↔ IsSpelledVowel phonetic lines c := by
  have hmembers {v : String} := @mem_members_iff _ _ _ h v
  rw [SoundClass.vowelChars, IsSpelledVowel]
  generalize (SoundClass.ofSpelled parts.vowels).members = members at hmembers ⊢
  split
  · next hempty =>
    have hnone (roman : List Char) : ¬IsLearnt phonetic lines roman := fun hlearnt ↦ by
      have hmem := hmembers.2 ⟨roman, hlearnt, rfl⟩
      simp [StringSet.toList, Dictionary.keys, List.isEmpty_iff.1 hempty] at hmem
    simp [hnone, SoundClass.ofSpelled]
  · next hempty =>
    obtain ⟨e, he⟩ := List.isEmpty_eq_false_iff_exists_mem.1 (Bool.eq_false_iff.2 hempty)
    obtain ⟨roman, hlearnt, -⟩ := hmembers.1 (List.mem_map_of_mem he)
    simp only [List.mem_flatMap, hmembers]
    constructor
    · rintro ⟨_, ⟨roman, hlearnt, rfl⟩, hc⟩
      exact .inl ⟨roman, hlearnt, by simpa using hc⟩
    · rintro (⟨roman, hlearnt, hc⟩ | ⟨hnone, -⟩)
      · exact ⟨_, ⟨roman, hlearnt, rfl⟩, by simpa using hc⟩
      · exact absurd hlearnt (hnone roman)

/-- A vowel is listed if something is learnt that is not empty, or if nothing is learnt. -/
theorem vowelChars_ofSpelled_ne_nil_iff (h : SpellingLines.ofLines phonetic lines = .ok parts) :
    (SoundClass.ofSpelled parts.vowels).vowelChars ≠ [] ↔
      (∀ roman, ¬IsLearnt phonetic lines roman) ∨
        ∃ roman, IsLearnt phonetic lines roman ∧ roman ≠ [] := by
  simp only [ne_eq, List.eq_nil_iff_forall_not_mem, not_forall, not_not, mem_vowelChars_iff h,
    IsSpelledVowel]
  constructor
  · rintro ⟨c, ⟨roman, hlearnt, hc⟩ | ⟨hnone, -⟩⟩
    · exact .inr ⟨roman, hlearnt, c, hc⟩
    · exact .inl hnone
  · rintro (hnone | ⟨roman, hlearnt, c, hc⟩)
    · exact ⟨'a', .inr ⟨hnone, by decide⟩⟩
    · exact ⟨c, .inl ⟨roman, hlearnt, hc⟩⟩

namespace Pattern

/-- Does the pattern match the whole text? -/
def matchesWhole (p : Pattern) (text : List Char) : Bool :=
  (p.run (.atStart text) fun t ↦ if t.after.isEmpty then some t else none).isSome

theorem matchesWhole_one {set : CharSet} {text : List Char} :
    (one set).matchesWhole text = true ↔ ∃ c, text = [c] ∧ set.contains c = true := by
  cases text with
  | nil => simp [matchesWhole, run, Cursor.atStart]
  | cons c rest =>
    simp only [matchesWhole, run, Cursor.atStart, List.cons.injEq]
    split <;> simp_all

/-- Is `source` read in either dialect as a pattern of one character with `P`? -/
def IsClassOf (source : List Char) (P : Char → Prop) : Prop :=
  ∀ dialect, ∃ p, ofChars dialect source = some p ∧
    ∀ text, p.matchesWhole text = true ↔ ∃ c, text = [c] ∧ P c

/-- A class is a pattern of one piece. -/
theorem ofChars_class {dialect : Dialect} {body : List Char} {set : CharSet}
    (h : readClass dialect body = some (set, [])) :
    ofChars dialect ('[' :: body) = some (one set) := by
  have htokens : tokens dialect ('[' :: body) = some [.set set] := by
    simp [tokens, tokensFrom, readToken, h]
  rw [ofChars, htokens]
  rfl

theorem isClassOf_of_readClass {body : List Char} {set : CharSet} {P : Char → Prop}
    (h : ∀ dialect, readClass dialect body = some (set, []))
    (hset : ∀ c, set.contains c = true ↔ P c) : IsClassOf ('[' :: body) P := fun dialect ↦
  ⟨one set, ofChars_class (h dialect), fun text ↦ by simp only [matchesWhole_one, hset]⟩

end Pattern

open Pattern SoundClass

/-- If there is a vowel, the class of the vowels and that of the consonants are accepted. -/
theorem isClassOf_spelling {s : SoundClass} (hs : s.vowelChars ≠ []) :
    IsClassOf s.vowel (· ∈ s.vowelChars) ∧ IsClassOf s.consonant (· ∉ s.vowelChars) := by
  rw [s.vowel_eq, s.consonant_eq]
  refine ⟨isClassOf_of_readClass (fun dialect ↦ (readClass_escaped hs []).1) fun c ↦ ?_,
    isClassOf_of_readClass
      (fun dialect ↦ (readClass_escaped (s.vowelChars_ne_nil_iff.1 hs) []).2) fun c ↦ ?_⟩
  · simp
  · have hexcluded := s.contains_excludedChars c
    rw [isVowel, Bool.eq_iff_iff, List.contains_iff_mem, List.contains_iff_mem] at hexcluded
    simp [CharSet.contains, hexcluded]

/-- If there is none, neither is. -/
theorem ofChars_spelling_eq_none {s : SoundClass} (hs : s.vowelChars = []) (dialect : Dialect) :
    ofChars dialect s.vowel = none ∧ ofChars dialect s.consonant = none := by
  have hexcluded : s.excludedChars = [] := by
    by_contra hne
    exact s.vowelChars_ne_nil_iff.2 hne hs
  rw [s.vowel_eq, s.consonant_eq, hs, hexcluded]
  cases dialect <;> decide +kernel

/-! ## Sound maps -/

/-- **The classes that are learnt can be used.**  Unless all that is learnt is that a vowel is not
written, the class of the vowels is accepted in either dialect and matches the characters of the
learnt romanizations, or the default vowels if nothing is learnt; the class of the consonants
matches all others.  And a rule whose pattern for sounding out is accepted as it is written is
accepted with the classes in it, too, unless a class letter stands where no set can: unless the
pattern is refused with the escape for a blank in place of its class letters. -/
theorem compileSoundMap_isClassOf {compiled : CompiledSpelling}
    (h : compileSoundMap lines phonetic = .ok compiled)
    (hlearnt : (∀ roman, ¬IsLearnt phonetic lines roman) ∨
      ∃ roman, IsLearnt phonetic lines roman ∧ roman ≠ []) :
    IsClassOf compiled.spelled.vowel (IsSpelledVowel phonetic lines) ∧
      IsClassOf compiled.spelled.consonant (¬IsSpelledVowel phonetic lines ·) ∧
      ∃ parts, SpellingLines.ofLines phonetic lines = .ok parts ∧
        compiled.soundMap
          = (SoundMap.stressMarks ++ parts.rules).map (.substitute phonetic compiled.spelled) ∧
        ∀ r ∈ SoundMap.stressMarks ++ parts.rules,
          (read? .extended r.soundingPattern).isSome = true →
          (ofChars .extended (Filling.blanks.put r.soundingPattern.toList)).isSome = true →
          (read? .extended (r.substitute phonetic compiled.spelled).soundingPattern).isSome
            = true := by
  rw [compileSoundMap_eq] at h
  obtain ⟨parts, hparts, rfl⟩ := map_eq_ok.1 h
  have hne := (vowelChars_ofSpelled_ne_nil_iff hparts).2 hlearnt
  obtain ⟨hvowel, hconsonant⟩ := isClassOf_spelling hne
  simp only [mem_vowelChars_iff hparts] at hvowel hconsonant
  refine ⟨hvowel, hconsonant, parts, hparts, ?_, fun r _ hwritten hblanks ↦ ?_⟩
  · rw [List.map_append, SoundMap.map_substitute_stressMarks]
    rfl
  · show (ofChars .extended (String.ofList _).toList).isSome = true
    rw [String.toList_ofList]
    exact isSome_ofChars_substitute hne hwritten hblanks

/-- With the vowel `a` and the rules `a > â` and `Vː > VV`, the vowels are the `â` and no other
character, and the pattern that finds a doubled one is accepted. -/
theorem compileSoundMap_isClassOf_doubled :
    ∃ compiled, compileSoundMap ["a > â", "Vː > VV"] (.ofSymbols ["a"]) = .ok compiled ∧
      IsLearnt (.ofSymbols ["a"]) ["a > â", "Vː > VV"] ['â'] ∧
      IsClassOf compiled.spelled.vowel
        (IsSpelledVowel (.ofSymbols ["a"]) ["a > â", "Vː > VV"]) ∧
      IsClassOf compiled.spelled.consonant
        (¬IsSpelledVowel (.ofSymbols ["a"]) ["a > â", "Vː > VV"] ·) ∧
      ∃ r : SoundRule, r.soundingPattern = "(V)\\1" ∧
        (read? .extended (r.substitute (.ofSymbols ["a"]) compiled.spelled).soundingPattern).isSome
          = true := by
  obtain ⟨compiled, hcompiled⟩ : ∃ compiled,
      compileSoundMap ["a > â", "Vː > VV"] (.ofSymbols ["a"]) = .ok compiled :=
    exists_eq_ok_of_isOk (by decide +kernel)
  have hlearnt : IsLearnt (.ofSymbols ["a"]) ["a > â", "Vː > VV"] ['â'] :=
    ⟨"a > â", List.mem_cons_self .., by decide, rfl, "a ".toList, " â".toList, [], rfl, rfl, ['a'],
      by decide, by decide +kernel⟩
  obtain ⟨hvowel, hconsonant, parts, hparts, -, hrules⟩ :=
    compileSoundMap_isClassOf hcompiled (.inr ⟨_, hlearnt, by decide⟩)
  have hpatterns : (SpellingLines.ofLines (.ofSymbols ["a"]) ["a > â", "Vː > VV"]).map
      (·.rules.map SoundRule.soundingPattern) = .ok ["â", "(V)\\1"] := by decide +kernel
  obtain ⟨_, hparts', hpatterns⟩ := map_eq_ok.1 hpatterns
  cases hparts.symm.trans hparts'
  obtain ⟨r, hr, hpattern⟩ : ∃ r ∈ parts.rules, r.soundingPattern = "(V)\\1" :=
    List.mem_map.1 (hpatterns ▸ by simp)
  refine ⟨compiled, hcompiled, hlearnt, hvowel, hconsonant, r, hpattern,
    hrules r (List.mem_append_right _ hr) ?_ ?_⟩
  · rw [hpattern]
    decide +kernel
  · rw [hpattern]
    decide +kernel

/-- If all that is learnt is that a vowel is not written, neither class is accepted. -/
theorem compileSoundMap_unwritten {compiled : CompiledSpelling}
    (h : compileSoundMap lines phonetic = .ok compiled)
    (hlearnt : ∃ roman, IsLearnt phonetic lines roman)
    (hempty : ∀ roman, IsLearnt phonetic lines roman → roman = []) (dialect : Dialect) :
    ofChars dialect compiled.spelled.vowel = none ∧
      ofChars dialect compiled.spelled.consonant = none := by
  rw [compileSoundMap_eq] at h
  obtain ⟨parts, hparts, rfl⟩ := map_eq_ok.1 h
  refine ofChars_spelling_eq_none (by_contra fun hne ↦ ?_) dialect
  obtain ⟨roman, hroman⟩ := hlearnt
  rcases (vowelChars_ofSpelled_ne_nil_iff hparts).1 hne with hnone | ⟨roman, hroman, hne⟩
  · exact hnone roman hroman
  · exact hne (hempty roman hroman)

/-- The rule `a >` teaches that a vowel is not written, and no other. -/
theorem not_forall_isClassOf :
    ¬∀ (phonetic : SoundClass) (lines : List String) (compiled : CompiledSpelling),
      compileSoundMap lines phonetic = .ok compiled →
        IsClassOf compiled.spelled.vowel (IsSpelledVowel phonetic lines) := by
  intro h
  have hvowel : (compileSoundMap ["a >"] (.ofSymbols ["a"])).map (·.spelled.vowel)
      = .ok ['[', ']'] := by decide +kernel
  obtain ⟨compiled, hcompiled, hvowel⟩ := map_eq_ok.1 hvowel
  obtain ⟨p, hp, -⟩ := h _ _ compiled hcompiled .extended
  have hnone : ofChars .extended ['[', ']'] = none := by decide +kernel
  rw [hvowel, hnone] at hp
  cases hp

/-- The digits of `k > \xCC` are taken for class letters, and what becomes of them is no
pattern. -/
theorem not_isSome_digits :
    (compileSoundMap ["k > \\xCC"] (.ofSymbols ["a"])).map
        (·.soundMap.map fun r ↦ (read? .extended r.soundingPattern).isSome)
      = .ok [true, true, false] ∧
    (SpellingLines.ofLines (.ofSymbols ["a"]) ["k > \\xCC"]).map
        (·.rules.map fun r ↦ (read? .extended r.soundingPattern).isSome) = .ok [true] := by
  constructor <;> decide +kernel

end Glossopoeia
