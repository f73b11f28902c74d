import Glossopoeia.SoundMap.Speller
import Glossopoeia.Proofs.Pattern.Rewriting
import Glossopoeia.Proofs.Phonology.SoundClass
import Glossopoeia.Proofs.SoundMap.Append
import Glossopoeia.Proofs.Text.Cuts

/-!
# Lines with a context

A line `P > R / M` says that `P` is spelled `R` where the marker `M` says (`IsContextLine`).  Unless
it is taken for the rule of a whole class, which needs the same class letter at the start of both
sides (`groupRule?_eq_none`), it contributes what the marker makes of each phoneme that the left
side stands for (`IsContextLine.compileLine_eq`), and so one rule if that is one phoneme
(`compileLine_of_isContextLine`).  Wherever the line stands in a list of lines, that rule stands
behind those of the lines before it and is compiled to the same step of the spelling (`SpelledBy`).
What the step does to a word is known as soon as the pieces of the rule's pattern and the hits that
they rewrite are (`exists_spelledBy_of_rewrites`).
-/

set_option autoImplicit false

namespace Glossopoeia

open Outcome Text Phonology

/-- Does the line read `phoneme > roman / marker`, with any blanks around the three? -/
def IsContextLine (line phoneme roman marker : List Char) : Prop :=
  ∃ left middle right, line = left ++ '>' :: (middle ++ '/' :: right) ∧
    ('>' ∉ left ∧ '>' ∉ middle ∧ '/' ∉ middle ∧ '>' ∉ right) ∧
    trim left = phoneme ∧ trim middle = roman ∧ trim right = marker

/-! ## The left side -/

namespace Phonemes

theorem bracedFrom_eq_none {cs : List Char} (h : '{' ∉ cs) (taken : List Char) :
    bracedFrom taken cs = none := by
  induction cs generalizing taken with
  | nil => rfl
  | cons c rest ih =>
    obtain ⟨hc, hrest⟩ := List.ne_and_not_mem_of_not_mem_cons h
    rw [bracedFrom, ih hrest]
    simp [Ne.symm hc]

theorem tailOf_eq_none {cs : List Char} (h : '(' ∉ cs) : tailOf cs = none := by
  rw [tailOf]
  split
  · next heq =>
    have hmem : '(' ∈ trimLeft cs := heq ▸ List.mem_cons_self ..
    exact absurd ((List.dropWhile_sublist _).subset hmem) h
  · rfl

theorem optionalFrom_eq_none {cs : List Char} (h : '(' ∉ cs) (taken : List Char) :
    optionalFrom taken cs = none := by
  induction cs generalizing taken with
  | nil =>
    rw [optionalFrom, tailOf_eq_none h]
    simp
  | cons c rest ih =>
    rw [optionalFrom, tailOf_eq_none h, ih (List.not_mem_of_not_mem_cons h)]
    simp

/-- A left side without braces and parentheses is one phoneme. -/
theorem expand_eq_singleton {left : List Char} (hbrace : '{' ∉ left) (hparen : '(' ∉ left) :
    expand left = [left] := by
  have hleading : leadingBraces left = none := by
    rw [leadingBraces.eq_def]
    split
    · exact absurd (List.mem_cons_self ..) hbrace
    · rfl
  rw [expand, bracedFrom_eq_none hbrace, hleading, optionalFrom_eq_none hparen]

end Phonemes

/-! ## Rules for a whole class -/

theorem of_afterArrow {cs right : List Char} (h : afterArrow cs = some right) :
    ∃ a b, cs = a ++ '>' :: b ∧ right = trimLeft b := by
  rw [afterArrow] at h
  split at h
  · next rest heq =>
    refine ⟨cs.takeWhile isBlank, rest, ?_, ?_⟩
    · rw [← heq, trimLeft, List.takeWhile_append_dropWhile]
    · dsimp only at h
      split at h
      · cases h
      · exact (Option.some.inj h).symm
  · cases h

/-- What follows an arrow follows a `>`. -/
theorem of_cutArrow {cs left right : List Char} (h : cutArrow cs = some (left, right)) :
    ∃ a b, cs = a ++ '>' :: b ∧ right = trimLeft b := by
  induction cs generalizing left with
  | nil => cases h
  | cons c rest ih =>
    rw [cutArrow] at h
    split at h
    · cases h
    · split at h
      · next harrow =>
        cases h
        obtain ⟨a, b, rfl, hb⟩ := of_afterArrow harrow
        exact ⟨c :: a, b, rfl, hb⟩
      · obtain ⟨⟨left', right'⟩, hcut, heq⟩ := Option.map_eq_some_iff.1 h
        cases heq
        obtain ⟨a, b, rfl, hb⟩ := ih hcut
        exact ⟨c :: a, b, rfl, hb⟩

/-- A line is no rule for a class unless both of its sides begin with the same class letter. -/
theorem groupRule?_eq_none {left right : List Char} (hleft : '>' ∉ left) (hright : '>' ∉ right)
    (hclass : left.head? = some 'V' ∨ left.head? = some 'C' → (trim right).head? ≠ left.head?) :
    groupRule? (left ++ '>' :: right) = none := by
  cases left with
  | nil => rfl
  | cons c rest =>
    rw [List.cons_append, groupRule?]
    split
    · next hc =>
      have hhead : (trim right).head? ≠ some c := hclass (by simpa using hc)
      cases hcut : cutArrow (rest ++ '>' :: right) with
      | none => rfl
      | some sides =>
        obtain ⟨a, b, heq, hb⟩ := of_cutArrow hcut
        obtain ⟨-, -, rfl⟩ :=
          (List.append_cons_inj_of_notMem (List.not_mem_of_not_mem_cons hleft) hright).1 heq
        -- What stands right of the arrow does not begin with the letter.
        have hstrip : stripStart [c] (trimRight sides.2) = none := by
          rw [hb, ← trim]
          cases htrim : trim right with
          | nil => rfl
          | cons d more =>
            rw [htrim] at hhead
            rw [stripStart, if_neg fun heq ↦ hhead (congrArg some heq.symm)]
        rw [Option.bind_eq_bind, Option.bind_some]
        dsimp only
        rw [hstrip]
        rfl
    · rfl

/-! ## The line -/

variable {line phoneme roman marker : List Char}

/-- What a phoneme contributes that is spelled `roman` where the marker says. -/
def compileInContext (phonetic : SoundClass) (line roman marker phoneme : List Char) :
    Except Error SpellingLines :=
  match SoundRule.inContext? phoneme roman marker with
  | some rule =>
    .ok ⟨[rule], if phonetic.contains (String.ofList phoneme) then [String.ofList roman] else []⟩
  | none => .error (.unmatchedContext (String.ofList marker) (String.ofList line))

theorem compilePhoneme_append_cons (phonetic : SoundClass) (line phoneme right : List Char)
    {middle : List Char} (hslash : '/' ∉ middle) :
    compilePhoneme phonetic line (middle ++ '/' :: right) phoneme
      = compileInContext phonetic line (trim middle) (trim right) phoneme := by
  rw [compilePhoneme, cut_append_cons hslash]
  rfl

/-- A line with a context as it is read: trimmed, with the three parts still where they were. -/
theorem IsContextLine.exists_trim_eq (h : IsContextLine line phoneme roman marker) :
    ∃ left middle right, trim line = left ++ '>' :: (middle ++ '/' :: right) ∧
      ('>' ∉ left ∧ '>' ∉ middle ++ '/' :: right ∧ '/' ∉ middle) ∧
      left.head? = phoneme.head? ∧ trim left = phoneme ∧ trim middle = roman ∧
      trim right = marker := by
  obtain ⟨left, middle, right, rfl, ⟨hleft, hmiddle, hslash, hright⟩, rfl, rfl, rfl⟩ := h
  have hleft' : '>' ∉ trimLeft left := fun h ↦ hleft ((List.dropWhile_sublist _).subset h)
  have hright' : '>' ∉ trimRight right :=
    fun h ↦ hright ((List.rdropWhile_prefix isBlank right).subset h)
  refine ⟨trimLeft left, middle, trimRight right, ?_, ⟨hleft', by simp [hmiddle, hright'], hslash⟩,
    (head?_trim left).symm, trim_trimLeft left, rfl, trim_trimRight right⟩
  rw [trim_append_cons _ _ (by decide), trimRight_append_cons _ _ (by decide)]

/-- **A line with a context contributes what its phonemes do there**, if it is no comment and no
rule for a class. -/
theorem IsContextLine.compileLine_eq (phonetic : SoundClass)
    (h : IsContextLine line phoneme roman marker) (hcomment : phoneme.head? ≠ some '/')
    (hclass : phoneme.head? = some 'V' ∨ phoneme.head? = some 'C' →
      roman.head? ≠ phoneme.head?) :
    compileLine phonetic line
      = concatM (compileInContext phonetic (trim line) roman marker) (Phonemes.expand phoneme) := by
  obtain ⟨left, middle, right, hline, ⟨hleft, hright, hslash⟩, hhead, rfl, rfl, rfl⟩ :=
    h.exists_trim_eq
  have htrim : trim (middle ++ '/' :: right) = trimLeft middle ++ '/' :: trimRight right :=
    trim_append_cons _ _ (by decide)
  have hgroup : groupRule? (trim line) = none := by
    rw [hline]
    refine groupRule?_eq_none hleft hright fun hletter ↦ ?_
    have hdiffer := hclass (hhead ▸ hletter)
    rw [head?_trim, ← hhead] at hdiffer
    rw [htrim, List.head?_append]
    cases hmiddle : trimLeft middle with
    | nil =>
      show some '/' ≠ left.head?
      rcases hletter with heq | heq <;> rw [heq] <;> decide
    | cons d more =>
      rw [hmiddle] at hdiffer
      exact hdiffer
  have hsplit : split '>' (trim line) = [left, middle ++ '/' :: right] := by
    rw [hline, split_append_cons hleft, split_of_notMem hright]
  have hmiddle : '/' ∉ trimLeft middle := fun h ↦ hslash ((List.dropWhile_sublist _).subset h)
  have hphoneme (p : List Char) : compilePhoneme phonetic (trim line)
        (trimLeft middle ++ '/' :: trimRight right) p
      = compileInContext phonetic (trim line) (trim middle) (trim right) p := by
    rw [compilePhoneme_append_cons _ _ _ _ hmiddle, trim_trimLeft, trim_trimRight]
  rw [compileLine]
  split
  · next hnil => simp [hnil] at hline
  · next hcons =>
    -- The line would have to begin with the slash of a comment.
    rw [hcons] at hline
    cases left with
    | nil => cases hline
    | cons c rest =>
      obtain ⟨rfl, -⟩ := List.cons.inj hline
      exact absurd hhead.symm hcomment
  · rw [hgroup, hsplit]
    dsimp only
    rw [htrim]
    exact congrArg (concatM · _) (funext hphoneme)

/-- A line with one phoneme contributes the rule of its context. -/
theorem compileLine_of_isContextLine (phonetic : SoundClass) {rule : SoundRule}
    (h : IsContextLine line phoneme roman marker) (hcomment : phoneme.head? ≠ some '/')
    (hclass : phoneme.head? = some 'V' ∨ phoneme.head? = some 'C' →
      roman.head? ≠ phoneme.head?)
    (hplain : '{' ∉ phoneme ∧ '(' ∉ phoneme)
    (hrule : SoundRule.inContext? phoneme roman marker = some rule) :
    ∃ learnt, compileLine phonetic line = .ok ⟨[rule], learnt⟩ := by
  rw [h.compileLine_eq phonetic hcomment hclass, Phonemes.expand_eq_singleton hplain.1 hplain.2,
    concatM, compileInContext, hrule]
  exact ⟨_, congrArg Except.ok (congr (congrArg SpellingLines.mk (List.append_nil _))
    (List.append_nil _))⟩

/-! ## The line among others -/

/-- The line is accepted and is spelled by `step`: wherever it stands in a list of lines that can be
compiled, its rule stands behind those of the lines before it, compiles to `step`, and so `step` is
taken when a word is spelled. -/
structure SpelledBy (phonetic : SoundClass) (line : String) (step : Substitution) : Prop where
  /-- The line can be compiled. -/
  accepted : ∃ alone, compileSoundMap [line] phonetic = .ok alone
  /-- Among other lines it gives the step. -/
  compiled : ∀ first second all, compileSoundMap (first ++ line :: second) phonetic = .ok all →
    ∃ before rule, compileSoundMap first phonetic = .ok before ∧
      all.soundMap[before.soundMap.length]? = some rule ∧
      compileSubstitution rule.spellingPattern rule.romanization = .ok step ∧
      ∀ speller, Speller.ofSoundMap all.soundMap = .ok speller → step ∈ speller.steps

theorem compileSubstitution_of_ofChars {source : String} {p : Pattern}
    (h : Pattern.ofChars .regular source.toList = some p) (replacement : String) :
    compileSubstitution source replacement
      = .ok ⟨p, .ofBraced (Template.braced replacement.toList)⟩ := by
  rw [compileSubstitution, compilePattern, Pattern.read?, h]
  rfl

/-- Every rule with a pattern for spelling has its step. -/
theorem Speller.mem_steps_of_ofSoundMap {soundMap : SoundMap} {speller : Speller}
    (h : Speller.ofSoundMap soundMap = .ok speller) {rule : SoundRule} (hrule : rule ∈ soundMap)
    (hne : rule.spellingPattern ≠ "") {step : Substitution}
    (hstep : compileSubstitution rule.spellingPattern rule.romanization = .ok step) :
    step ∈ speller.steps := by
  rw [ofSoundMap, bind_eq_ok] at h
  obtain ⟨steps, hsteps, h⟩ := h
  obtain rfl := pure_eq_ok.1 h
  have hkept : rule ∈ List.filter (fun r ↦ r.spellingPattern != "") soundMap :=
    List.mem_filter.2 ⟨hrule, bne_iff_ne.2 hne⟩
  obtain ⟨step', hmem, hstep'⟩ := exists_mem_of_mapM hsteps rule hkept
  rw [hstep] at hstep'
  cases hstep'
  exact hmem

/-- The rules of lines stand behind those of the lines before them. -/
theorem CompiledSpelling.soundMap_ofParts_append (phonetic : SoundClass)
    (earlier own later : SpellingLines) :
    (ofParts phonetic (earlier ++ own ++ later)).soundMap
      = (SoundMap.stressMarks ++ earlier.rules.map
            (.substitute phonetic (.ofSpelled (earlier ++ own ++ later).vowels)))
        ++ own.rules.map (.substitute phonetic (.ofSpelled (earlier ++ own ++ later).vowels))
        ++ later.rules.map
            (.substitute phonetic (.ofSpelled (earlier ++ own ++ later).vowels)) := by
  simp only [ofParts, SpellingLines.rules_append, List.map_append, List.append_assoc]

/-- A line with one rule is spelled by what the rule compiles to. -/
theorem spelledBy_of_compileLine {phonetic : SoundClass} {line : String} {rule : SoundRule}
    {learnt : List String} (hline : compileLine phonetic line.toList = .ok ⟨[rule], learnt⟩)
    {p : Pattern} (hne : phonetic.substitute rule.spellingPattern.toList ≠ [])
    (hread : Pattern.ofChars .regular (phonetic.substitute rule.spellingPattern.toList) = some p) :
    SpelledBy phonetic line ⟨p, .ofBraced (Template.braced rule.romanization.toList)⟩ := by
  have hlines : SpellingLines.ofLines phonetic [line] = .ok (⟨[rule], learnt⟩ ++ .none) := by
    rw [SpellingLines.ofLines, concatM, hline]
    rfl
  have hpattern (spelled : SoundClass) : (rule.substitute phonetic spelled).spellingPattern
      = String.ofList (phonetic.substitute rule.spellingPattern.toList) := rfl
  have hstep (spelled : SoundClass) :
      compileSubstitution (rule.substitute phonetic spelled).spellingPattern
          (rule.substitute phonetic spelled).romanization
        = .ok ⟨p, .ofBraced (Template.braced rule.romanization.toList)⟩ := by
    refine compileSubstitution_of_ofChars ?_ _
    rwa [hpattern, String.toList_ofList]
  have hpatternNe (spelled : SoundClass) :
      (rule.substitute phonetic spelled).spellingPattern ≠ "" := by
    rw [hpattern]
    exact fun heq ↦ hne (by simpa using congrArg String.toList heq)
  constructor
  · exact ⟨_, by rw [compileSoundMap_eq, hlines]; rfl⟩
  · intro first second all h
    rw [compileSoundMap_eq, List.append_cons, SpellingLines.ofLines_append,
      SpellingLines.ofLines_append, hlines] at h
    obtain ⟨parts, hparts, rfl⟩ := map_eq_ok.1 h
    obtain ⟨upTo, hupTo, hparts⟩ := bind_eq_ok.1 hparts
    obtain ⟨later, -, hparts⟩ := bind_eq_ok.1 hparts
    obtain ⟨earlier, hearlier, hupTo⟩ := bind_eq_ok.1 hupTo
    obtain ⟨own, hown, hupTo⟩ := bind_eq_ok.1 hupTo
    cases hown
    cases pure_eq_ok.1 hupTo
    cases pure_eq_ok.1 hparts
    rw [CompiledSpelling.soundMap_ofParts_append]
    generalize (earlier ++ (⟨[rule], learnt⟩ ++ .none) ++ later).vowels = vowels
    have hget (before after : SoundMap) (r : SoundRule) :
        (before ++ [r] ++ after)[before.length]? = some r := by simp
    have hlength : (SoundMap.stressMarks
          ++ earlier.rules.map (SoundRule.substitute phonetic (.ofSpelled vowels))).length
        = (CompiledSpelling.ofParts phonetic earlier).soundMap.length := by
      simp [CompiledSpelling.ofParts]
    refine ⟨_, rule.substitute phonetic (.ofSpelled vowels),
      by rw [compileSoundMap_eq, hearlier]; rfl, ?_, hstep _, fun speller hspeller ↦ ?_⟩
    · rw [← hlength]
      exact hget _ _ _
    · refine Speller.mem_steps_of_ofSoundMap hspeller (List.mem_append_left _ ?_)
        (hpatternNe (.ofSpelled vowels)) (hstep _)
      exact List.mem_append_right _ (List.mem_singleton_self _)

/-- **A line with one rule spells as its pattern and its template rewrite.** -/
theorem exists_spelledBy_of_rewrites {phonetic : SoundClass} {line : String} {rule : SoundRule}
    {learnt : List String} (hline : compileLine phonetic line.toList = .ok ⟨[rule], learnt⟩)
    (hne : rule.spellingPattern.toList ≠ []) {pieces : List Pattern} {opened : Nat}
    (hdenotes : Pattern.Denotes 0 (phonetic.substitute rule.spellingPattern.toList) pieces opened)
    {hit : Hit} (hrewrites : (Pattern.sequence pieces).Rewrites
      (.ofBraced (Template.braced rule.romanization.toList)) hit) :
    ∃ step, SpelledBy phonetic line step ∧ ∀ word, Rewritten hit [] word (step.apply word) :=
  ⟨_, spelledBy_of_compileLine hline (phonetic.substitute_ne_nil hne)
      (Pattern.ofChars_of_denotes hdenotes), fun word ↦ hrewrites.rewritten_replaceAll word⟩

end Glossopoeia
