import Glossopoeia.Proofs.Affix.Notation
import Glossopoeia.Proofs.Declension.Corresponding
import Glossopoeia.Proofs.GrammarTable.CellLine

/-!
# Exchanging the branches of a condition

A condition on vowels can be put as one on consonants if its branches are exchanged.  This changes
no declined form (`GrammarTables.together_exchanged`):

* written out, the two rules are read as opposite conditions (`Orthography.compileCell_written`), so
  they agree on every form in which there is something;
* the line of a cell with the other rule in it is the line of a cell still
  (`ExchangesRule.corresponds`), so the grammars have corresponding slots;
* corresponding slots decline alike, since along every chain of them there is something in the form.
-/

set_option autoImplicit false

namespace Glossopoeia

open Outcome Text Phonology

/-! ## The rules -/

namespace Boundary

variable {boundary : Boundary} {a b : List Char}

/-- An affix that is `a` if the answer is yes and `b` if it is no, as it is written: a prefix if the
question is about the start of the word, a suffix if it is about the end. -/
def written (boundary : Boundary) (a b : List Char) : List Char :=
  "IF ".toList ++ boundary.mark ++ " THEN ".toList ++
    if boundary.isInitial then a ++ "- ELSE ".toList ++ b ++ "-".toList
    else "-".toList ++ a ++ " ELSE -".toList ++ b

/-- Which of the two it is. -/
def kind (boundary : Boundary) : AffixKind := if boundary.isInitial then .front else .back

theorem isInitial_opposite (boundary : Boundary) :
    boundary.opposite.isInitial = boundary.isInitial := by
  cases boundary <;> rfl

theorem kind_opposite (boundary : Boundary) : boundary.opposite.kind = boundary.kind := by
  rw [kind, isInitial_opposite, kind]

/-- Besides the stems there are capitals, hyphens, blanks and number signs in it. -/
theorem mem_written_iff {c : Char} (hc : c ∉ "IFTHENLS#VC- ".toList) :
    c ∈ boundary.written a b ↔ c ∈ a ∨ c ∈ b := by
  cases boundary <;> simp_all [written, isInitial, mark]

theorem isRuleText_written (ha : IsStem a) (hb : IsStem b)
    (hequals : '=' ∉ boundary.written a b) : IsRuleText (boundary.written a b) where
  ne_nil := List.cons_ne_nil _ _
  trimLeft_eq := trimLeft_cons (c := 'I') (by decide) _
  trimRight_eq := by
    rw [written]
    split
    · rw [← List.append_assoc]
      exact trimRight_append_of_trimRight_eq (by decide) (by decide) _
    · rw [← List.append_assoc]
      exact trimRight_append_of_trimRight_eq hb.ne_nil hb.solid.trimRight_eq _
  newline := by
    rw [mem_written_iff (by decide), not_or]
    exact ⟨fun hmem ↦ absurd (ha.solid _ hmem) (by decide),
      fun hmem ↦ absurd (hb.solid _ hmem) (by decide)⟩
  equals := hequals

end Boundary

theorem IsGap.space : IsGap [' '] := ⟨by decide, by decide⟩

theorem Orthography.compileCell_written (o : Orthography) (boundary : Boundary) {a b : List Char}
    (ha : IsStem a) (hb : IsStem b) :
    o.compileCell (boundary.written a b) = .ok (some boundary.kind,
      (o.ruleOf (.conditional boundary.kind boundary a b)).2) := by
  have hcondition : CellForm.IsCondition boundary
      ("IF ".toList ++ boundary.mark ++ " THEN ".toList) :=
    ⟨[], [' '], [' '], [' '], ⟨rfl, rfl, rfl, rfl⟩, by simp⟩
  have hmiddle : IsElse " ELSE ".toList := ⟨[' '], [' '], ⟨.space, .space⟩, rfl⟩
  have hread : CellForm.read? (boundary.written a b)
      = some (.conditional boundary.kind boundary a b) := by
    cases hinitial : boundary.isInitial with
    | true =>
      have htext : boundary.written a b = "IF ".toList ++ boundary.mark ++ " THEN ".toList ++
          (a ++ '-' :: (" ELSE ".toList ++ (b ++ ['-']))) := by
        simp [Boundary.written, hinitial]
      rw [htext, CellForm.read?_frontIf hcondition hinitial ha hmiddle hb rfl, Boundary.kind,
        hinitial]
      rfl
    | false =>
      have htext : boundary.written a b = "IF ".toList ++ boundary.mark ++ " THEN ".toList ++
          '-' :: (a ++ (" ELSE ".toList ++ '-' :: (b ++ []))) := by
        simp [Boundary.written, hinitial]
      rw [htext, CellForm.read?_backIf hcondition hinitial ha hmiddle hb rfl, Boundary.kind,
        hinitial]
      rfl
  exact compileCell_of_read? hread

/-! ## The lines -/

/-- The second line has the rule of the first one with the condition put the other way round, and
is otherwise the same. -/
inductive ExchangesRule : String → String → Prop
  /-- The lines of a cell whose rule is conditional. -/
  | intro {front before after path content a b : List Char} (boundary : Boundary) (ha : IsStem a)
      (hb : IsStem b) (hfront : '~' ∉ front) (haround : IsAroundRule before after)
      (hcell : GrammarLine.read
        (trim (front ++ '~' :: (before ++ boundary.written a b ++ after))) = .cell path content)
      (hrule : GrammarWalk.ruleText content = boundary.written a b) :
      ExchangesRule (String.ofList (front ++ '~' :: (before ++ boundary.written a b ++ after)))
        (String.ofList (front ++ '~' :: (before ++ boundary.opposite.written b a ++ after)))

theorem ExchangesRule.corresponds {o : Orthography} (hs : o.phonetic.vowelChars ≠ [])
    {line line' : String} (h : ExchangesRule line line') :
    GrammarLine.Corresponds o AffixRule.Agree (GrammarLine.read (trim line.toList))
      (GrammarLine.read (trim line'.toList)) := by
  obtain @⟨front, before, after, path, content, a, b, boundary, ha, hb, hfront, haround, hcell,
    hrule⟩ := h
  have hequals : '=' ∉ boundary.written a b := hrule ▸ GrammarWalk.notMem_ruleText content
  have hequals' : '=' ∉ boundary.opposite.written b a := by
    rwa [Boundary.mem_written_iff (by decide), or_comm, ← Boundary.mem_written_iff (by decide)]
  have htext := Boundary.isRuleText_written ha hb hequals
  have htext' := Boundary.isRuleText_written hb ha hequals'
  obtain ⟨rfl, hcell'⟩ := GrammarLine.read_trim_replaced htext htext' hfront hcell
  rw [String.toList_ofList, String.toList_ofList, hcell, hcell']
  refine .cell path ⟨?_, ?_⟩
  · rw [GrammarWalk.ruleText_append htext haround.trimRight,
      GrammarWalk.ruleText_append htext' haround.trimRight, o.compileCell_written _ ha hb,
      o.compileCell_written _ hb ha, boundary.kind_opposite]
    exact .ok ⟨rfl, Orthography.agree_opposite hs boundary.kind boundary.kind boundary a b⟩
  · simp only [List.mem_append, hequals, hequals']

/-! ## The grammars -/

namespace GrammarTables

variable {o : Orthography}

/-- **Exchanging the branches of conditions changes no declined form.**  The grammars agree line by
line, but for cells whose condition is put the other way round.  If one can be compiled so can the
other, and the affix maps decline every word that is more than a mark of primary stress alike. -/
theorem together_exchanged {lists : List String} (ho : o.phonetic = .ofSymbols lists)
    (partsOfSpeech : StringSet) {lines lines' : List String}
    (hlines : List.Forall₂ (fun line line' ↦ line = line' ∨ ExchangesRule line line')
      lines lines') :
    Together (fun tables tables' ↦ ∀ speller, ∃ d d',
        Decliner.ofAffixMap tables.affixMap speller = .ok d ∧
        Decliner.ofAffixMap tables'.affixMap speller = .ok d' ∧
        ∀ (word : WordInput) (derived : Bool) (root : RootWord),
          word.toRoot speller derived = .ok root →
          (∃ c ∈ root.phonetic.toList, c ≠ SoundRule.primaryStress) →
          d.decline word derived = d'.decline word derived)
      (compile o partsOfSpeech lines) (compile o partsOfSpeech lines') := by
  have hs : o.phonetic.vowelChars ≠ [] := ho ▸ SoundClass.vowelChars_ofSymbols_ne_nil _
  have hcells (content : List Char) :
      GrammarLine.CellsCorrespond o AffixRule.Agree content content :=
    ⟨.refl fun _ hcell ↦ ⟨rfl, Orthography.agree_self_of_compileCell hs hcell⟩, Iff.rfl⟩
  have hcompiled : o.HoldsOfCells fun _ rule ↦ ∃ t, Transform.ofRule rule.affix = .ok t := by
    intro declension content kind affix _ hcell _
    obtain ⟨t, -, ht, -⟩ := (Orthography.agree_self_of_compileCell hs hcell).compiled
    exact ⟨t, ht⟩
  have hcorrespond := together_compile partsOfSpeech hcells (hlines.imp fun line line' hline ↦ by
    rcases hline with rfl | hline
    · exact .same _
    · exact hline.corresponds hs)
  refine hcorrespond.imp_of_ok fun tables tables' htables htables' hmap speller ↦ ?_
  have hslots := holdsOfSlots_compile hcompiled htables
  have hslots' := holdsOfSlots_compile hcompiled htables'
  obtain ⟨d, hd⟩ := Decliner.exists_ofAffixMap_eq_ok hslots speller
  obtain ⟨d', hd'⟩ := Decliner.exists_ofAffixMap_eq_ok hslots' speller
  exact ⟨d, d', hd, hd', fun word derived root hroot hsounded ↦
    Decliner.decline_eq_of_corresponds hmap hd hd' hroot hsounded⟩

/-- A table with the one rule of a definite article. -/
def articleTable (rule : String) : List String :=
  ["TABLE TYPE = affix", "part-of-speech = n", "cols = Definite", "D ~ " ++ rule]

/-- The article is `l` before a vowel and `la` before a consonant, however that is put. -/
theorem decline_articleTable :
    Orthography.ofOneVowel.phonetic = .ofSymbols ["a"] ∧
      List.Forall₂ (fun line line' ↦ line = line' ∨ ExchangesRule line line')
        (articleTable "IF #V THEN l- ELSE la-") (articleTable "IF #C THEN la- ELSE l-") ∧
      ∃ tables tables' d d' forms,
        compile .ofOneVowel (.ofList ["n"]) (articleTable "IF #V THEN l- ELSE la-") = .ok tables ∧
        compile .ofOneVowel (.ofList ["n"]) (articleTable "IF #C THEN la- ELSE l-") = .ok tables' ∧
        Decliner.ofAffixMap tables.affixMap ⟨[]⟩ = .ok d ∧
        Decliner.ofAffixMap tables'.affixMap ⟨[]⟩ = .ok d' ∧
        d.decline (.fields "ata" "n" "house") false = .ok forms ∧
        d'.decline (.fields "ata" "n" "house") false = .ok forms ∧
        forms.map (·.phonetic) = ["lata"] := by
  have hl : IsStem ['l'] := ⟨by decide, by decide, by decide⟩
  have hla : IsStem ['l', 'a'] := ⟨by decide, by decide, by decide⟩
  have hexchange : ExchangesRule ("D ~ " ++ "IF #V THEN l- ELSE la-")
      ("D ~ " ++ "IF #C THEN la- ELSE l-") :=
    @ExchangesRule.intro "D ".toList " ".toList [] "D".toList " IF #V THEN l- ELSE la-".toList _ _
      .initialVowel hl hla (by decide) (.alone rfl rfl) (by decide) (by decide)
  have hlines : List.Forall₂ (fun line line' ↦ line = line' ∨ ExchangesRule line line')
      (articleTable "IF #V THEN l- ELSE la-") (articleTable "IF #C THEN la- ELSE l-") :=
    .cons (.inl rfl) (.cons (.inl rfl) (.cons (.inl rfl) (.cons (.inr hexchange) .nil)))
  have hforms : (do
      let tables ← compile .ofOneVowel (.ofList ["n"]) (articleTable "IF #V THEN l- ELSE la-")
      let d ← Decliner.ofAffixMap tables.affixMap ⟨[]⟩
      let forms ← d.decline (.fields "ata" "n" "house") false
      return forms.map LexiconEntry.phonetic) = .ok ["lata"] := by
    decide +kernel
  have hroot : ∃ root, (WordInput.fields "ata" "n" "house").toRoot ⟨[]⟩ false = .ok root ∧
      ∃ c ∈ root.phonetic.toList, c ≠ SoundRule.primaryStress :=
    ⟨_, rfl, 't', by decide, by decide⟩
  have htogether := @together_exchanged .ofOneVowel ["a"] rfl (.ofList ["n"]) _ _ hlines
  obtain ⟨root, hroot, hsounded⟩ := hroot
  obtain ⟨tables, htables, hforms⟩ := bind_eq_ok.1 hforms
  obtain ⟨d, hd, hforms⟩ := bind_eq_ok.1 hforms
  obtain ⟨forms, hdecline, hforms⟩ := bind_eq_ok.1 hforms
  rw [htables] at htogether
  generalize hother : compile .ofOneVowel (.ofList ["n"]) (articleTable "IF #C THEN la- ELSE l-")
    = other at htogether
  cases htogether with
  | @ok _ tables' h =>
    obtain ⟨d₁, d', hd₁, hd', hequal⟩ := h ⟨[]⟩
    rw [hd] at hd₁
    cases hd₁
    refine ⟨rfl, hlines, tables, tables', d, d', forms, htables, rfl, hd, hd', hdecline, ?_,
      pure_eq_ok.1 hforms⟩
    rw [← hequal _ _ root hroot hsounded, hdecline]

end GrammarTables

end Glossopoeia
