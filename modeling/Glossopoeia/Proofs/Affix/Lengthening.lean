import Glossopoeia.Declension.Decliner
import Glossopoeia.Language.SaveFile
import Glossopoeia.Proofs.Affix.Solid
import Glossopoeia.Proofs.Pattern.Greedy
import Glossopoeia.Proofs.Phonology.SoundClass
import Glossopoeia.Proofs.Text.Words

/-!
# Lengthening a vowel

The cell `V(C)*# > __` is meant to double the last vowel of a form.  Its pattern looks for a vowel,
one consonant at least, a run without blanks, and blanks up to the end, and takes the first vowel
for which all that follows is of this kind.  All repetitions in it take what they can get
(`run_lastVowelPieces_eq_some`), so the match can be told from the form alone, and
`exists_lengthening` says for which forms the rule does what it is meant to do.

It does not for most of them.  A vowel at the end of the form has no consonant behind it and is
never doubled, and the run behind the consonants may contain vowels, so of several vowels with
consonants between them the first is doubled and not the last (`not_doubled_kata`).
-/

set_option autoImplicit false

namespace Glossopoeia

open Text Pattern Phonology

/-! ## The pattern -/

namespace Orthography

/-- A run without blanks, and blanks up to the end. -/
def lastRunPieces : List Pattern :=
  [.group 3 (repeated (one (.inverse .blank)) 0 none true), repeated (one .blank) 0 none true,
    place .textEnd]

/-- Consonants, one at least, and what may follow them. -/
def consonantPieces (s : SoundClass) : List Pattern :=
  .group 2 (repeated (one (s.letterSet 'C')) 1 none true) :: lastRunPieces

/-- The pieces of the pattern of the last vowel. -/
def lastVowelPieces (s : SoundClass) : List Pattern :=
  .group 1 (one (s.letterSet 'V')) :: consonantPieces s

theorem ofChars_lastVowelPattern {s : SoundClass} (hs : s.vowelChars ≠ []) :
    ofChars .regular (lastVowelPattern s).toList = some (sequence (lastVowelPieces s)) := by
  have hvowel {rest : List Char} {list : List Token} (h : Lexed rest list) :
      Lexed (s.vowel ++ rest) (.set (s.letterSet 'V') :: list) := by
    rw [s.vowel_eq, List.cons_append, List.append_assoc]
    exact h.set (readClass_escaped hs rest).1
  have hconsonant {rest : List Char} {list : List Token} (h : Lexed rest list) :
      Lexed (s.consonant ++ rest) (.set (s.letterSet 'C') :: list) := by
    have hread : readClass .regular ('^' :: SoundClass.escaped s.excludedChars ++ ']' :: rest)
        = some (.inverse (.ofChars s.excludedChars), rest) :=
      (readClass_escaped (s.vowelChars_ne_nil_iff.1 hs) rest).2
    rw [s.consonant_eq, List.cons_append, List.cons_append, List.append_assoc]
    exact h.set hread
  have htail : Lexed "+)(\\S*)\\s*$".toList
      [.count ⟨1, none, false, false⟩, .closing, .opening (.capture none),
        .set (.inverse .blank), .count ⟨0, none, false, false⟩, .closing, .set .blank,
        .count ⟨0, none, false, false⟩, .dollar] := by
    repeat' first
      | exact .nil
      | refine .cons (fun _ ↦ rfl) (by decide) ?_
  obtain ⟨list, hlexed, hlist⟩ : ∃ list, Lexed (lastVowelPattern s).toList list ∧
      ofTokens .regular list = some (sequence (lastVowelPieces s)) := by
    have hgroups : Lexed (s.vowel ++ ')' :: '(' :: (s.consonant ++ "+)(\\S*)\\s*$".toList)) _ :=
      hvowel (.cons (fun _ ↦ rfl) (Nat.lt_succ_self _) ((hconsonant htail).opening (by
        rw [s.consonant_eq]
        exact nofun)))
    rw [lastVowelPattern, String.toList_ofList]
    exact ⟨_, hgroups.opening (by rw [s.vowel_eq]; exact nofun), rfl⟩
  rw [ofChars, hlexed.tokens_eq, Option.bind_some, hlist]

/-! ## Matches -/

/-- Is a vowel before this text found?  A consonant follows it, and behind the consonants stands one
run without blanks at most, and perhaps blanks. -/
def IsReached (s : SoundClass) (rest : List Char) : Prop :=
  rest.takeWhile s.isConsonant ≠ [] ∧
    allBlank ((rest.dropWhile s.isConsonant).dropWhile isSolid) = true

/-- A vowel that is found is written twice; blanks at the end are left out. -/
def lengtheningHit (s : SoundClass) : Hit := fun _ matched after new ↦
  after = [] ∧ ∃ v rest, matched = v :: rest ∧ s.isVowel v = true ∧ IsReached s rest ∧
    new = v :: v :: (rest.takeWhile s.isConsonant ++
      (rest.dropWhile s.isConsonant).takeWhile isSolid)

theorem looksFor_end : Rest.LooksFor (fun t ↦ (sequence [place .textEnd]).run t some) (· = []) :=
  ⟨fun t ↦ by simp [Pattern.sequence, run, Cursor.isAt], fun _ _ h ↦ (List.append_eq_nil_iff.1 h).2⟩

/-- Blanks up to the end. -/
theorem run_blanks (t : Cursor) :
    (sequence [repeated (one .blank) 0 none true, place .textEnd]).run t some
      = if allBlank t.after then some ⟨t.after.reverse ++ t.before, [], t.groups⟩ else none := by
  have hall : (t.skipWhile isBlank).after = [] ↔ allBlank t.after = true := by
    rw [Cursor.skipWhile, List.dropWhile_eq_nil_iff, allBlank, List.all_eq_true]
  have hrun : (sequence [repeated (one .blank) 0 none true, place .textEnd]).run t some
      = if (t.skipWhile isBlank).after = [] then some (t.skipWhile isBlank) else none := by
    refine ((looksFor_end.exhausts _).run_any_eq t).trans ?_
    simp only [Pattern.sequence, run, Cursor.isAt, List.isEmpty_iff]
    rfl
  simp only [hrun, hall]
  split
  · next hblank => rw [Cursor.skipWhile_eq_end (hall.2 hblank)]
  · rfl

/-- A run without blanks, which is remembered, and blanks up to the end. -/
theorem run_lastRunPieces (t : Cursor) :
    (sequence lastRunPieces).run t some
      = if allBlank (t.after.dropWhile isSolid) then
          some ⟨t.after.reverse ++ t.before, [], (3, t.after.takeWhile isSolid) :: t.groups⟩
        else none := by
  refine (((looksFor_end.any .blank).exhausts _).run_group_any_eq 3 t).trans
    ((run_blanks _).trans ?_)
  rw [← t.reverse_append_skipWhile isSolid]
  rfl

/-- Behind a vowel that is reached, the pieces match all that follows. -/
theorem run_consonantPieces_eq_some {s : SoundClass} {t stop : Cursor} :
    (sequence (consonantPieces s)).run t some = some stop ↔
      IsReached s t.after ∧
        (⟨t.after.reverse ++ t.before, [],
          (3, (t.after.dropWhile s.isConsonant).takeWhile isSolid) ::
            (2, t.after.takeWhile s.isConsonant) :: t.groups⟩ : Cursor) = stop := by
  have hconsonants : (s.letterSet 'C').contains = s.isConsonant :=
    funext (s.contains_letterSet 'C')
  have hrun : (sequence (consonantPieces s)).run t some
      = if t.after.takeWhile s.isConsonant = [] then none
        else (sequence lastRunPieces).run
          { t.skipWhile s.isConsonant with
            groups := (2, t.after.takeWhile s.isConsonant) :: t.groups } some := by
    rw [consonantPieces, run_sequence_cons, ← hconsonants]
    have hrest := (looksFor_end.any .blank).group_any 3 (.inverse .blank)
    exact (hrest.exhausts _).run_group_many_eq 2 t
  rw [hrun, run_lastRunPieces, ← t.reverse_append_skipWhile s.isConsonant, IsReached]
  simp only [Option.ite_none_left_eq_some, Option.ite_none_right_eq_some, Option.some.injEq,
    and_assoc]
  rfl

/-- The pieces match a vowel that is reached, with all that follows. -/
theorem run_lastVowelPieces_eq_some {s : SoundClass} {before after : List Char} {stop : Cursor} :
    (sequence (lastVowelPieces s)).run ⟨before, after, []⟩ some = some stop ↔
      ∃ v rest, after = v :: rest ∧ s.isVowel v = true ∧ IsReached s rest ∧
        (⟨rest.reverse ++ v :: before, [],
          [(3, (rest.dropWhile s.isConsonant).takeWhile isSolid),
            (2, rest.takeWhile s.isConsonant), (1, [v])]⟩ : Cursor) = stop := by
  rw [lastVowelPieces, run_group_eq_some]
  simp only [s.contains_letterSet, run_consonantPieces_eq_some]
  rfl

theorem rewrites_lastVowelPieces (s : SoundClass) :
    (sequence (lastVowelPieces s)).Rewrites (.ofBraced (Template.braced "$1$1$2$3".toList))
      (lengtheningHit s) where
  of_run h := by
    obtain ⟨v, rest, rfl, hv, hreached, rfl⟩ := run_lastVowelPieces_eq_some.1 h
    refine ⟨v :: rest, [], (List.append_nil _).symm, List.cons_ne_nil _ _, by simp, rfl, rfl, v,
      rest, rfl, hv, hreached, ?_⟩
    rw [ofBraced_lengthening]
    exact congrArg (fun last ↦ v :: v :: (rest.takeWhile s.isConsonant ++ last))
      (List.append_nil _)
  run_ne_none := by
    rintro before _ _ _ ⟨rfl, v, rest, rfl, hv, hreached, -⟩ hnone
    rw [List.append_nil, run_lastVowelPieces_eq_some.2 ⟨v, rest, rfl, hv, hreached, rfl⟩] at hnone
    cases hnone

/-! ## The last vowel -/

variable {s : SoundClass} {a b before result : List Char} {v : Char}

theorem isConsonant_eq_false (hv : s.isVowel v = true) : s.isConsonant v = false := by
  rw [SoundClass.isConsonant, hv]
  rfl

/-- In a text without vowels nothing is doubled. -/
theorem eq_of_rewritten (hb : ∀ c ∈ b, s.isConsonant c = true)
    (h : Rewritten (lengtheningHit s) before b result) : result = b := by
  refine h.eq_of_forall_not ?_
  rintro gap _ _ _ rfl ⟨-, u, rest, rfl, hu, -⟩
  have hconsonant := hb u (by simp)
  rw [isConsonant_eq_false hu] at hconsonant
  cases hconsonant

theorem takeWhile_isConsonant (hb : ∀ c ∈ b, s.isConsonant c = true) :
    b.takeWhile s.isConsonant = b ∧ b.dropWhile s.isConsonant = [] :=
  ⟨List.takeWhile_eq_self_iff.2 hb, List.dropWhile_eq_nil_iff.2 hb⟩

/-- A last vowel is reached if it is not the last character. -/
theorem isReached_iff_ne_nil (hb : ∀ c ∈ b, s.isConsonant c = true) : IsReached s b ↔ b ≠ [] := by
  rw [IsReached, (takeWhile_isConsonant hb).1, (takeWhile_isConsonant hb).2]
  exact and_iff_left rfl

/-- What follows a vowel that is reached does not begin with a vowel. -/
theorem IsReached.head?_isVowel {rest : List Char} (h : IsReached s rest) :
    ∀ c ∈ rest.head?, s.isVowel c = false := by
  intro c hc
  by_contra hvowel
  have hconsonant : s.isConsonant c = false := isConsonant_eq_false (by simpa using hvowel)
  obtain rfl | ⟨rest, rfl⟩ : rest = [] ∨ ∃ more, rest = c :: more := by
    cases rest with
    | nil => exact .inl rfl
    | cons d more =>
      obtain rfl : d = c := by simpa using hc
      exact .inr ⟨more, rfl⟩
  · cases hc
  · exact h.1 (List.takeWhile_cons_of_neg (by simp [hconsonant]))

/-- **The last vowel is doubled if something follows it and no other vowel is reached.** -/
theorem eq_doubled_iff (hv : s.isVowel v = true) (hb : ∀ c ∈ b, s.isConsonant c = true)
    (h : Rewritten (lengtheningHit s) before (a ++ v :: b) result) :
    result = a ++ v :: v :: b ↔ b ≠ [] ∧
      ∀ a₁ u a₂, a = a₁ ++ u :: a₂ → s.isVowel u = true → ¬IsReached s (a₂ ++ v :: b) := by
  induction a generalizing before result with
  | nil =>
    have hnil : ∀ (a₁ : List Char) (u : Char) (a₂ : List Char), [] ≠ a₁ ++ u :: a₂ := by simp
    rcases h.of_cons with ⟨rest, rfl, hrest, hmiss⟩ | ⟨_, _, _, rest, hword, hhit, rfl, hrest⟩
    · obtain rfl := eq_of_rewritten hb hrest
      have hend : rest = [] := by
        by_contra hne
        exact hmiss (v :: rest) [] _ (List.append_nil _).symm
          ⟨rfl, v, rest, rfl, hv, (isReached_iff_ne_nil hb).2 hne, rfl⟩
      simp [hend]
    · obtain ⟨rfl, u, b', rfl, -, hreached, rfl⟩ := hhit
      obtain ⟨rfl, rfl⟩ : v = u ∧ b = b' := by simpa using hword
      obtain rfl := eq_of_rewritten (fun c hc ↦ absurd hc List.not_mem_nil) hrest
      refine iff_of_true ?_ ⟨(isReached_iff_ne_nil hb).1 hreached,
        fun a₁ u a₂ heq ↦ absurd heq (hnil a₁ u a₂)⟩
      simp [takeWhile_isConsonant hb]
  | cons x a ih =>
    rcases h.of_cons with ⟨rest, rfl, hrest, hmiss⟩ | ⟨_, _, _, rest, hword, hhit, rfl, hrest⟩
    · simp only [List.cons_append, List.cons.injEq, true_and, ih hrest]
      refine and_congr_right fun _ ↦ ⟨fun hall a₁ u a₂ heq hu hreached ↦ ?_,
        fun hall a₁ u a₂ heq ↦ hall (x :: a₁) u a₂ (congrArg _ heq)⟩
      cases a₁ with
      | nil =>
        obtain ⟨rfl, rfl⟩ := List.cons.inj heq
        exact hmiss (x :: (a ++ v :: b)) [] _ (List.append_nil _).symm
          ⟨rfl, x, _, rfl, hu, hreached, rfl⟩
      | cons y a₁ => exact hall a₁ u a₂ (List.cons.inj heq).2 hu hreached
    · -- The character behind a vowel that is doubled would have to be this vowel.
      obtain ⟨rfl, u, b', rfl, hu, hreached, rfl⟩ := hhit
      obtain ⟨rfl, rfl⟩ : x = u ∧ a ++ v :: b = b' := by simpa using hword
      refine iff_of_false (fun heq ↦ ?_) fun hall ↦ hall.2 [] x a rfl hu hreached
      have hnext := hreached.head?_isVowel
      cases a with
      | nil => exact Bool.false_ne_true ((hnext v rfl).symm.trans hv)
      | cons c a =>
        obtain rfl : x = c := by simpa using (List.cons.inj (List.cons.inj heq).2).1
        exact Bool.false_ne_true ((hnext x rfl).symm.trans hu)

/-! ## Vowels that are reached -/

/-- Behind a solid character stands one run at most if the text before it is solid too. -/
theorem allBlank_dropWhile_append (hv : isSolid v = true) :
    allBlank ((a ++ v :: b).dropWhile isSolid) = true ↔
      (∀ c ∈ a, isSolid c = true) ∧ allBlank (b.dropWhile isSolid) = true := by
  simp only [List.dropWhile_append, List.isEmpty_iff, List.dropWhile_eq_nil_iff,
    List.dropWhile_cons_of_pos hv]
  split
  · next hall => exact (and_iff_right hall).symm
  · next hall =>
    refine iff_of_false (fun hblank ↦ ?_) fun h ↦ hall h.1
    have hvblank : isBlank v = true := List.all_eq_true.1 hblank v (by simp)
    simp [isSolid, hvblank] at hv

theorem isReached_append_iff (hv : s.isVowel v = true) (hsolid : isSolid v = true) :
    IsReached s (a ++ v :: b) ↔ a.takeWhile s.isConsonant ≠ [] ∧
      (∀ c ∈ a.dropWhile s.isConsonant, isSolid c = true) ∧
        allBlank (b.dropWhile isSolid) = true := by
  have hconsonant := isConsonant_eq_false hv
  rw [IsReached, takeWhile_append_cons hconsonant, dropWhile_append_cons hconsonant,
    allBlank_dropWhile_append hsolid]

/-- A vowel before the last one is reached if the last one does not belong to the first vowels of
the text, and no blank stands before the text's end behind it. -/
theorem exists_isReached_iff (hsolid : ∀ c, s.isVowel c = true → isSolid c = true)
    (hv : s.isVowel v = true) :
    (∃ a₁ u a₂, a = a₁ ++ u :: a₂ ∧ s.isVowel u = true ∧ IsReached s (a₂ ++ v :: b)) ↔
      allBlank (b.dropWhile isSolid) = true ∧
        ∃ c ∈ a.dropWhile s.isConsonant, s.isConsonant c = true := by
  simp only [isReached_append_iff hv (hsolid v hv)]
  constructor
  · rintro ⟨a₁, u, a₂, rfl, hu, hne, -, hblank⟩
    refine ⟨hblank, ?_⟩
    rw [dropWhile_append_cons (isConsonant_eq_false hu)]
    obtain ⟨c, hc⟩ := List.exists_mem_of_ne_nil _ hne
    exact ⟨c, List.mem_append_right _ (List.mem_cons_of_mem _
      ((List.takeWhile_sublist _).subset hc)), List.mem_takeWhile_imp hc⟩
  · rintro ⟨hblank, hlater⟩
    induction a with
    | nil => simp at hlater
    | cons x a ih =>
      by_cases hrest : ∃ c ∈ a.dropWhile s.isConsonant, s.isConsonant c = true
      · obtain ⟨a₁, u, a₂, rfl, hreached⟩ := ih hrest
        exact ⟨x :: a₁, u, a₂, rfl, hreached⟩
      · -- Behind the first vowel there are consonants, and then vowels only.
        have hvowels : ∀ c ∈ a.dropWhile s.isConsonant, s.isConsonant c = false := by
          simpa using hrest
        have hx : s.isConsonant x = false := by
          by_contra hx
          rw [List.dropWhile_cons_of_pos (by simpa using hx)] at hlater
          exact hrest hlater
        rw [List.dropWhile_cons_of_neg (by simp [hx])] at hlater
        obtain ⟨c, hc, hconsonant⟩ := hlater
        refine ⟨[], x, a, rfl, by simpa [SoundClass.isConsonant] using hx, fun hnone ↦ ?_,
          fun d hd ↦ hsolid d (by simpa [SoundClass.isConsonant] using hvowels d hd), hblank⟩
        have hall : a.dropWhile s.isConsonant = a := by
          have := List.takeWhile_append_dropWhile (p := s.isConsonant) (l := a)
          rwa [hnone] at this
        rcases List.mem_cons.1 hc with rfl | hmem
        · exact Bool.false_ne_true (hx.symm.trans hconsonant)
        · exact Bool.false_ne_true ((hvowels c (hall.symm ▸ hmem)).symm.trans hconsonant)

/-! ## The rule -/

/-- Is the vowel between `a` and `b`, behind which no other follows, the one that is doubled?
Something has to follow it, and either it is one of the first vowels of the form, or a blank follows
it that is not at the end. -/
def DoublesLast (s : SoundClass) (a b : List Char) : Prop :=
  b ≠ [] ∧ ((∀ c ∈ a.dropWhile s.isConsonant, s.isVowel c = true) ∨
    allBlank (b.dropWhile isSolid) = false)

theorem doublesLast_iff (hsolid : ∀ c, s.isVowel c = true → isSolid c = true)
    (hv : s.isVowel v = true) (hb : ∀ c ∈ b, s.isConsonant c = true)
    (h : Rewritten (lengtheningHit s) [] (a ++ v :: b) result) :
    result = a ++ v :: v :: b ↔ DoublesLast s a b := by
  have hreached := (exists_isReached_iff (a := a) (b := b) hsolid hv).not
  rw [eq_doubled_iff hv hb h, DoublesLast]
  refine and_congr_right fun _ ↦ Iff.trans ?_ (hreached.trans ?_)
  · simp only [not_exists, not_and]
  · rw [not_and_or, or_comm, Bool.not_eq_true]
    simp [SoundClass.isConsonant]

theorem compileCell_lengthening (o : Orthography) :
    o.compileCell "V(C)*# > __".toList = .ok (some .replacement, o.lengthening) := rfl

/-- What the rule replaces, and by what. -/
def doubling (s : SoundClass) : Substitution :=
  ⟨sequence (lastVowelPieces s), .ofBraced (Template.braced "$1$1$2$3".toList)⟩

theorem ofRule_lengthening {o : Orthography} (hs : o.phonetic.vowelChars ≠ []) :
    Transform.ofRule o.lengthening = .ok (.replace (doubling o.phonetic)) := by
  rw [lengthening, Transform.ofRule, compileSubstitution, compilePattern, Pattern.read?,
    ofChars_lastVowelPattern hs]
  rfl

theorem ofSlot_lengthening {o : Orthography} (hs : o.phonetic.vowelChars ≠ []) (label : String) :
    CompiledSlot.ofSlot ⟨.replacement, [⟨label, o.lengthening⟩]⟩
      = .ok ⟨.replacement, [⟨label, .replace (doubling o.phonetic)⟩]⟩ := by
  have husable : List.filter (CompiledSlot.isUsable .replacement) [⟨label, o.lengthening⟩]
      = [⟨label, o.lengthening⟩] := rfl
  rw [CompiledSlot.ofSlot, husable, List.mapM_cons, List.mapM_nil, ofRule_lengthening hs]
  rfl

/-- No blank is a vowel of a save file. -/
theorem isSolid_of_isVowel (save : SaveFile) (c : Char) (h : save.soundClass.isVowel c = true) :
    isSolid c = true := by
  have hlists : ∀ list ∈ wordsOf save.vowels ++ wordsOf save.basicVowels, Solid list.toList := by
    rintro list hlist
    rcases List.mem_append.1 hlist with h | h <;> exact solid_of_mem_wordsOf h
  have hblank := SoundClass.solid_vowelChars hlists c (List.contains_iff_mem.1 h)
  rw [isSolid, hblank]
  rfl

/-- **The lengthening of a vowel can be compiled, makes one form of each form, and doubles the last
vowel of just the forms in which it is reached and no other is.** -/
theorem exists_lengthening (save : SaveFile) (o : Orthography) (ho : o.phonetic = save.soundClass)
    (label : String) :
    ∃ rule slot, o.compileCell "V(C)*# > __".toList = .ok (some .replacement, rule) ∧
      CompiledSlot.ofSlot ⟨.replacement, [⟨label, rule⟩]⟩ = .ok slot ∧
      ∀ (partOfSpeech : String) (form : List Char) (labels : List String),
        ∃ result, Variant.expand partOfSpeech [slot] form labels
            = [⟨result, labels ++ [label], partOfSpeech⟩] ∧
          ∀ a v b, Variant.unstressed form = a ++ v :: b → o.phonetic.isVowel v = true →
            (∀ c ∈ b, o.phonetic.isConsonant c = true) →
            (result = a ++ v :: v :: b ↔ DoublesLast o.phonetic a b) := by
  have hs : o.phonetic.vowelChars ≠ [] := ho ▸ SoundClass.vowelChars_ofSymbols_ne_nil _
  have hsolid : ∀ c, o.phonetic.isVowel c = true → isSolid c = true :=
    ho ▸ isSolid_of_isVowel save
  refine ⟨_, _, o.compileCell_lengthening, ofSlot_lengthening hs label,
    fun partOfSpeech form labels ↦
      ⟨(doubling o.phonetic).apply (Variant.unstressed form), rfl, fun a v b hform hv hb ↦ ?_⟩⟩
  rw [hform]
  exact doublesLast_iff hsolid hv hb ((rewrites_lastVowelPieces _).rewritten_replaceAll _)

/-- A save file with two vowels. -/
def twoVowels : SaveFile := { SaveFile.blank with vowels := "a e" }

/-- Words are told by these vowels and spelled as they sound. -/
def ofTwoVowels : Orthography := ⟨twoVowels.soundClass, .ofSpelled [], ⟨[]⟩⟩

/-- The second of the two vowels of `keam` is doubled. -/
theorem exists_lengthening_keam :
    ofTwoVowels.phonetic = twoVowels.soundClass ∧
      Variant.unstressed "ˈkeam".toList = "ke".toList ++ 'a' :: "m".toList ∧
      ofTwoVowels.phonetic.isVowel 'a' = true ∧
      (∀ c ∈ "m".toList, ofTwoVowels.phonetic.isConsonant c = true) ∧
      ∃ rule slot, ofTwoVowels.compileCell "V(C)*# > __".toList = .ok (some .replacement, rule) ∧
        CompiledSlot.ofSlot ⟨.replacement, [⟨"Long", rule⟩]⟩ = .ok slot ∧
        Variant.expand "n" [slot] "ˈkeam".toList [] = [⟨"keaam".toList, ["Long"], "n"⟩] := by
  have hform : Variant.unstressed "ˈkeam".toList = "ke".toList ++ 'a' :: "m".toList := by decide
  have hvowel : ofTwoVowels.phonetic.isVowel 'a' = true := by decide +kernel
  have hrest : ∀ c ∈ "m".toList, ofTwoVowels.phonetic.isConsonant c = true :=
    List.forall_mem_singleton.2 (by decide +kernel)
  have hdoubles : DoublesLast ofTwoVowels.phonetic "ke".toList "m".toList := by
    have hdrop : "ke".toList.dropWhile ofTwoVowels.phonetic.isConsonant = ['e'] := by
      decide +kernel
    refine ⟨by decide, .inl ?_⟩
    rw [hdrop]
    exact List.forall_mem_singleton.2 (by decide +kernel)
  obtain ⟨rule, slot, hcell, hslot, hforms⟩ := exists_lengthening twoVowels ofTwoVowels rfl "Long"
  obtain ⟨result, hexpand, hresult⟩ := hforms "n" "ˈkeam".toList []
  rw [(hresult _ _ _ hform hvowel hrest).2 hdoubles] at hexpand
  exact ⟨rfl, hform, hvowel, hrest, rule, slot, hcell, hslot, hexpand⟩

/-- If the last vowel ends the form it is not reached, and the first of the two is doubled: `kata`
becomes `kaata`. -/
theorem not_doubled_kata :
    ∃ rule slot, ofTwoVowels.compileCell "V(C)*# > __".toList = .ok (some .replacement, rule) ∧
      CompiledSlot.ofSlot ⟨.replacement, [⟨"Long", rule⟩]⟩ = .ok slot ∧
      Variant.expand "n" [slot] "kata".toList [] = [⟨"kaata".toList, ["Long"], "n"⟩] ∧
      "kaata".toList ≠ "kat".toList ++ 'a' :: 'a' :: [] :=
  ⟨_, _, compileCell_lengthening _,
    ofSlot_lengthening (SoundClass.vowelChars_ofSymbols_ne_nil _) "Long", by decide +kernel,
    by decide⟩

end Orthography

end Glossopoeia
