import Mathlib.Data.List.Forall2
import Glossopoeia.Lexicon.WordList
import Glossopoeia.Proofs.Pattern.Rewriting
import Glossopoeia.Proofs.Text.Cuts

/-!
# Notes of two words

A note in parentheses that is two words with a comma between them, a pair, is written with a
semicolon, and so is every pair of a text, from left to right (`WordList.rewritten_protectCommas`).
No other note is: not if there are more commas in it, nor if there is more than a word on a side of
its comma, or a hyphen or word joiner in one (`WordList.note?_eq_some_iff`).

Each note is written by itself.  No pair runs on behind its parenthesis, so none that begins in one
text ends in another that does not begin like the end of a pair (`WordList.protectCommas_append`);
and a note that is closed ends there whatever follows (`WordList.protectCommas_note`).
-/

set_option autoImplicit false

namespace Glossopoeia.WordList

open Text

/-! ## Pairs -/

/-- Is the text a word, perhaps between blanks? -/
def isSpacedWord (text : List Char) : Bool := !(trim text).isEmpty && (trim text).all isWordChar

/-- Is the note two words with a comma between them? -/
def isPair (note : List Char) : Bool :=
  match split ',' note with
  | [first, second] => isSpacedWord first && isSpacedWord second
  | _ => false

section

variable {text first second note cs rest more : List Char} {c : Char}

theorem isBlank_eq_false_of_isWordChar (h : isWordChar c = true) : isBlank c = false := by
  have hnone : ∀ n ∈ List.range' 9 5 ++ [0x20, 0x85, 0xA0, 0x1680] ++ List.range' 0x2000 11 ++
      [0x2028, 0x2029, 0x202F, 0x205F, 0x3000], CodeRange.mem wordCharRanges n = false := by
    decide +kernel
  by_contra hblank
  rw [Bool.not_eq_false] at hblank
  rw [isWordChar, hnone] at h
  · cases h
  · simp only [isBlank, Bool.or_eq_true, Bool.and_eq_true, decide_eq_true_eq, beq_iff_eq] at hblank
    simp only [List.mem_append, List.mem_range'_1, List.mem_cons, List.not_mem_nil, or_false]
    omega

theorem isSpacedWord_iff : isSpacedWord text = true ↔
    ∃ gap word gap', (allBlank gap ∧ allBlank gap') ∧
      (word ≠ [] ∧ ∀ c ∈ word, isWordChar c = true) ∧ text = gap ++ word ++ gap' := by
  rw [isSpacedWord, Bool.and_eq_true, List.all_eq_true]
  constructor
  · rintro ⟨hne, hword⟩
    obtain ⟨gap, gap', hgap, hgap', htext⟩ := exists_append_trim_append text
    exact ⟨gap, trim text, gap', ⟨hgap, hgap'⟩, ⟨by simpa using hne, hword⟩, htext⟩
  · rintro ⟨gap, word, gap', ⟨hgap, hgap'⟩, ⟨hne, hword⟩, rfl⟩
    have hsolid : Solid word := fun c hc ↦ isBlank_eq_false_of_isWordChar (hword c hc)
    rw [trim_append_append hgap hgap' hsolid.trim_eq]
    exact ⟨by simpa using hne, hword⟩

theorem of_mem_of_isSpacedWord (h : isSpacedWord text = true) (hc : c ∈ text) :
    isBlank c = true ∨ isWordChar c = true := by
  obtain ⟨gap, word, gap', ⟨hgap, hgap'⟩, ⟨-, hword⟩, rfl⟩ := isSpacedWord_iff.1 h
  rcases List.mem_append.1 hc with hc | hc
  · rcases List.mem_append.1 hc with hc | hc
    · exact .inl (allBlank_iff.1 hgap c hc)
    · exact .inr (hword c hc)
  · exact .inl (allBlank_iff.1 hgap' c hc)

theorem comma_notMem_of_isSpacedWord (h : isSpacedWord text = true) : ',' ∉ text := fun hmem ↦ by
  rcases of_mem_of_isSpacedWord h hmem with h | h
  · exact absurd h (by decide)
  · exact absurd h (by decide)

theorem isPair_iff : isPair note = true ↔ ∃ first second, isSpacedWord first = true ∧
    isSpacedWord second = true ∧ note = first ++ ',' :: second := by
  constructor
  · intro h
    have hjoin : [','].intercalate (split ',' note) = note := List.intercalate_splitOn ','
    rw [isPair] at h
    split at h
    · next first second hsplit =>
      rw [Bool.and_eq_true] at h
      rw [hsplit] at hjoin
      exact ⟨first, second, h.1, h.2, by simpa using hjoin.symm⟩
    · cases h
  · rintro ⟨first, second, hfirst, hsecond, rfl⟩
    rw [isPair, split_append_cons (comma_notMem_of_isSpacedWord hfirst),
      split_of_notMem (comma_notMem_of_isSpacedWord hsecond)]
    simp [hfirst, hsecond]

/-! ## Notes at the start of a text -/

theorem spacedWord_append_cons (h : isSpacedWord text = true) (hblank : isBlank c = false)
    (hword : isWordChar c = false) (rest : List Char) :
    spacedWord (text ++ c :: rest) = some (text, c :: rest) := by
  obtain ⟨gap, word, gap', ⟨hgap, hgap'⟩, ⟨hne, hchars⟩, rfl⟩ := isSpacedWord_iff.1 h
  obtain ⟨d, word, rfl⟩ := List.exists_cons_of_ne_nil hne
  have hd := isBlank_eq_false_of_isWordChar (hchars d (List.mem_cons_self ..))
  have hend : ∀ d ∈ (gap' ++ c :: rest).head?, isWordChar d = false := by
    cases gap' with
    | nil => exact fun _ hd ↦ Option.mem_some.1 hd ▸ hword
    | cons b gap' =>
      have hb := allBlank_iff.1 hgap' b (List.mem_cons_self ..)
      refine fun _ hd ↦ Option.mem_some.1 hd ▸ Bool.eq_false_iff.2 fun hchar ↦ ?_
      rw [isBlank_eq_false_of_isWordChar hchar] at hb
      cases hb
  obtain ⟨htake, hdrop⟩ :=
    takeWhile_dropWhile_append_cons (allBlank_iff.1 hgap) hd (word ++ (gap' ++ c :: rest))
  obtain ⟨htake', hdrop'⟩ := takeWhile_dropWhile_append hchars hend
  obtain ⟨htake'', hdrop''⟩ := takeWhile_dropWhile_append_cons (allBlank_iff.1 hgap') hblank rest
  have hassoc : gap ++ d :: word ++ gap' ++ c :: rest
      = gap ++ d :: (word ++ (gap' ++ c :: rest)) := by simp
  simp only [spacedWord, drop_length_takeWhile]
  rw [hassoc, htake, hdrop, ← List.cons_append, htake', hdrop', htake'', hdrop'']
  rfl

theorem of_spacedWord (h : spacedWord cs = some (text, rest)) :
    isSpacedWord text = true ∧ cs = text ++ rest := by
  simp only [spacedWord, drop_length_takeWhile, Option.ite_none_left_eq_some] at h
  obtain ⟨hne, heq⟩ := h
  cases heq
  refine ⟨isSpacedWord_iff.2 ⟨_, _, _, ⟨allBlank_iff.2 fun _ ↦ List.mem_takeWhile_imp,
    allBlank_iff.2 fun _ ↦ List.mem_takeWhile_imp⟩, ⟨by simpa using hne,
    fun _ ↦ List.mem_takeWhile_imp⟩, rfl⟩, ?_⟩
  simp [List.takeWhile_append_dropWhile]

/-- **The notes that are found** are the pairs. -/
theorem note?_eq_some_iff : note? cs = some (first, second, rest) ↔
    isSpacedWord first = true ∧ isSpacedWord second = true ∧
      cs = first ++ ',' :: (second ++ ')' :: rest) := by
  constructor
  · intro h
    obtain ⟨⟨first', more⟩, hfirst, hnext⟩ := Option.bind_eq_some_iff.1 h
    obtain ⟨hword, rfl⟩ := of_spacedWord hfirst
    dsimp only at hnext
    split at hnext
    · obtain ⟨⟨second', more⟩, hsecond, hlast⟩ := Option.bind_eq_some_iff.1 hnext
      obtain ⟨hword', rfl⟩ := of_spacedWord hsecond
      dsimp only at hlast
      split at hlast
      · cases hlast
        exact ⟨hword, hword', rfl⟩
      · cases hlast
    · cases hnext
  · rintro ⟨hfirst, hsecond, rfl⟩
    rw [note?, spacedWord_append_cons hfirst (by decide) (by decide)]
    have hnext := spacedWord_append_cons hsecond (c := ')') (by decide) (by decide) rest
    exact congrArg (Option.bind · _) hnext

end

/-! ## The notes of a text -/

/-- A note that is a pair is written with a semicolon. -/
def NoteHit : Hit := fun _ matched _ new ↦ ∃ first second, isSpacedWord first = true ∧
  isSpacedWord second = true ∧ matched = '(' :: (first ++ ',' :: (second ++ [')'])) ∧
  new = '(' :: (first ++ ';' :: (second ++ [')']))

section

variable {before cs rest result : List Char} {c : Char}

/-- May `c` stand in a pair? -/
def isPairChar (c : Char) : Bool := isBlank c || isWordChar c || c == ','

/-- Can the text be the end of a pair and its parenthesis, and what follows? -/
def closesPair (cs : List Char) : Bool := (cs.dropWhile isPairChar).head? == some ')'

theorem isPairChar_of_mem {first second : List Char} (hfirst : isSpacedWord first = true)
    (hsecond : isSpacedWord second = true) (hc : c ∈ first ++ ',' :: second) :
    isPairChar c = true := by
  have hword {text : List Char} (htext : isSpacedWord text = true) (hc : c ∈ text) :
      isPairChar c = true := by
    rcases of_mem_of_isSpacedWord htext hc with h | h <;> simp [isPairChar, h]
  rcases List.mem_append.1 hc with hc | hc
  · exact hword hfirst hc
  · rcases List.mem_cons.1 hc with rfl | hc
    · rfl
    · exact hword hsecond hc

theorem NoteHit.append_eq {matched rest new : List Char} (h : NoteHit before matched rest new) :
    ∃ first second, note? ((matched ++ rest).tail) = some (first, second, rest) ∧
      matched = '(' :: (first ++ ',' :: (second ++ [')'])) ∧
      new = '(' :: (first ++ ';' :: (second ++ [')'])) := by
  obtain ⟨first, second, hfirst, hsecond, rfl, rfl⟩ := h
  exact ⟨first, second, note?_eq_some_iff.2 ⟨hfirst, hsecond, by simp⟩, rfl, rfl⟩

/-- A pair at the start of a text is written otherwise. -/
theorem rewritten_pair {first second : List Char} (hfirst : isSpacedWord first = true)
    (hsecond : isSpacedWord second = true) (h : ∀ before, Rewritten NoteHit before rest result)
    (before : List Char) :
    Rewritten NoteHit before ('(' :: (first ++ ',' :: second ++ ')' :: rest))
      ('(' :: (first ++ ';' :: second ++ ')' :: result)) := by
  have hhit : NoteHit before ('(' :: (first ++ ',' :: (second ++ [')']))) rest
      ('(' :: (first ++ ';' :: (second ++ [')']))) := ⟨first, second, hfirst, hsecond, rfl, rfl⟩
  simpa using Rewritten.found hhit (h _)

theorem rewritten_protectFrom {fuel : Nat} (before : List Char) (hfuel : cs.length ≤ fuel) :
    Rewritten NoteHit before cs (protectFrom fuel cs) := by
  induction fuel generalizing cs before with
  | zero =>
    rw [List.length_eq_zero_iff.1 (Nat.le_zero.1 hfuel)]
    exact .done
  | succ fuel ih =>
    cases cs with
    | nil => exact .done
    | cons c rest =>
      have hrest : rest.length ≤ fuel := Nat.le_of_succ_le_succ hfuel
      rw [protectFrom]
      split
      · next first second more hnote =>
        obtain ⟨rfl, hnote⟩ := Option.ite_none_right_eq_some.1 hnote
        obtain ⟨hfirst, hsecond, rfl⟩ := note?_eq_some_iff.1 hnote
        have hmore : more.length ≤ fuel := by
          simp only [List.length_append, List.length_cons] at hrest
          omega
        simpa using rewritten_pair hfirst hsecond (fun before ↦ ih before hmore) before
      · next hnone =>
        refine .kept (fun matched after new heq hhit ↦ ?_) (ih _ hrest)
        obtain ⟨first, second, hnote, rfl, -⟩ := hhit.append_eq
        obtain ⟨rfl, -⟩ := List.cons.inj heq
        rw [← heq, List.tail_cons] at hnote
        rw [if_pos rfl, hnote] at hnone
        cases hnone

/-- **Notes are written otherwise from left to right.** -/
theorem rewritten_protectCommas (before cs : List Char) :
    Rewritten NoteHit before cs (protectCommas cs) := rewritten_protectFrom before le_rfl

theorem protectCommas_eq (h : Rewritten NoteHit before cs result) : protectCommas cs = result := by
  refine (rewritten_protectCommas before cs).unique ?_ ?_ h
  · rintro _ _ _ _ ⟨_, _, -, -, rfl, -⟩
    exact List.cons_ne_nil _ _
  · intro _ _ _ _ _ _ _ hhit hhit' heq
    obtain ⟨first, second, hnote, rfl, rfl⟩ := hhit.append_eq
    obtain ⟨first', second', hnote', rfl, rfl⟩ := hhit'.append_eq
    rw [heq, hnote'] at hnote
    cases hnote
    exact ⟨rfl, rfl⟩

/-- **No note runs on** into a text in which none goes on and ends. -/
theorem protectCommas_append (cs : List Char) (h : closesPair rest = false) :
    protectCommas (cs ++ rest) = protectCommas cs ++ protectCommas rest := by
  have happend {before cs result : List Char} (hcs : Rewritten NoteHit before cs result) :
      Rewritten NoteHit before (cs ++ rest) (result ++ protectCommas rest) := by
    induction hcs with
    | done => exact rewritten_protectCommas _ rest
    | @kept before cs result c hmiss _ ih =>
      refine .kept (fun matched after new heq hhit ↦ ?_) ih
      have hsplit : c :: cs ++ rest = matched ++ after := heq
      rcases List.append_eq_append_iff.1 hsplit with ⟨part, hmatched, hrest⟩ | ⟨more, hcs, -⟩
      · obtain ⟨first, second, hfirst, hsecond, hpair, -⟩ := id hhit
        have hsuffix : part <:+ first ++ ',' :: second ++ [')'] := by
          refine ⟨cs, ?_⟩
          simpa using (List.cons.inj (hmatched.symm.trans hpair)).2
        rcases List.suffix_concat_iff.1 hsuffix with rfl | ⟨front, rfl, hfront⟩
        · exact hmiss matched [] new (by simpa using hmatched.symm) hhit
        · -- The note has its end in the second text.
          have hclose : isPairChar ')' = false := by decide
          have hdrop := (takeWhile_dropWhile_append_cons (fun c hc ↦
            isPairChar_of_mem hfirst hsecond (hfront.subset hc)) hclose after).2
          rw [hrest, closesPair, List.append_assoc, List.singleton_append, hdrop] at h
          cases h
      · exact hmiss matched more new hcs hhit
    | found hhit _ ih =>
      rw [List.append_assoc, List.append_assoc]
      exact .found hhit ih
  exact protectCommas_eq (happend (rewritten_protectCommas [] cs))

/-- The texts differ in commas at most, which are semicolons in the second one. -/
def Softens (text written : List Char) : Prop :=
  List.Forall₂ (fun c d ↦ d = c ∨ c = ',' ∧ d = ';') text written

theorem Softens.refl (text : List Char) : Softens text text :=
  List.forall₂_same.2 fun _ _ ↦ .inl rfl

theorem Softens.mem_iff {text written : List Char} (h : Softens text written) {c : Char}
    (hcomma : c ≠ ',') (hsemicolon : c ≠ ';') : c ∈ text ↔ c ∈ written := by
  induction h with
  | nil => exact Iff.rfl
  | cons hcd _ ih =>
    rw [List.mem_cons, List.mem_cons, ih]
    rcases hcd with rfl | ⟨rfl, rfl⟩
    · exact Iff.rfl
    · simp [hcomma, hsemicolon]

theorem Softens.take {text more written : List Char} (h : Softens (text ++ more) written) :
    Softens text (written.take text.length) := by
  have htake := List.forall₂_take text.length h
  rwa [List.take_left] at htake

theorem Softens.drop {text more written : List Char} (h : Softens (text ++ more) written) :
    Softens more (written.drop text.length) := by
  have hdrop := List.forall₂_drop text.length h
  rwa [List.drop_left] at hdrop

theorem softens_protectCommas (cs : List Char) : Softens cs (protectCommas cs) := by
  have h := rewritten_protectCommas [] cs
  generalize ([] : List Char) = before, protectCommas cs = result at h ⊢
  induction h with
  | done => exact .nil
  | kept _ _ ih => exact .cons (.inl rfl) ih
  | found hhit _ ih =>
    obtain ⟨first, second, -, -, rfl, rfl⟩ := hhit
    have hpair : Softens (first ++ ',' :: (second ++ [')'])) (first ++ ';' :: (second ++ [')'])) :=
      List.rel_append (Softens.refl first) (.cons (.inr ⟨rfl, rfl⟩) (Softens.refl _))
    exact List.rel_append (.cons (.inl rfl) hpair) ih

theorem length_protectCommas (cs : List Char) : (protectCommas cs).length = cs.length :=
  (softens_protectCommas cs).length_eq.symm

/-- Where no parenthesis opens nothing is written otherwise. -/
theorem protectCommas_append_of_notMem (h : '(' ∉ cs) (rest : List Char) :
    protectCommas (cs ++ rest) = cs ++ protectCommas rest := by
  have hkept : Rewritten NoteHit [] (cs ++ rest) (cs ++ protectCommas rest) := by
    refine .append cs (rewritten_protectCommas _ rest) ?_
    rintro a c b rfl matched after new heq ⟨first, second, -, -, rfl, -⟩
    obtain ⟨rfl, -⟩ := List.cons.inj heq
    simp at h
  exact protectCommas_eq hkept

/-- How a note is written: with semicolons if it is a pair. -/
def protectNote (note : List Char) : List Char :=
  if isPair note then note.map fun c ↦ if c = ',' then ';' else c else note

theorem map_of_isSpacedWord {text : List Char} (h : isSpacedWord text = true) :
    text.map (fun c ↦ if c = ',' then ';' else c) = text :=
  (List.map_congr_left fun _ hc ↦ if_neg <| ne_of_mem_of_not_mem hc <|
    comma_notMem_of_isSpacedWord h).trans (List.map_id' _)

/-- A note that is closed and no pair is not found. -/
theorem not_noteHit {note matched after new : List Char} (hclose : ')' ∉ note)
    (hpair : ¬isPair note = true) (heq : '(' :: (note ++ ')' :: rest) = matched ++ after) :
    ¬NoteHit before matched after new := by
  rintro ⟨first, second, hfirst, hsecond, rfl, -⟩
  have hclose' : ')' ∉ first ++ ',' :: second := fun hmem ↦
    absurd (isPairChar_of_mem hfirst hsecond hmem) (by decide)
  have htext : note ++ ')' :: rest = first ++ ',' :: second ++ ')' :: after := by simpa using heq
  have hcut := congrArg (cut ')') htext
  rw [cut_append_cons hclose, cut_append_cons hclose'] at hcut
  obtain ⟨rfl, -⟩ := Prod.mk.inj (Option.some.inj hcut)
  exact hpair (isPair_iff.2 ⟨first, second, hfirst, hsecond, rfl⟩)

/-- A note that is closed is written otherwise if it is a pair. -/
theorem protectCommas_note {note : List Char} (hopen : '(' ∉ note) (hclose : ')' ∉ note)
    (rest : List Char) : protectCommas ('(' :: (note ++ ')' :: rest))
      = '(' :: (protectNote note ++ ')' :: protectCommas rest) := by
  rw [protectNote]
  split
  · next hpair =>
    obtain ⟨first, second, hfirst, hsecond, rfl⟩ := isPair_iff.1 hpair
    rw [List.map_append, List.map_cons, map_of_isSpacedWord hfirst, map_of_isSpacedWord hsecond,
      if_pos rfl]
    exact protectCommas_eq
      (rewritten_pair hfirst hsecond (fun before ↦ rewritten_protectCommas before rest) [])
  · next hpair =>
    have hkept : protectCommas (note ++ ')' :: rest) = note ++ ')' :: protectCommas rest := by
      have hnotMem : '(' ∉ note ++ [')'] := by simp [hopen]
      simpa using protectCommas_append_of_notMem hnotMem rest
    rw [← hkept]
    have hrewritten : Rewritten NoteHit [] ('(' :: (note ++ ')' :: rest))
        ('(' :: protectCommas (note ++ ')' :: rest)) :=
      .kept (fun _ _ _ ↦ not_noteHit hclose hpair) (rewritten_protectCommas _ _)
    exact protectCommas_eq hrewritten

end

end Glossopoeia.WordList
