import Glossopoeia.Phonology.SoundClass
import Glossopoeia.Proofs.Dictionary
import Glossopoeia.Proofs.Pattern.Rewriting
import Glossopoeia.Proofs.Pattern.Written
import Glossopoeia.Proofs.Text.Blank

/-!
# What the class letters stand for

The classes of a language are put into patterns as text.  The text of a class lists the characters
of the vowels, those with a meaning of their own behind a backslash, and is read back as the set of
just these characters (`readClass_escaped`).  So in a compiled pattern a `V` takes one character
that occurs in a vowel, a `C` one that occurs in none, and any other letter itself
(`denotes_substitute`).

A class without characters would not be a pattern.  There is none among those that a language can
have: a symbol has a character, and a language without symbols has the default vowels
(`vowelChars_ofSymbols_ne_nil`).
-/

set_option autoImplicit false

namespace Glossopoeia

/-! ## Classes of listed characters -/

/-- The set that a class is read as if it lists these characters. -/
def CharSet.ofChars (cs : List Char) : CharSet := cs.foldl (fun s c ↦ .union s (.single c)) .empty

theorem CharSet.contains_foldl_union (cs : List Char) (s : CharSet) (d : Char) :
    (cs.foldl (fun s c ↦ .union s (.single c)) s).contains d = (s.contains d || cs.contains d) := by
  induction cs generalizing s with
  | nil => simp
  | cons c rest ih => rw [List.foldl_cons, ih, contains, contains_single, List.contains_cons,
      Bool.or_assoc]

@[simp] theorem CharSet.contains_ofChars (cs : List Char) (d : Char) :
    (ofChars cs).contains d = cs.contains d := by
  rw [ofChars, contains_foldl_union, contains, Bool.false_or]

namespace Pattern

open Phonology Phonology.SoundClass

variable {dialect : Dialect}

/-- A special character can be escaped. -/
theorem readEscape_special {c : Char} (h : isSpecial c = true) (rest : List Char) :
    readEscape dialect true (c :: rest) = some (.char c, rest) := by
  have hmem : c ∈ ['\\', ']', '[', '^', '-', '&', '~'] := List.elem_iff.1 h
  simp only [List.mem_cons, List.not_mem_nil, or_false] at hmem
  rcases hmem with rfl | rfl | rfl | rfl | rfl | rfl | rfl <;> cases dialect <;> rfl

theorem escaped_cons (c : Char) (cs : List Char) :
    escaped (c :: cs) = (if isSpecial c then ['\\', c] else [c]) ++ escaped cs := rfl

theorem escaped_append (cs more : List Char) : escaped (cs ++ more) = escaped cs ++ escaped more :=
  List.flatMap_append

theorem escaped_eq_self {cs : List Char} (h : ∀ c ∈ cs, isSpecial c = false) : escaped cs = cs := by
  induction cs with
  | nil => rfl
  | cons c rest ih =>
    obtain ⟨hc, hrest⟩ := List.forall_mem_cons.1 h
    rw [escaped_cons, ih hrest, hc]
    rfl

/-- A list does not begin with a special character other than a backslash. -/
theorem head?_escaped {cs : List Char} {d : Char} (hd : isSpecial d = true)
    (hbackslash : d ≠ '\\') : (escaped cs).head? ≠ some d := by
  cases cs with
  | nil => exact nofun
  | cons c cs =>
    rw [escaped_cons]
    by_cases hc : isSpecial c = true
    · rw [if_pos hc]
      simpa using hbackslash.symm
    · rw [if_neg hc]
      rintro ⟨⟩
      exact hc hd

theorem head?_escaped_append {cs : List Char} (rest : List Char) {d : Char}
    (hd : isSpecial d = true) (hbackslash : d ≠ '\\') (hclosing : d ≠ ']' ∨ cs ≠ []) :
    (escaped cs ++ ']' :: rest).head? ≠ some d := by
  rw [List.head?_append]
  cases hhead : (escaped cs).head? with
  | some c => exact fun heq ↦ head?_escaped hd hbackslash (hhead.trans heq)
  | none =>
    have hnil : cs = [] := by
      cases cs with
      | nil => rfl
      | cons c cs =>
        rw [escaped_cons] at hhead
        split at hhead <;> cases hhead
    simpa using (hclosing.resolve_right (not_not_intro hnil)).symm

/-- Any character but a backslash is an item of its own. -/
theorem readClassItem_cons {c : Char} (h : c ≠ '\\') (rest : List Char) :
    readClassItem dialect (c :: rest) = some (.inl c, rest) := by
  rw [readClassItem.eq_def]
  split <;> simp_all

/-- A listed character is read as itself, unless a hyphen follows. -/
theorem readClassRange_escaped (c : Char) {more : List Char} (hmore : more.head? ≠ some '-') :
    readClassRange dialect (escaped [c] ++ more) = some (.single c, more) := by
  have hitem : readClassItem dialect (escaped [c] ++ more) = some (.inl c, more) := by
    by_cases hc : isSpecial c = true
    · simp only [escaped_cons, if_pos hc, List.cons_append, readClassItem,
        readEscape_special hc]
      rfl
    · have hbackslash : c ≠ '\\' := fun heq ↦ hc (heq ▸ rfl)
      simp only [escaped_cons, if_neg hc, List.cons_append]
      exact readClassItem_cons hbackslash more
  rw [readClassRange, hitem, Option.bind_eq_bind, Option.bind_some]
  dsimp only
  split
  · exact absurd rfl hmore
  · rfl

/-- One more listed character. -/
theorem readClassBody_escaped_cons (fuel : Nat) (so : ClassSoFar) (c : Char) {more : List Char}
    (hmore : more.head? ≠ some '-') :
    readClassBody dialect (fuel + 1) so (escaped [c] ++ more)
      = readClassBody dialect fuel (so.add (.single c)) more := by
  have hrange : readClassRange dialect (escaped [c] ++ more) = some (.single c, more) :=
    readClassRange_escaped c hmore
  by_cases hc : isSpecial c = true
  · simp only [escaped_cons, if_pos hc, List.cons_append] at hrange ⊢
    rw [readClassBody.eq_def]
    simp only [hrange]
    rfl
  · simp only [escaped_cons, if_neg hc] at hrange ⊢
    rw [readClassBody.eq_def]
    dsimp only
    -- All branches but the last are those of a special character.
    split
    case h_7 => rw [hrange]
    all_goals
      rename_i heq
      cases heq
    all_goals exact absurd rfl hc

/-- A list of characters is read up to the closing bracket. -/
theorem readClassBody_escaped {cs : List Char} {fuel : Nat} (hfuel : cs.length < fuel)
    (items : CharSet) (rest : List Char) :
    readClassBody dialect fuel ⟨items, none⟩ (escaped cs ++ ']' :: rest)
      = some (cs.foldl (fun s c ↦ .union s (.single c)) items, rest) := by
  induction cs generalizing fuel items with
  | nil =>
    obtain ⟨fuel, rfl⟩ : ∃ n, fuel = n + 1 := ⟨fuel - 1, by omega⟩
    rfl
  | cons c cs ih =>
    obtain ⟨fuel, rfl⟩ : ∃ n, fuel = n + 1 := ⟨fuel - 1, by omega⟩
    have hhyphen : (escaped cs ++ ']' :: rest).head? ≠ some '-' :=
      head?_escaped_append rest rfl (by decide) (.inl (by decide))
    have hcons : escaped (c :: cs) ++ ']' :: rest = escaped [c] ++ (escaped cs ++ ']' :: rest) := by
      rw [← List.append_assoc, ← escaped_append]
      rfl
    rw [hcons, readClassBody_escaped_cons fuel _ c hhyphen]
    exact ih (by simpa using hfuel) _

theorem length_le_length_escaped (cs : List Char) : cs.length ≤ (escaped cs).length := by
  induction cs with
  | nil => exact Nat.le_refl _
  | cons c rest ih =>
    rw [escaped_cons, List.length_append, List.length_cons]
    split <;> simp <;> omega

/-- No first character of a list has a meaning of its own. -/
theorem openClass_of_head? {body : List Char} (hclosing : body.head? ≠ some ']')
    (hhyphen : body.head? ≠ some '-') :
    openClass ('^' :: body) = (true, ClassSoFar.start, body) ∧
      (body.head? ≠ some '^' → openClass body = (false, ClassSoFar.start, body)) := by
  cases body with
  | nil => exact ⟨rfl, fun _ ↦ rfl⟩
  | cons c rest =>
    simp only [List.head?_cons, ne_eq, Option.some.injEq] at hclosing hhyphen ⊢
    constructor
    · rw [openClass.eq_def]
      dsimp only
      split <;> simp_all
    · intro hcaret
      rw [openClass.eq_def]
      dsimp only
      split <;> split <;> simp_all

/-- **A class of listed characters is read as the set of just these characters**, or, behind a
caret, as the set of the others. -/
theorem readClass_escaped {cs : List Char} (hne : cs ≠ []) (rest : List Char) :
    readClass dialect (escaped cs ++ ']' :: rest) = some (.ofChars cs, rest) ∧
      readClass dialect ('^' :: (escaped cs ++ ']' :: rest))
        = some (.inverse (.ofChars cs), rest) := by
  have hbody : readClassBody dialect ((escaped cs ++ ']' :: rest).length + 1) ClassSoFar.start
      (escaped cs ++ ']' :: rest) = some (.ofChars cs, rest) := by
    refine readClassBody_escaped ?_ .empty rest
    have := length_le_length_escaped cs
    simp only [List.length_append, List.length_cons]
    omega
  obtain ⟨hnegated, hopen⟩ := openClass_of_head?
    (head?_escaped_append rest rfl (by decide) (.inr hne))
    (head?_escaped_append rest rfl (by decide) (.inl (by decide)))
  have hopen := hopen (head?_escaped_append rest rfl (by decide) (.inl (by decide)))
  rw [readClass, readClass, hopen, hnegated]
  dsimp only
  rw [hbody]
  exact ⟨rfl, rfl⟩

end Pattern

/-! ## Class letters -/

namespace Phonology.SoundClass

open Text Pattern

variable (s : SoundClass)

/-- What the class of the vowels lists. -/
def vowelChars : List Char :=
  if s.members.entries.isEmpty then s.script.defaultBodies.1.toList
  else s.members.toList.flatMap String.toList

/-- What the class of the consonants rules out. -/
def excludedChars : List Char :=
  if s.members.entries.isEmpty then s.script.defaultBodies.2.toList
  else s.members.toList.flatMap String.toList

/-- Does a character occur in a vowel? -/
def isVowel (c : Char) : Bool := s.vowelChars.contains c

/-- Does it occur in none? -/
def isConsonant (c : Char) : Bool := !s.isVowel c

theorem contains_excludedChars (c : Char) : s.excludedChars.contains c = s.isVowel c := by
  rw [isVowel, excludedChars, vowelChars]
  split
  · -- The two default classes list the same characters in another order.
    cases s.script <;> simp [Script.defaultBodies, Bool.or_comm, Bool.or_left_comm]
  · rfl

theorem body_eq : s.body = escaped (s.members.toList.flatMap String.toList) := by
  rw [body, escaped, List.flatMap_assoc]
  rfl

theorem vowel_eq : s.vowel = '[' :: (escaped s.vowelChars ++ [']']) := by
  rw [vowel, vowelChars]
  split
  · cases s.script <;> rfl
  · rw [body_eq]

theorem consonant_eq : s.consonant = '[' :: '^' :: (escaped s.excludedChars ++ [']']) := by
  rw [consonant, excludedChars]
  split
  · cases s.script <;> rfl
  · rw [body_eq]

theorem vowelChars_ne_nil_iff : s.vowelChars ≠ [] ↔ s.excludedChars ≠ [] := by
  rw [vowelChars, excludedChars]
  split
  · cases s.script <;> decide
  · rfl

theorem ne_nil_of_mem_symbols (cs : List Char) : ∀ symbol ∈ symbols cs, symbol ≠ [] := by
  induction cs using symbols.induct with
  | case1 =>
    rw [symbols]
    exact fun _ h ↦ absurd h List.not_mem_nil
  | case2 c rest ih =>
    rw [symbols]
    exact List.forall_mem_cons.2 ⟨List.cons_ne_nil _ _, ih⟩

/-- A text is what its symbols are made of. -/
theorem flatten_symbols (cs : List Char) : (symbols cs).flatten = cs := by
  induction cs using symbols.induct with
  | case1 =>
    rw [symbols]
    rfl
  | case2 c rest ih =>
    rw [symbols, List.flatten_cons, ih, List.cons_append, List.takeWhile_append_dropWhile]

/-- The members of a class are the symbols of the lists it was made of. -/
theorem mem_members_ofSymbols {lists : List String} {member : String} :
    member ∈ (ofSymbols lists).members.toList ↔
      ∃ symbol ∈ symbols (lists.flatMap String.toList), String.ofList symbol = member :=
  StringSet.mem_toList_ofList.trans List.mem_map

/-- The characters of the members are those of the lists. -/
theorem mem_flatMap_members {lists : List String} {c : Char} :
    c ∈ (ofSymbols lists).members.toList.flatMap String.toList ↔
      ∃ list ∈ lists, c ∈ list.toList := by
  rw [← List.mem_flatMap, ← flatten_symbols (lists.flatMap String.toList), List.mem_flatten,
    List.mem_flatMap]
  constructor
  · rintro ⟨member, hmember, hc⟩
    obtain ⟨symbol, hsymbol, rfl⟩ := mem_members_ofSymbols.1 hmember
    rw [String.toList_ofList] at hc
    exact ⟨symbol, hsymbol, hc⟩
  · rintro ⟨symbol, hsymbol, hc⟩
    rw [← String.toList_ofList (l := symbol)] at hc
    exact ⟨String.ofList symbol, mem_members_ofSymbols.2 ⟨symbol, hsymbol, rfl⟩, hc⟩

/-- The classes of a list of symbols have characters. -/
theorem vowelChars_ofSymbols_ne_nil (lists : List String) : (ofSymbols lists).vowelChars ≠ [] := by
  rw [vowelChars]
  split
  · show Script.phonetic.defaultBodies.1.toList ≠ []
    decide
  · next hentries =>
    obtain ⟨member, hmember⟩ : ∃ member, member ∈ (ofSymbols lists).members.toList := by
      obtain ⟨e, he⟩ := List.isEmpty_eq_false_iff_exists_mem.1 (Bool.eq_false_iff.2 hentries)
      exact ⟨e.1, List.mem_map_of_mem he⟩
    obtain ⟨symbol, hsymbol, rfl⟩ := mem_members_ofSymbols.1 hmember
    obtain ⟨c, rest, rfl⟩ := List.exists_cons_of_ne_nil (ne_nil_of_mem_symbols _ _ hsymbol)
    exact List.ne_nil_of_mem (List.mem_flatMap.2 ⟨_, hmember, by
      rw [String.toList_ofList]
      exact List.mem_cons_self ..⟩)

/-- No blank is a vowel if none is listed. -/
theorem solid_vowelChars {lists : List String} (h : ∀ list ∈ lists, Solid list.toList) :
    Solid (ofSymbols lists).vowelChars := by
  rw [vowelChars]
  split
  · have hall : Script.phonetic.defaultBodies.1.toList.all isSolid = true := by decide
    exact fun c hc ↦ by simpa [isSolid] using List.all_eq_true.1 hall c hc
  · intro c hc
    obtain ⟨list, hlist, hmem⟩ := mem_flatMap_members.1 hc
    exact h list hlist c hmem

/-- The set that a letter of a rule stands for. -/
def letterSet (c : Char) : CharSet :=
  if c = 'C' then .inverse (.ofChars s.excludedChars)
  else if c = 'V' then .ofChars s.vowelChars
  else .single c

/-- May the character stand where a rule has this letter? -/
def admits (letter c : Char) : Bool :=
  if letter = 'C' then s.isConsonant c else if letter = 'V' then s.isVowel c else c == letter

theorem contains_letterSet (letter c : Char) :
    (s.letterSet letter).contains c = s.admits letter c := by
  rw [letterSet, admits]
  split
  · rw [CharSet.contains, CharSet.contains_ofChars, contains_excludedChars, isConsonant]
  · split
    · exact CharSet.contains_ofChars _ _
    · exact CharSet.contains_single _ _

/-- Is the text made of one character for each letter in turn? -/
def Admits (letters text : List Char) : Prop :=
  List.Forall₂ (fun letter c ↦ s.admits letter c = true) letters text

theorem fits_letterSet_iff {letters text : List Char} :
    Fits (letters.map s.letterSet) text ↔ s.Admits letters text := by
  rw [Fits, List.forall₂_map_left_iff]
  simp only [contains_letterSet, Admits]

variable {s} in
theorem Admits.ne_nil {letters text : List Char} (h : s.Admits letters text) (hne : letters ≠ []) :
    text ≠ [] := by
  rintro rfl
  cases letters with
  | nil => exact hne rfl
  | cons letter rest => cases h

theorem substitute_ne_nil {cs : List Char} (h : cs ≠ []) : s.substitute cs ≠ [] := by
  obtain ⟨c, rest, rfl⟩ := List.exists_cons_of_ne_nil h
  rw [substitute, List.flatMap_cons]
  split
  · exact List.cons_ne_nil _ _
  · split <;> exact List.cons_ne_nil _ _

theorem substitute_append (cs more : List Char) :
    s.substitute (cs ++ more) = s.substitute cs ++ s.substitute more := List.flatMap_append

/-- A text without class letters is left as it is. -/
theorem substitute_eq_self {cs : List Char} (h : 'C' ∉ cs ∧ 'V' ∉ cs) : s.substitute cs = cs := by
  induction cs with
  | nil => rfl
  | cons c rest ih =>
    obtain ⟨hC, hCrest⟩ := List.ne_and_not_mem_of_not_mem_cons h.1
    obtain ⟨hV, hVrest⟩ := List.ne_and_not_mem_of_not_mem_cons h.2
    rw [substitute, List.flatMap_cons, if_neg (Ne.symm hC), if_neg (Ne.symm hV), ← substitute,
      ih ⟨hCrest, hVrest⟩]
    rfl

theorem admits_iff_of_ne {letter c : Char} (h : letter ≠ 'C' ∧ letter ≠ 'V') :
    s.admits letter c = true ↔ c = letter := by
  rw [admits, if_neg h.1, if_neg h.2, beq_iff_eq]

/-- Without class letters only the text itself is admitted. -/
theorem admits_iff_eq {letters text : List Char} (h : 'C' ∉ letters ∧ 'V' ∉ letters) :
    s.Admits letters text ↔ text = letters := by
  induction letters generalizing text with
  | nil => exact List.forall₂_nil_left_iff
  | cons letter letters ih =>
    obtain ⟨hC, hCrest⟩ := List.ne_and_not_mem_of_not_mem_cons h.1
    obtain ⟨hV, hVrest⟩ := List.ne_and_not_mem_of_not_mem_cons h.2
    rw [Admits, List.forall₂_cons_left_iff]
    constructor
    · rintro ⟨c, rest, hc, hadmits, rfl⟩
      rw [(s.admits_iff_of_ne ⟨hC.symm, hV.symm⟩).1 hc, (ih ⟨hCrest, hVrest⟩).1 hadmits]
    · rintro rfl
      exact ⟨letter, letters, (s.admits_iff_of_ne ⟨hC.symm, hV.symm⟩).2 rfl,
        (ih ⟨hCrest, hVrest⟩).2 rfl, rfl⟩

/-- The text of a letter denotes its set. -/
theorem denotes_letter {s : SoundClass} (hs : s.vowelChars ≠ []) {c : Char}
    (hc : c ∉ metacharacters) (opened : Nat) :
    Denotes opened (s.substitute [c]) [one (s.letterSet c)] opened := by
  rw [letterSet, substitute, List.flatMap_singleton]
  split
  · rw [consonant_eq]
    have hread : ∀ rest, readClass .regular ('^' :: escaped s.excludedChars ++ ']' :: rest)
        = some (.inverse (.ofChars s.excludedChars), rest) :=
      fun rest ↦ (readClass_escaped (s.vowelChars_ne_nil_iff.1 hs) rest).2
    exact denotes_class hread opened
  · split
    · rw [vowel_eq]
      exact denotes_class (fun rest ↦ (readClass_escaped hs rest).1) opened
    · exact denotes_char hc opened

/-- **In a pattern each class letter takes a sound of its class, and any other letter itself.** -/
theorem denotes_substitute {s : SoundClass} (hs : s.vowelChars ≠ []) {cs : List Char}
    (hcs : IsVerbatim cs) (opened : Nat) :
    Denotes opened (s.substitute cs) ((cs.map s.letterSet).map one) opened := by
  induction cs with
  | nil => exact denotes_nil opened
  | cons c rest ih =>
    obtain ⟨hc, hrest⟩ := List.forall_mem_cons.1 hcs
    have happend : s.substitute (c :: rest) = s.substitute [c] ++ s.substitute rest :=
      s.substitute_append [c] rest
    rw [happend]
    exact (denotes_letter hs hc opened).append (ih hrest)

end Phonology.SoundClass

end Glossopoeia
