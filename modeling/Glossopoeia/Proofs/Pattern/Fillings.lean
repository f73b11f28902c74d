import Mathlib.Data.Option.Basic
import Glossopoeia.Proofs.Phonology.SoundClass
import Glossopoeia.Proofs.Text.Cuts

/-!
# What stands for a class letter

In rule notation a class letter is a character like any other until the classes are put in its
place, and what is put there may be anything: nothing keeps a class out of a hexadecimal number or a
name.  So a pattern is looked at with three fillings at once, the letters themselves, the escape for
a blank and the classes of a language.

A reader that gets by with the letters and with blanks has not met a class letter at all, and then
it reads the same from the text with the classes (`Transfers`).  It is only where a token or the
item of a class begins that a class letter can be met.  Readers that succeed with some filling
succeed with any if they stop at every character that a filling can begin with (`Agrees`).  This
module has the two notions and the readers of escapes (`transfers_readEscape`).
-/

set_option autoImplicit false

namespace Glossopoeia.Pattern

open Text Phonology

/-! ## What is put in place of a letter -/

/-- Is `c` one of the letters that stand for a class? -/
def isClassLetter (c : Char) : Bool := c == 'C' || c == 'V'

/-- What is put in place of the class letters of a pattern. -/
inductive Filling where
  /-- The letters themselves. -/
  | letters
  /-- The escape for a blank. -/
  | blanks
  /-- The classes of a language. -/
  | classes (s : SoundClass)

theorem head?_ne {d : Char} {cs : List Char} (h : ∀ rest, cs ≠ d :: rest) : cs.head? ≠ some d :=
  fun hhead ↦ h _ (List.eq_cons_of_mem_head? hhead)

namespace Filling

/-- What is put in place of a class letter. -/
def text : Filling → Char → List Char
  | letters, c => [c]
  | blanks, _ => ['\\', 's']
  | classes s, c => if c = 'C' then s.consonant else s.vowel

/-- The text with each class letter replaced. -/
def put (f : Filling) (cs : List Char) : List Char :=
  cs.flatMap fun c ↦ if isClassLetter c then f.text c else [c]

/-- The characters that what is put in place of a class letter can begin with. -/
def heads : List Char := ['C', 'V', '\\', '[']

theorem forall_mem_heads {P : Char → Prop} :
    (∀ d ∈ heads, P d) ↔ P 'C' ∧ P 'V' ∧ P '\\' ∧ P '[' := by
  simp [heads]

variable (f : Filling) {c : Char} {cs : List Char}

@[simp] theorem put_nil : f.put [] = [] := rfl

theorem put_cons (hc : isClassLetter c = false) (cs : List Char) :
    f.put (c :: cs) = c :: f.put cs := by
  simp [put, hc]

theorem put_letter_cons (hc : isClassLetter c = true) (cs : List Char) :
    f.put (c :: cs) = f.text c ++ f.put cs := by
  simp [put, hc]

theorem put_append (cs more : List Char) : f.put (cs ++ more) = f.put cs ++ f.put more :=
  List.flatMap_append

@[simp] theorem put_letters (cs : List Char) : letters.put cs = cs := by
  simp [put, text]

theorem put_classes (s : SoundClass) (cs : List Char) : (classes s).put cs = s.substitute cs := by
  rw [put, SoundClass.substitute]
  refine congrArg (List.flatMap · cs) (funext fun c ↦ ?_)
  by_cases hC : c = 'C'
  · simp [hC, isClassLetter, text]
  · by_cases hV : c = 'V' <;> simp [hC, hV, isClassLetter, text]

theorem eq_of_isClassLetter (hc : isClassLetter c = true) : c = 'C' ∨ c = 'V' := by
  simpa [isClassLetter] using hc

/-- What is put in place of a class letter is not empty. -/
theorem exists_text_eq (hc : isClassLetter c = true) :
    ∃ head tail, f.text c = head :: tail ∧ head ∈ heads := by
  cases f with
  | letters =>
    refine ⟨c, [], rfl, ?_⟩
    rcases eq_of_isClassLetter hc with rfl | rfl <;> decide
  | blanks => exact ⟨'\\', ['s'], rfl, by decide⟩
  | classes s =>
    rw [text]
    split
    · exact ⟨'[', _, s.consonant_eq, by decide⟩
    · exact ⟨'[', _, s.vowel_eq, by decide⟩

theorem exists_put_letter_cons (hc : isClassLetter c = true) (cs : List Char) :
    ∃ head tail, f.put (c :: cs) = head :: tail ∧ head ∈ heads := by
  obtain ⟨head, tail, htext, hhead⟩ := f.exists_text_eq hc
  exact ⟨head, tail ++ f.put cs, by rw [put_letter_cons f hc, htext]; rfl, hhead⟩

theorem isClassLetter_eq_false (hc : c ∉ heads) : isClassLetter c = false := by
  rw [Bool.eq_false_iff]
  intro hletter
  rcases eq_of_isClassLetter hletter with rfl | rfl <;> exact hc (by decide)

theorem mem_heads_of_isClassLetter (hc : isClassLetter c = true) : c ∈ heads := by
  rcases eq_of_isClassLetter hc with rfl | rfl <;> decide

/-- Another character stands at the start only where it has stood there before. -/
theorem head?_put {d : Char} (hd : d ∉ heads) : (f.put cs).head? = some d ↔ cs.head? = some d := by
  cases cs with
  | nil => simp
  | cons c cs =>
    by_cases hc : isClassLetter c = true
    · obtain ⟨head, tail, hput, hhead⟩ := f.exists_put_letter_cons hc cs
      have hne : head ≠ d := fun heq ↦ hd (heq ▸ hhead)
      have hne' : c ≠ d := fun heq ↦ hd (heq ▸ mem_heads_of_isClassLetter hc)
      simp [hput, hne, hne']
    · rw [put_cons f (by simpa using hc)]
      rfl

theorem tail_put {d : Char} (hd : d ∉ heads) (h : cs.head? = some d) :
    (f.put cs).tail = f.put cs.tail := by
  obtain ⟨rest, rfl⟩ := List.head?_eq_some_iff.1 h
  rw [put_cons f (isClassLetter_eq_false hd)]
  rfl

theorem exists_eq_cons {d : Char} (hd : d ∉ heads) {q : List Char} (h : f.put cs = d :: q) :
    ∃ rest, cs = d :: rest ∧ q = f.put rest := by
  obtain ⟨rest, rfl⟩ := List.head?_eq_some_iff.1 ((f.head?_put hd).1 (congrArg List.head? h))
  rw [put_cons f (isClassLetter_eq_false hd)] at h
  exact ⟨rest, rfl, (List.cons.inj h).2.symm⟩

theorem takeWhile_put {p : Char → Bool} (hp : ∀ d ∈ heads, p d = false) (cs : List Char) :
    (f.put cs).takeWhile p = cs.takeWhile p ∧ (f.put cs).dropWhile p = f.put (cs.dropWhile p) := by
  induction cs with
  | nil => simp
  | cons c cs ih =>
    by_cases hc : isClassLetter c = true
    · obtain ⟨head, tail, hput, hhead⟩ := f.exists_put_letter_cons hc cs
      have hpc : p c = false := hp c (mem_heads_of_isClassLetter hc)
      simp [hput, hp head hhead, hpc]
    · rw [put_cons f (by simpa using hc)]
      cases hpc : p c <;> simp [hpc, ih, put_cons f (by simpa using hc)]

/-- A longer rest is longer once the letters are replaced. -/
theorem length_put_le {rest : List Char} (h : rest <:+ cs) :
    (f.put rest).length ≤ (f.put cs).length := by
  obtain ⟨front, rfl⟩ := h
  simp [put_append]

theorem length_put_lt (c : Char) (cs : List Char) :
    (f.put cs).length < (f.put (c :: cs)).length := by
  cases hc : isClassLetter c with
  | true =>
    obtain ⟨head, tail, htext, -⟩ := f.exists_text_eq hc
    rw [put_letter_cons f hc, htext, List.length_append, List.length_cons]
    omega
  | false =>
    rw [put_cons f hc]
    exact Nat.lt_succ_self _

theorem isAsciiDigit_heads : ∀ d ∈ heads, isAsciiDigit d = false :=
  forall_mem_heads.2 ⟨rfl, rfl, rfl, rfl⟩

end Filling

/-! ## Readers -/

/-- Where the reader gets by with blanks in place of the class letters, it has not come across a
class letter, so that whatever is put in place of the letters behind, it reads the same. -/
def Transfers {α : Type} (read : List Char → Option (α × List Char)) (cs : List Char) : Prop :=
  ∀ x q, read (Filling.blanks.put cs) = some (x, q) → (read cs).isSome = true →
    ∃ rest, rest <:+ cs ∧ ∀ f : Filling, read (f.put cs) = some (x, f.put rest)

open Filling

variable {cs : List Char}

/-- The same, whatever is put in place of the letters. -/
def Agrees {α : Type} (read : List Char → Option (α × List Char)) (cs : List Char) : Prop :=
  ∀ (f : Filling) x q, read (f.put cs) = some (x, q) →
    ∃ rest, rest <:+ cs ∧ ∀ g : Filling, read (g.put cs) = some (x, g.put rest)

/-- What is cut off has no class letter in it if nothing in it stands for one. -/
theorem cut_put {sep : Char} (hsep : sep ∉ heads) {f : Filling} {name q : List Char}
    (h : cut sep (f.put cs) = some (name, q))
    (hname : ∀ c, isClassLetter c = true → ∀ head ∈ (f.text c).head?, head ∉ name) :
    ∃ rest, rest <:+ cs ∧ ∀ g : Filling, cut sep (g.put cs) = some (name, g.put rest) := by
  induction cs generalizing name with
  | nil => cases h
  | cons c cs ih =>
    by_cases hc : isClassLetter c = true
    · obtain ⟨head, tail, htext, hhead⟩ := f.exists_text_eq hc
      have hne : head ≠ sep := fun heq ↦ hsep (heq ▸ hhead)
      rw [put_letter_cons _ hc, htext, List.cons_append, cut, if_neg hne,
        Option.map_eq_some_iff] at h
      obtain ⟨⟨_, _⟩, -, hcons⟩ := h
      obtain ⟨rfl, -⟩ := Prod.mk.inj hcons
      exact absurd (List.mem_cons_self ..) (hname c hc head (by simp [htext]))
    · rw [Bool.not_eq_true] at hc
      simp only [put_cons _ hc, cut] at h ⊢
      by_cases heq : c = sep
      · simp only [if_pos heq, Option.some.injEq, Prod.mk.injEq] at h ⊢
        exact ⟨cs, List.suffix_cons c cs, fun f ↦ ⟨h.1, rfl⟩⟩
      · simp only [if_neg heq, Option.map_eq_some_iff] at h ⊢
        obtain ⟨⟨front, q'⟩, hcut, hcons⟩ := h
        obtain ⟨rfl, rfl⟩ := Prod.mk.inj hcons
        obtain ⟨rest, hsuffix, hall⟩ := ih hcut fun c hc head hhead hmem ↦
          hname c hc head hhead (List.mem_cons_of_mem _ hmem)
        exact ⟨rest, hsuffix.trans (List.suffix_cons c cs), fun f ↦ ⟨_, hall f, rfl⟩⟩

/-- Blanks in place of the letters leave a backslash. -/
theorem cut_put_blanks {sep : Char} (hsep : sep ∉ heads) {name q : List Char}
    (h : cut sep (blanks.put cs) = some (name, q)) (hname : '\\' ∉ name) :
    ∃ rest, rest <:+ cs ∧ ∀ f : Filling, cut sep (f.put cs) = some (name, f.put rest) :=
  cut_put hsep h fun _ _ _ hhead ↦ Option.some.inj hhead ▸ hname

/-- The same for characters that are counted off. -/
theorem take_put {n : Nat} (h : '\\' ∉ (blanks.put cs).take n) (f : Filling) :
    (f.put cs).take n = (blanks.put cs).take n ∧ (f.put cs).drop n = f.put (cs.drop n) := by
  induction n generalizing cs with
  | zero => simp
  | succ n ih =>
    cases cs with
    | nil => simp
    | cons c cs =>
      by_cases hc : isClassLetter c = true
      · rw [put_letter_cons _ hc] at h
        exact absurd (List.mem_cons_self ..) h
      · rw [Bool.not_eq_true] at hc
        rw [put_cons _ hc] at h
        have := ih (fun hmem ↦ h (List.mem_cons_of_mem c hmem))
        simp [put_cons _ hc, this]

/-! ## Escapes -/

theorem hexNumber_eq_none {digits : List Char} (h : '\\' ∈ digits) : hexNumber digits = none := by
  obtain ⟨front, back, rfl⟩ := List.append_of_mem h
  rw [hexNumber, List.foldlM_append]
  cases front.foldlM (fun n c ↦ (hexValue c).map (n * 16 + ·)) 0 <;> rfl

theorem charOfHex_eq_none {digits : List Char} (h : '\\' ∈ digits) : charOfHex digits = none := by
  simp [charOfHex, hexNumber_eq_none h]

theorem backslash_notMem_of_charOfHex {digits : List Char} {c : Char}
    (h : charOfHex digits = some c) : '\\' ∉ digits := fun hmem ↦ by
  simp [charOfHex_eq_none hmem] at h

theorem transfers_readHex (width : Nat) (cs : List Char) : Transfers (readHex width) cs := by
  intro c q h _
  by_cases hbrace : ∃ more, cs = '{' :: more
  · obtain ⟨more, rfl⟩ := hbrace
    have hput (f : Filling) : f.put ('{' :: more) = '{' :: f.put more := f.put_cons rfl more
    simp only [hput, readHex, Option.bind_eq_bind, Option.bind_eq_some_iff, Option.pure_def,
      Option.some.injEq, Prod.mk.injEq] at h ⊢
    obtain ⟨⟨digits, q⟩, hcut, c, hchar, rfl, rfl⟩ := h
    obtain ⟨rest, hsuffix, hall⟩ :=
      cut_put_blanks (by decide) hcut (backslash_notMem_of_charOfHex hchar)
    exact ⟨rest, hsuffix.trans (List.suffix_cons ..),
      fun f ↦ ⟨(digits, f.put rest), hall f, c, hchar, rfl, rfl⟩⟩
  · have hread (f : Filling) : readHex width (f.put cs) = do
        guard (width ≤ (f.put cs).length)
        return (← charOfHex ((f.put cs).take width), (f.put cs).drop width) := by
      rw [readHex.eq_def]
      split
      · next more heq =>
        obtain ⟨rest, hcs, -⟩ := f.exists_eq_cons (by decide) heq
        exact absurd ⟨rest, hcs⟩ hbrace
      · rfl
    rw [hread] at h
    simp only [Option.bind_eq_bind, Option.bind_eq_some_iff, Option.guard_eq_some', Option.pure_def,
      Option.some.injEq, Prod.mk.injEq] at h
    obtain ⟨_, hwidth, _, hchar, rfl, rfl⟩ := h
    have htake := take_put (backslash_notMem_of_charOfHex hchar)
    refine ⟨cs.drop width, List.drop_suffix width cs, fun f ↦ ?_⟩
    have hlength : width ≤ (f.put cs).length := by
      have := congrArg List.length (htake f).1
      simp only [List.length_take] at this
      omega
    rw [hread, (htake f).1, (htake f).2]
    simp [hlength, hchar]

theorem transfers_readName (cs : List Char) : Transfers readName cs := by
  intro name q h _
  by_cases hangle : ∃ more, cs = '<' :: more
  · obtain ⟨more, rfl⟩ := hangle
    have hput (f : Filling) : f.put ('<' :: more) = '<' :: f.put more := f.put_cons rfl more
    simp only [hput, readName, Option.bind_eq_bind, Option.bind_eq_some_iff, Option.guard_eq_some',
      Option.pure_def, Option.some.injEq, Prod.mk.injEq] at h ⊢
    obtain ⟨⟨name, q⟩, hcut, _, hname, rfl, rfl⟩ := h
    have hbackslash : '\\' ∉ name := fun hmem ↦ by
      have := List.all_eq_true.1 (Bool.and_eq_true_iff.1 hname).2 _ hmem
      exact absurd this (by decide)
    obtain ⟨rest, hsuffix, hall⟩ := cut_put_blanks (by decide) hcut hbackslash
    exact ⟨rest, hsuffix.trans (List.suffix_cons ..),
      fun f ↦ ⟨(name, f.put rest), hall f, (), hname, rfl, rfl⟩⟩
  · have hread : readName (blanks.put cs) = none := by
      rw [readName.eq_def]
      split
      · next more heq =>
        obtain ⟨rest, hcs, -⟩ := blanks.exists_eq_cons (by decide) heq
        exact absurd ⟨rest, hcs⟩ hangle
      · rfl
    simp [hread] at h

theorem notMem_of_namedEdge {name : List Char} {a : Place} (h : namedEdge name = some a) :
    ∀ d ∈ heads, d ∉ name := by
  rw [forall_mem_heads]
  rw [namedEdge] at h
  repeat' split at h
  case isFalse => cases h
  all_goals
    next heq =>
      rw [heq]
      decide

theorem transfers_readEdge (cs : List Char) : Transfers readEdge cs := by
  intro e q h hself
  by_cases hbrace : ∃ c more, cs = '{' :: c :: more ∧ (isAsciiLetter c || c == '-') = true
  · obtain ⟨c, more, rfl, hc⟩ := hbrace
    cases hletter : isClassLetter c with
    | true =>
      -- Among the letters themselves no name of a place begins so.
      simp only [readEdge, hc, if_true, Option.bind_eq_bind, Option.isSome_iff_exists,
        Option.bind_eq_some_iff] at hself
      obtain ⟨_, ⟨name, _⟩, hcut, _, hname, -⟩ := hself
      obtain ⟨hmore, hsep⟩ := cut_eq_some_iff.1 hcut
      cases name with
      | nil => exact absurd (List.head_eq_of_cons_eq hmore) (by rintro rfl; cases hletter)
      | cons d name =>
        obtain rfl := List.head_eq_of_cons_eq hmore
        exact absurd (List.mem_cons_self ..)
          (notMem_of_namedEdge hname c (mem_heads_of_isClassLetter hletter))
    | false =>
      have hput (f : Filling) : f.put ('{' :: c :: more) = '{' :: f.put (c :: more) :=
        f.put_cons rfl _
      have hread (f : Filling) : readEdge (f.put ('{' :: c :: more)) =
          (cut '}' (f.put (c :: more))).bind fun found ↦
            (namedEdge found.1).map fun a ↦ (.place a, found.2) := by
        rw [hput, put_cons f hletter, readEdge, if_pos hc]
        cases cut '}' (c :: f.put more) with
        | none => rfl
        | some found => cases hname : namedEdge found.1 <;> simp [hname]
      simp only [hread, Option.bind_eq_some_iff, Option.map_eq_some_iff, Prod.mk.injEq] at h ⊢
      obtain ⟨⟨name, q⟩, hcut, a, hname, rfl, rfl⟩ := h
      obtain ⟨rest, hsuffix, hall⟩ :=
        cut_put_blanks (by decide) hcut (notMem_of_namedEdge hname '\\' (by decide))
      exact ⟨rest, hsuffix.trans (List.suffix_cons ..),
        fun f ↦ ⟨(name, f.put rest), hall f, a, hname, rfl, rfl⟩⟩
  · have hread (f : Filling) : readEdge (f.put cs) = some (.place .wordEdge, f.put cs) := by
      rw [readEdge.eq_def]
      split
      · next c more heq =>
        obtain ⟨rest, rfl, hrest⟩ := f.exists_eq_cons (by decide) heq
        refine if_neg fun hc ↦ hbrace ?_
        cases rest with
        | nil => cases hrest
        | cons d rest =>
          cases hd : isClassLetter d with
          | true => exact ⟨d, rest, rfl, by rcases eq_of_isClassLetter hd with rfl | rfl <;> rfl⟩
          | false =>
            rw [f.put_cons hd, List.cons.injEq] at hrest
            exact ⟨d, rest, rfl, hrest.1 ▸ hc⟩
      · rfl
    rw [hread, Option.some.injEq, Prod.mk.injEq] at h
    exact ⟨cs, List.suffix_refl cs, fun f ↦ h.1 ▸ hread f⟩

theorem readExtension_cases (inClass : Bool) (c : Char) :
    (∃ e? : Option Escape, ∀ rest, readExtension inClass c rest = e?.map (·, rest)) ∨
    (∀ rest, readExtension inClass c rest =
      some (.backreference (numberOf (c :: rest.takeWhile isAsciiDigit)),
        rest.dropWhile isAsciiDigit)) ∨
    (c = 'k' ∧ inClass = false ∧ ∀ rest, readExtension inClass c rest =
      (readName rest).map fun (name, rest) ↦ (.namedBackreference name, rest)) := by
  by_cases he : (c == 'e') = true
  · exact .inl ⟨some _, fun rest ↦ by rw [readExtension, if_pos he]; rfl⟩
  by_cases hh : (c == 'h') = true
  · exact .inl ⟨some _, fun rest ↦ by rw [readExtension, if_neg he, if_pos hh]; rfl⟩
  by_cases hH : (c == 'H') = true
  · exact .inl ⟨some _, fun rest ↦ by rw [readExtension, if_neg he, if_neg hh, if_pos hH]; rfl⟩
  by_cases hb : (c == 'b' && inClass) = true
  · exact .inl ⟨some _, fun rest ↦ by
      rw [readExtension, if_neg he, if_neg hh, if_neg hH, if_pos hb]; rfl⟩
  by_cases hdigit : (isAsciiDigit c && !inClass) = true
  · refine .inr (.inl fun rest ↦ ?_)
    rw [readExtension, if_neg he, if_neg hh, if_neg hH, if_neg hb, if_pos hdigit]
    simp [drop_length_takeWhile]
  by_cases hk : (c == 'k' && !inClass) = true
  · refine .inr (.inr ?_)
    simp only [Bool.and_eq_true, beq_iff_eq, Bool.not_eq_true'] at hk
    obtain ⟨rfl, rfl⟩ := hk
    exact ⟨rfl, rfl, fun rest ↦ rfl⟩
  · exact .inl ⟨none, fun rest ↦ by
      rw [readExtension, if_neg he, if_neg hh, if_neg hH, if_neg hb, if_neg hdigit, if_neg hk]; rfl⟩

section Combinators

variable {α β : Type} {read read' : List Char → Option (α × List Char)}

/-- A reader for which the fillings make no difference finds something with all of them or none. -/
theorem Agrees.cases (h : Agrees read cs) :
    (∀ f : Filling, read (f.put cs) = none) ∨
      ∃ x rest, rest <:+ cs ∧ ∀ f : Filling, read (f.put cs) = some (x, f.put rest) := by
  by_cases hnone : ∀ f : Filling, read (f.put cs) = none
  · exact .inl hnone
  · obtain ⟨f, hf⟩ := not_forall.1 hnone
    obtain ⟨⟨x, q⟩, hread⟩ := Option.ne_none_iff_exists'.1 hf
    obtain ⟨rest, hsuffix, hall⟩ := h f x q hread
    exact .inr ⟨x, rest, hsuffix, hall⟩

/-- With the letters and with blanks it finds the same, and so it does with any filling. -/
theorem Transfers.of_eq_some {x y : α} {rest q : List Char} (h : Transfers read cs)
    (hself : read cs = some (x, rest)) (hblanks : read (blanks.put cs) = some (y, q)) :
    rest <:+ cs ∧ y = x ∧ q = blanks.put rest ∧
      ∀ f : Filling, read (f.put cs) = some (x, f.put rest) := by
  obtain ⟨rest', hsuffix, hall⟩ := h y q hblanks (by simp [hself])
  obtain ⟨rfl, rfl⟩ : y = x ∧ rest' = rest := by simpa [hself, eq_comm] using hall letters
  exact ⟨hsuffix, rfl, by simpa [hblanks] using hall blanks, hall⟩

theorem Transfers.bind {next : α → List Char → Option (β × List Char)} (h : Transfers read cs)
    (hnext : ∀ x rest, rest <:+ cs → Transfers (next x) rest) :
    Transfers (fun cs ↦ (read cs).bind fun (x, rest) ↦ next x rest) cs := by
  intro y q hread hself
  obtain ⟨⟨x, q'⟩, hx, hy⟩ := Option.bind_eq_some_iff.1 hread
  cases hcs : read cs with
  | none => simp [hcs] at hself
  | some found =>
  obtain ⟨_, rest⟩ := found
  obtain ⟨hsuffix, rfl, rfl, hall⟩ := h.of_eq_some hcs hx
  obtain ⟨rest', hsuffix', hall'⟩ := hnext x rest hsuffix y q hy (by simpa [hcs] using hself)
  exact ⟨rest', hsuffix'.trans hsuffix, fun f ↦ by simp [hall, hall']⟩

theorem Transfers.congr (h : Transfers read cs) (heq : ∀ cs, read' cs = read cs) :
    Transfers read' cs := funext heq ▸ h

/-- It does if it does behind the first character. -/
theorem Transfers.cons {c : Char} (hc : isClassLetter c = false)
    (h : Transfers (fun cs ↦ read (c :: cs)) cs) : Transfers read (c :: cs) := by
  intro x q hread hself
  simp only [put_cons _ hc] at hread ⊢
  obtain ⟨rest, hsuffix, hall⟩ := h x q hread hself
  exact ⟨rest, hsuffix.trans (List.suffix_cons ..), hall⟩

/-- A reader that only decides whether to go on. -/
theorem transfers_map_const (x? : Option α) (cs : List Char) :
    Transfers (fun cs ↦ x?.map (·, cs)) cs := by
  intro x q h _
  obtain ⟨_, hx, heq⟩ := Option.map_eq_some_iff.1 h
  cases heq
  exact ⟨cs, List.suffix_refl cs, fun f ↦ by rw [hx]; rfl⟩

theorem Transfers.map (h : Transfers read cs) (g : α → β) :
    Transfers (fun cs ↦ (read cs).map fun (x, rest) ↦ (g x, rest)) cs := by
  intro y q hread hself
  obtain ⟨⟨x, _⟩, hx, heq⟩ := Option.map_eq_some_iff.1 hread
  cases heq
  obtain ⟨rest, hsuffix, hall⟩ := h x _ hx (by simpa using hself)
  exact ⟨rest, hsuffix, fun f ↦ by simp [hall]⟩

/-- A reader that goes on in one way behind a certain character, and in another without it. -/
theorem Transfers.ite_head {d : Char} (hd : d ∉ heads)
    (h : Transfers read cs.tail) (h' : Transfers read' cs) :
    Transfers (fun cs ↦ if cs.head? = some d then read cs.tail else read' cs) cs := by
  intro x q hread hself
  by_cases hhead : cs.head? = some d
  · have hput (f : Filling) : (f.put cs).head? = some d ∧ (f.put cs).tail = f.put cs.tail :=
      ⟨(f.head?_put hd).2 hhead, f.tail_put hd hhead⟩
    simp only [if_pos (hput _).1, if_pos hhead, (hput _).2] at hread hself ⊢
    obtain ⟨rest, hsuffix, hall⟩ := h x q hread hself
    exact ⟨rest, hsuffix.trans (List.tail_suffix cs), hall⟩
  · have hput (f : Filling) : (f.put cs).head? ≠ some d := fun hput ↦
      hhead ((f.head?_put hd).1 hput)
    simp only [if_neg (hput _), if_neg hhead] at hread hself ⊢
    exact h' x q hread hself

end Combinators

/-- What follows the first character of an escape. -/
theorem transfers_readEscape_cons (inClass : Bool) (c : Char) (cs : List Char) :
    Transfers (fun cs ↦ readEscape .extended inClass (c :: cs)) cs := by
  cases hset : namedSet c with
  | some s =>
    exact (transfers_map_const (some (.set s)) cs).congr fun rest ↦ by simp [readEscape, hset]
  | none =>
  cases hcontrol : controlChar c with
  | some d =>
    exact (transfers_map_const (some (.char d)) cs).congr fun rest ↦ by
      simp [readEscape, hset, hcontrol]
  | none =>
  cases hwidth : hexWidth c with
  | some width =>
    exact ((transfers_readHex width cs).map .char).congr fun rest ↦ by
      simp [readEscape, hset, hcontrol, hwidth]
  | none =>
  rcases readExtension_cases inClass c with ⟨e?, he⟩ | hdigits | ⟨rfl, rfl, hname⟩
  · cases e? with
    | some e =>
      exact (transfers_map_const (some e) cs).congr fun rest ↦ by
        simp [readEscape, hset, hcontrol, hwidth, he]
    | none =>
      by_cases hedge : (!inClass && c == 'b') = true
      · exact (transfers_readEdge cs).congr fun rest ↦ by
          simp only [readEscape, hset, hcontrol, hwidth, he, if_true, Option.map_none, hedge]
      · cases hplace : (if inClass = true then none else namedPlace c) with
        | some a =>
          exact (transfers_map_const (some (.place a)) cs).congr fun rest ↦ by
            simp only [readEscape, hset, hcontrol, hwidth, he, if_true, Option.map_none, hedge,
              Bool.false_eq_true, if_false, hplace]
            rfl
        | none =>
          refine (transfers_map_const (if isSelfEscape .extended c then some (.char c) else none)
            cs).congr fun rest ↦ ?_
          simp only [readEscape, hset, hcontrol, hwidth, he, if_true, Option.map_none, hedge,
            Bool.false_eq_true, if_false, hplace]
          split <;> rfl
  · intro e q h _
    have hread (f : Filling) : readEscape .extended inClass (c :: f.put cs)
        = some (.backreference (numberOf (c :: cs.takeWhile isAsciiDigit)),
            f.put (cs.dropWhile isAsciiDigit)) := by
      have htake := f.takeWhile_put isAsciiDigit_heads cs
      simp [readEscape, hset, hcontrol, hwidth, hdigits, htake]
    obtain ⟨rfl, -⟩ := Prod.mk.inj (Option.some.inj ((hread _).symm.trans h))
    exact ⟨_, List.dropWhile_suffix _, hread⟩
  · refine ((transfers_readName cs).map .namedBackreference).congr fun rest ↦ ?_
    simp only [readEscape, hset, hcontrol, hwidth, if_true, hname]
    cases readName rest <;> rfl

theorem transfers_readEscape (inClass : Bool) (cs : List Char) :
    Transfers (readEscape .extended inClass) cs := by
  cases cs with
  | nil =>
    intro e q h _
    cases h
  | cons c cs =>
  cases hc : isClassLetter c with
  | true =>
    -- The letter itself has no meaning behind a backslash.
    intro e q _ hself
    rcases eq_of_isClassLetter hc with rfl | rfl <;> cases inClass <;> cases hself
  | false => exact (transfers_readEscape_cons inClass c cs).cons hc

end Glossopoeia.Pattern
