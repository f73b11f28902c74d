import Mathlib.Data.List.Chain
import Glossopoeia.Proofs.Derivation.Hyphens

/-!
# Writing the parts of a derivation

A part is written as its word, its part of speech behind a colon and its tag behind a hyphen, the
last two in either order and each only if there is one (`Component.written`).  Such parts, set apart
by any blanks, are read again as they were, but for the gender of nouns (`readAll_written`).

Nothing of this works unless the tags stay where they are.  The hyphen before a tag is kept because
no small letter comes next (`HyphensKept`), and neither a part of speech nor a blank that follows
the tag can join it to something else.
-/

set_option autoImplicit false

namespace Glossopoeia.Component

open Text

/-! ## Texts that keep their hyphens -/

/-- No small letter comes next to a hyphen. -/
abbrev HyphensKept (cs : List Char) : Prop :=
  cs.IsChain fun c d ↦ c = '-' → isSmallLetter d = false

theorem hyphensKept_of_notMem {cs : List Char} (h : '-' ∉ cs) : HyphensKept cs := by
  induction cs with
  | nil => exact .nil
  | cons c cs ih =>
    obtain ⟨hc, hcs⟩ := List.ne_and_not_mem_of_not_mem_cons h
    exact List.isChain_cons.2 ⟨fun _ _ heq ↦ absurd heq.symm hc, ih hcs⟩

theorem hyphensKept_append_cons {a b : List Char} (ha : '-' ∉ a) (hb : '-' ∉ b)
    (hhead : ∀ d ∈ b.head?, isSmallLetter d = false) : HyphensKept (a ++ '-' :: b) :=
  (hyphensKept_of_notMem ha).append
    (List.isChain_cons.2 ⟨fun d hd _ ↦ hhead d hd, hyphensKept_of_notMem hb⟩)
    fun _ hc _ _ heq ↦ absurd (heq ▸ List.mem_of_getLast? hc) ha

/-- Where no small letter comes next to a hyphen, no pair of words is joined by one. -/
theorem splitHyphens_eq_self {cs : List Char} (h : HyphensKept cs) : splitHyphens cs = cs := by
  refine (rewritten_splitHyphens cs).eq_of_forall_not ?_
  rintro gap matched rest new rfl ⟨first, second, -, hsecond, -, rfl, -⟩
  obtain ⟨d, more, rfl⟩ := List.exists_cons_of_ne_nil hsecond.ne_nil
  have htext : gap ++ ((first ++ '-' :: d :: more) ++ rest)
      = (gap ++ first) ++ '-' :: d :: (more ++ rest) := by simp
  have hd : isSmallLetter d = false :=
    List.isChain_iff_forall_rel_of_append_cons_cons.1 h htext rfl
  rw [hsecond.small d (List.mem_cons_self ..)] at hd
  cases hd

/-- Tokens that keep their hyphens keep them wherever they are set apart. -/
theorem hyphensKept_of_setApart {tokens : List (List Char)} {text : List Char}
    (h : SetApart tokens text) (htokens : ∀ token ∈ tokens, HyphensKept token) :
    HyphensKept text := by
  induction h with
  | nil hgap => exact hyphensKept_of_notMem (notMem_of_allBlank hgap (by decide))
  | @cons gap token rest tokens hgap hend h ih =>
    obtain ⟨htoken, htokens⟩ := List.forall_mem_cons.1 htokens
    have hnotMem : '-' ∉ gap := notMem_of_allBlank hgap (by decide)
    refine (hyphensKept_of_notMem hnotMem).append (htoken.append (ih htokens) ?_) ?_
    · -- A blank comes next to the token.
      intro _ _ d hd _
      rw [← Bool.not_eq_true]
      intro hsmall
      cases (hend d hd).symm.trans (not_isBlank_of_isSmallLetter hsmall)
    · exact fun _ hc _ _ heq ↦ absurd (heq ▸ List.mem_of_getLast? hc) hnotMem

/-! ## Written parts -/

/-- Can the text be the word, the part of speech or the tag of a part? -/
structure IsSide (cs : List Char) : Prop where
  /-- There is no blank in it. -/
  solid : Solid cs
  /-- There is no colon in it. -/
  colon : ':' ∉ cs
  /-- There is no hyphen in it. -/
  hyphen : '-' ∉ cs

/-- Can the part be written?  The part of speech and the tag may even be empty. -/
structure IsWritable (c : Component) : Prop where
  /-- There is a word. -/
  ne_nil : c.word.toList ≠ []
  /-- The word has no marks in it. -/
  word : IsSide c.word.toList
  /-- Nor has the part of speech. -/
  partOfSpeech : ∀ pos ∈ c.partOfSpeech, IsSide pos.toList
  /-- Nor has the tag. -/
  affix : ∀ tag ∈ c.affix, IsSide tag.toList
  /-- The tag does not begin with a small letter. -/
  head : ∀ tag ∈ c.affix, tag.toList.head?.any isSmallLetter = false

instance (cs : List Char) : Decidable (IsSide cs) :=
  decidable_of_iff (Solid cs ∧ ':' ∉ cs ∧ '-' ∉ cs)
    ⟨fun h ↦ ⟨h.1, h.2.1, h.2.2⟩, fun h ↦ ⟨h.solid, h.colon, h.hyphen⟩⟩

instance (c : Component) : Decidable c.IsWritable :=
  decidable_of_iff (c.word.toList ≠ [] ∧ IsSide c.word.toList ∧
      (∀ pos ∈ c.partOfSpeech, IsSide pos.toList) ∧ (∀ tag ∈ c.affix, IsSide tag.toList) ∧
      ∀ tag ∈ c.affix, tag.toList.head?.any isSmallLetter = false)
    ⟨fun h ↦ ⟨h.1, h.2.1, h.2.2.1, h.2.2.2.1, h.2.2.2.2⟩,
      fun h ↦ ⟨h.ne_nil, h.word, h.partOfSpeech, h.affix, h.head⟩⟩

/-- A text behind its mark, or nothing. -/
def marked (mark : Char) : Option String → List Char
  | none => []
  | some text => mark :: text.toList

/-- The part as it is written, with the tag or the part of speech first. -/
def written (c : Component) (tagFirst : Bool) : List Char :=
  let pos := marked ':' c.partOfSpeech
  let tag := marked '-' c.affix
  c.word.toList ++ if tagFirst then tag ++ pos else pos ++ tag

/-- The part without the gender of a noun. -/
def coarsened (c : Component) : Component :=
  { c with partOfSpeech := c.partOfSpeech.map coarsePartOfSpeech }

section Written

variable {word tag : String} {pos : Option String} {tagFirst : Bool}

/-- A part without a tag. -/
theorem written_none :
    written ⟨word, pos, none⟩ tagFirst = word.toList ++ marked ':' pos := by
  cases tagFirst <;> simp [written, marked]

/-- A part whose tag comes first. -/
theorem written_true :
    written ⟨word, pos, some tag⟩ true = word.toList ++ '-' :: (tag.toList ++ marked ':' pos) := rfl

/-- A part whose part of speech comes first. -/
theorem written_false :
    written ⟨word, pos, some tag⟩ false = (word.toList ++ marked ':' pos) ++ '-' :: tag.toList := by
  simp [written, marked]

end Written

theorem cut_marked {mark : Char} {front : List Char} (h : mark ∉ front) (text : Option String) :
    cut mark (front ++ marked mark text) = text.map fun s ↦ (front, s.toList) := by
  cases text with
  | none => rw [marked, List.append_nil, cut_eq_none h, Option.map_none]
  | some text => exact cut_append_cons h _

theorem notMem_marked {mark c : Char} {text : Option String} (hc : c ≠ mark)
    (h : ∀ s ∈ text, c ∉ s.toList) : c ∉ marked mark text := by
  cases text with
  | none => exact List.not_mem_nil
  | some text => exact List.not_mem_cons_of_ne_of_not_mem hc (h text rfl)

theorem solid_marked {mark : Char} {text : Option String} (hmark : isBlank mark = false)
    (h : ∀ s ∈ text, Solid s.toList) : Solid (marked mark text) := by
  cases text with
  | none => exact solid_nil
  | some text => exact List.forall_mem_cons.2 ⟨hmark, h text rfl⟩

namespace IsWritable

variable {c : Component}

/-- There is no hyphen in the part of speech, with its colon. -/
theorem hyphen_notMem_pos (h : c.IsWritable) : '-' ∉ marked ':' c.partOfSpeech :=
  notMem_marked (by decide) fun pos hpos ↦ (h.partOfSpeech pos hpos).hyphen

/-- Nor is there one in the word with the part of speech. -/
theorem hyphen_notMem_front (h : c.IsWritable) :
    '-' ∉ c.word.toList ++ marked ':' c.partOfSpeech := by
  rw [List.mem_append, not_or]
  exact ⟨h.word.hyphen, h.hyphen_notMem_pos⟩

/-- A writable part is one word. -/
theorem isWord_written (h : c.IsWritable) (tagFirst : Bool) : IsWord (c.written tagFirst) := by
  have hpos : Solid (marked ':' c.partOfSpeech) :=
    solid_marked (by decide) fun pos hpos ↦ (h.partOfSpeech pos hpos).solid
  have htag : Solid (marked '-' c.affix) :=
    solid_marked (by decide) fun tag htag ↦ (h.affix tag htag).solid
  refine ⟨List.append_ne_nil_of_left_ne_nil h.ne_nil _, h.word.solid.append ?_⟩
  cases tagFirst with
  | true => exact htag.append hpos
  | false => exact hpos.append htag

/-- A writable part keeps its hyphen. -/
theorem hyphensKept_written (h : c.IsWritable) (tagFirst : Bool) :
    HyphensKept (c.written tagFirst) := by
  have hpos := h.hyphen_notMem_pos
  have hfront := h.hyphen_notMem_front
  obtain ⟨word, pos, _ | tag⟩ := c
  · rw [written_none]
    exact hyphensKept_of_notMem hfront
  · have htag : '-' ∉ tag.toList := (h.affix tag rfl).hyphen
    have hhead : ∀ d ∈ tag.toList.head?, isSmallLetter d = false := fun d hd ↦ by
      simpa [Option.mem_def.1 hd] using h.head tag rfl
    cases tagFirst with
    | true =>
      rw [written_true]
      refine hyphensKept_append_cons h.word.hyphen ?_ fun d hd ↦ ?_
      · rw [List.mem_append, not_or]
        exact ⟨htag, hpos⟩
      · -- The tag may be empty, and then the colon or nothing comes next.
        rw [List.head?_append, Option.mem_def, Option.or_eq_some_iff] at hd
        rcases hd with hd | ⟨-, hd⟩
        · exact hhead d hd
        · cases pos <;> cases hd
          decide
    | false =>
      rw [written_false]
      exact hyphensKept_append_cons hfront htag hhead

/-- A part that is written can be read, whether its tag or its part of speech comes first. -/
theorem read_written (h : c.IsWritable) (tagFirst : Bool) :
    read (c.written tagFirst) = c.coarsened := by
  have hfront := h.hyphen_notMem_front
  have hpos := cut_marked h.word.colon c.partOfSpeech
  have hword := h.word.solid.trim_eq
  obtain ⟨word, pos, _ | tag⟩ := c
  · rw [written_none, read, cut_eq_none hfront]
    simp only [hpos]
    cases pos <;> simp [coarsened, marked, hword]
  · have htag : IsSide tag.toList := h.affix tag rfl
    cases tagFirst with
    | true =>
      rw [written_true, read, cut_append_cons h.word.hyphen]
      simp only [cut_marked htag.colon, cut_eq_none h.word.colon]
      cases pos <;> simp [coarsened, marked, hword, htag.solid.trim_eq]
    | false =>
      rw [written_false, read, cut_append_cons hfront]
      simp only [cut_eq_none htag.colon, hpos]
      cases pos <;> simp [coarsened, marked, hword, htag.solid.trim_eq]

end IsWritable

/-- **Parts that are written and set apart by blanks are read again.**  Whether the tag or the part
of speech of a part comes first makes no difference. -/
theorem readAll_written (parts : List (Component × Bool)) (text : List Char)
    (hparts : ∀ part ∈ parts, part.1.IsWritable)
    (htext : SetApart (parts.map fun part ↦ part.1.written part.2) text) :
    readAll text = parts.map fun part ↦ part.1.coarsened := by
  have hkept : HyphensKept text := hyphensKept_of_setApart htext <| List.forall_mem_map.2
    fun part hpart ↦ (hparts part hpart).hyphensKept_written part.2
  have hwords : words text = parts.map fun part ↦ part.1.written part.2 :=
    htext.words_eq <| List.forall_mem_map.2
      fun part hpart ↦ (hparts part hpart).isWord_written part.2
  rw [readAll, tokenize, splitHyphens_eq_self hkept, hwords, List.map_map]
  exact List.map_congr_left fun part hpart ↦ (hparts part hpart).read_written part.2

/-- A part with the tag first, one with the part of speech first, and a bare word. -/
def threeParts : List (Component × Bool) :=
  [(⟨"old", some "adj", some "AUG"⟩, true), (⟨"house", some "nf", some "1S"⟩, false),
    (⟨"water", none, none⟩, true)]

theorem readAll_written_threeParts :
    (∀ part ∈ threeParts, part.1.IsWritable) ∧
      SetApart (threeParts.map fun part ↦ part.1.written part.2)
        " old-AUG:adj\thouse:nf-1S  water".toList ∧
      readAll " old-AUG:adj\thouse:nf-1S  water".toList
        = [⟨"old", some "adj", some "AUG"⟩, ⟨"house", some "n", some "1S"⟩,
            ⟨"water", none, none⟩] := by
  have hparts : ∀ part ∈ threeParts, part.1.IsWritable := by decide
  have htext : SetApart (threeParts.map fun part ↦ part.1.written part.2)
      " old-AUG:adj\thouse:nf-1S  water".toList := (words_eq_iff.1 (by decide)).1
  exact ⟨hparts, htext, readAll_written _ _ hparts htext⟩

end Glossopoeia.Component
