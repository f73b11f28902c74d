import Glossopoeia.Proofs.Lexicon.Pairs

/-!
# Commas in notes

Glosses are set apart by commas, so the comma of a note in parentheses has to be written otherwise
before they are split.  This is done for notes that are pairs (`WordList.isPair`), and for no
others, so a comma of a note that is no pair splits a gloss.

The text is rewritten as a whole, and notes may run over the ends of lines.  They do not run into
what stands before a colon if its parentheses are balanced, though
(`GlossPart.closesPair_text_append`).  Hence what becomes of the line of a word can be said of each
line alone, and how many glosses it has (`WordList.forall₂_listLines`).
-/

set_option autoImplicit false

namespace Glossopoeia.WordList

open Text

/-! ## What stands before the colon -/

/-- Is `c` neither a parenthesis nor a colon? -/
def isUnmarked (c : Char) : Bool := c != '(' && c != ')' && c != ':'

/-- What stands before the colon of a line, if its parentheses are balanced and none of them is
within others. -/
structure GlossPart where
  /-- What stands before the first note. -/
  start : List Char
  /-- The notes, each with what follows it before the next. -/
  noted : List (List Char × List Char)
  /-- There are no other parentheses, and no colon. -/
  unmarked : start.all isUnmarked = true ∧
    ∀ part ∈ noted, part.1.all isUnmarked = true ∧ part.2.all isUnmarked = true

namespace GlossPart

/-- The text, if its notes are written in the given way. -/
def writtenWith (write : List Char → List Char) (part : GlossPart) : List Char :=
  part.start ++ part.noted.flatMap fun (note, after) ↦ '(' :: (write note ++ ')' :: after)

/-- The text. -/
def text (part : GlossPart) : List Char := part.writtenWith id

/-- The notes. -/
def notes (part : GlossPart) : List (List Char) := part.noted.map Prod.fst

/-- How many commas stand outside parentheses. -/
def commasOutside (part : GlossPart) : Nat :=
  part.start.count ',' + (part.noted.flatMap Prod.snd).count ','

/-- How many commas stand in notes that are no pairs. -/
def commasLeft (part : GlossPart) : Nat :=
  (part.notes.filter (!isPair ·)).flatten.count ','

/-- What is set apart by parentheses has none of them, and no colon. -/
theorem notMem (part : GlossPart) {c : Char} (hc : isUnmarked c = false) :
    c ∉ part.start ∧ ∀ noted ∈ part.noted, c ∉ noted.1 ∧ c ∉ noted.2 := by
  have hall {piece : List Char} (hpiece : piece.all isUnmarked = true) : c ∉ piece := fun hmem ↦ by
    rw [List.all_eq_true.1 hpiece c hmem] at hc
    cases hc
  exact ⟨hall part.unmarked.1, fun noted hnoted ↦
    (part.unmarked.2 noted hnoted).imp hall hall⟩

/-- Notes are written otherwise one by one, whatever follows the last of them. -/
theorem protectCommas_flatMap_append {noted : List (List Char × List Char)}
    (hopen : ∀ part ∈ noted, '(' ∉ part.1 ∧ '(' ∉ part.2)
    (hclose : ∀ part ∈ noted, ')' ∉ part.1 ∧ ')' ∉ part.2) (rest : List Char) :
    protectCommas ((noted.flatMap fun (note, after) ↦ '(' :: (note ++ ')' :: after)) ++ rest)
      = (noted.flatMap fun (note, after) ↦ '(' :: (protectNote note ++ ')' :: after))
        ++ protectCommas rest := by
  induction noted with
  | nil => rfl
  | cons part noted ih =>
    obtain ⟨note, after⟩ := part
    obtain ⟨⟨hnote, hafter⟩, hopen⟩ := List.forall_mem_cons.1 hopen
    obtain ⟨⟨hnote', -⟩, hclose⟩ := List.forall_mem_cons.1 hclose
    have hfirst := protectCommas_note hnote hnote' (after ++
      ((noted.flatMap fun (note, after) ↦ '(' :: (note ++ ')' :: after)) ++ rest))
    rw [protectCommas_append_of_notMem hafter, ih hopen hclose] at hfirst
    simpa using hfirst

theorem protectCommas_text_append (part : GlossPart) (rest : List Char) :
    protectCommas (part.text ++ rest) = part.writtenWith protectNote ++ protectCommas rest := by
  obtain ⟨hstart, hopen⟩ := part.notMem (show isUnmarked '(' = false by decide)
  have hclose := (part.notMem (show isUnmarked ')' = false by decide)).2
  rw [text, writtenWith, List.append_assoc, protectCommas_append_of_notMem hstart, writtenWith,
    List.append_assoc]
  exact congrArg _ (protectCommas_flatMap_append hopen hclose rest)

/-- No note goes on in the text. -/
theorem closesPair_text_append (part : GlossPart) (rest : List Char) :
    closesPair (part.text ++ ':' :: rest) = false := by
  have hstart := (part.notMem (show isUnmarked ')' = false by decide)).1
  -- The text begins without a parenthesis, up to the first note or the colon.
  obtain ⟨c, more, hc, hclose, htext⟩ : ∃ c more, isPairChar c = false ∧ c ≠ ')' ∧
      part.text ++ ':' :: rest = part.start ++ c :: more := by
    rw [text, writtenWith]
    cases part.noted with
    | nil => exact ⟨':', rest, by decide, by decide, by simp⟩
    | cons first noted => exact ⟨'(', _, by decide, by decide, by simp; rfl⟩
  rw [closesPair, htext, dropWhile_append_cons hc, beq_eq_false_iff_ne]
  cases hdrop : part.start.dropWhile isPairChar with
  | nil => simpa using hclose
  | cons d kept =>
    have hd : d ∈ part.start := (List.dropWhile_sublist _).subset (hdrop ▸ List.mem_cons_self ..)
    simpa using ne_of_mem_of_not_mem hd hstart

theorem count_writtenWith (write : List Char → List Char) (part : GlossPart) :
    (part.writtenWith write).count ','
      = part.commasOutside + (part.notes.flatMap write).count ',' := by
  have hnoted (noted : List (List Char × List Char)) :
      (noted.flatMap fun (note, after) ↦ '(' :: (write note ++ ')' :: after)).count ','
        = (noted.flatMap Prod.snd).count ',' + ((noted.map Prod.fst).flatMap write).count ',' := by
    induction noted with
    | nil => rfl
    | cons part noted ih =>
      simp only [List.flatMap_cons, List.count_append, ih, List.map_cons,
        List.count_cons_of_ne (show '(' ≠ ',' by decide),
        List.count_cons_of_ne (show ')' ≠ ',' by decide)]
      omega
  rw [writtenWith, List.count_append, hnoted, commasOutside, notes, Nat.add_assoc]

theorem count_protectNote (note : List Char) :
    (protectNote note).count ',' = if isPair note then 0 else note.count ',' := by
  rw [protectNote]
  split
  · refine List.count_eq_zero_of_not_mem fun hmem ↦ ?_
    obtain ⟨c, -, hc⟩ := List.mem_map.1 hmem
    split at hc
    · cases hc
    · next hne => exact hne hc
  · rfl

theorem count_flatMap_protectNote (part : GlossPart) :
    (part.notes.flatMap protectNote).count ',' = part.commasLeft := by
  rw [commasLeft]
  induction part.notes with
  | nil => rfl
  | cons note notes ih =>
    rw [List.flatMap_cons, List.count_append, ih, count_protectNote, List.filter_cons]
    by_cases h : isPair note = true <;> simp [h]

theorem colon_notMem (part : GlossPart) : ':' ∉ part.writtenWith protectNote := by
  obtain ⟨hstart, hnoted⟩ := part.notMem (show isUnmarked ':' = false by decide)
  have htext : ':' ∉ part.text := by
    simp only [text, writtenWith, List.mem_append, List.mem_flatMap, not_or, not_exists, not_and]
    refine ⟨hstart, fun noted hmem ↦ ?_⟩
    simp [hnoted noted hmem]
  have hsoftens := softens_protectCommas (part.text ++ [])
  rw [part.protectCommas_text_append] at hsoftens
  have hnotMem := (hsoftens.mem_iff (c := ':') (by decide) (by decide)).not.1
  simpa [protectCommas, protectFrom, htext] using hnotMem

theorem commasLeft_eq_zero_iff (part : GlossPart) :
    part.commasLeft = 0 ↔ ∀ note ∈ part.notes, ',' ∈ note → isPair note = true := by
  rw [commasLeft, List.count_eq_zero, List.mem_flatten]
  constructor
  · intro hnone note hnote hcomma
    by_contra hpair
    exact hnone ⟨note, List.mem_filter.2 ⟨hnote, by simpa using hpair⟩, hcomma⟩
  · rintro hpairs ⟨note, hnote, hcomma⟩
    obtain ⟨hnote, hpair⟩ := List.mem_filter.1 hnote
    simp [hpairs note hnote hcomma] at hpair

end GlossPart

/-! ## Lines -/

/-- What becomes of a line when the notes of the whole text are written otherwise: if there is a
colon in it and the parentheses before that are balanced, the notes before it are written one by
one. -/
structure IsProtected (line written : List Char) : Prop where
  /-- It differs in commas at most. -/
  softens : Softens line written
  /-- Before the colon its own notes count. -/
  glossPart : ∀ (part : GlossPart) (rest : List Char), line = part.text ++ ':' :: rest →
    ∃ rest', written = part.writtenWith protectNote ++ ':' :: rest' ∧ Softens rest rest'

/-- The next line, wherever it stands in the text. -/
theorem exists_isProtected {earlier earlier' line more text' : List Char}
    (hlength : earlier'.length = earlier.length)
    (h : protectCommas (earlier ++ (line ++ more)) = earlier' ++ text') : ∃ line' more',
      text' = line' ++ more' ∧ IsProtected line line' ∧ Softens more more' := by
  have hsoftens : Softens (line ++ more) text' := by
    have hall := (softens_protectCommas (earlier ++ (line ++ more))).drop
    rwa [h, ← hlength, List.drop_left] at hall
  refine ⟨text'.take line.length, text'.drop line.length, (List.take_append_drop ..).symm,
    ⟨hsoftens.take, fun part rest hline ↦ ?_⟩, hsoftens.drop⟩
  subst hline
  have htext : earlier' ++ text' = protectCommas earlier ++
      (part.writtenWith protectNote ++ ':' :: protectCommas (rest ++ more)) := by
    have hcolon := protectCommas_append_of_notMem (show '(' ∉ [':'] by decide) (rest ++ more)
    rw [← h, List.append_assoc, List.cons_append, protectCommas_append _
      (part.closesPair_text_append _), part.protectCommas_text_append]
    exact congrArg _ (congrArg _ hcolon)
  obtain ⟨-, rfl⟩ := List.append_inj htext (hlength.trans (length_protectCommas earlier).symm)
  have hpart : (part.writtenWith protectNote).length = part.text.length := by
    have hall := length_protectCommas (part.text ++ [])
    rw [part.protectCommas_text_append, List.append_nil] at hall
    exact (congrArg List.length (List.append_nil _)).symm.trans hall
  refine ⟨(protectCommas (rest ++ more)).take rest.length, ?_,
    (softens_protectCommas (rest ++ more)).take⟩
  rw [List.length_append, ← hpart, List.take_length_add_append, List.length_cons,
    List.take_succ_cons]

/-- **The lines are written otherwise one by one**, as far as their parentheses are balanced. -/
theorem forall₂_lines {earlier earlier' text text' : List Char}
    (hlength : earlier'.length = earlier.length)
    (h : protectCommas (earlier ++ text) = earlier' ++ text') :
    List.Forall₂ IsProtected (lines text) (lines text') := by
  by_cases hmem : '\n' ∈ text
  · obtain ⟨line, more, rfl, hline⟩ := List.eq_append_cons_of_mem hmem
    obtain ⟨line', _, rfl, hprotected, hmore⟩ := exists_isProtected hlength h
    have hline' : '\n' ∉ line' :=
      (hprotected.softens.mem_iff (by decide) (by decide)).not.1 hline
    obtain ⟨d, more', hnewline, -, rfl⟩ := List.forall₂_cons_left_iff.1 hmore
    obtain rfl : d = '\n' := hnewline.resolve_right fun h ↦ absurd h.1 (by decide)
    rw [lines, split_append_cons hline, lines, split_append_cons hline']
    have hlength' : (earlier' ++ (line' ++ ['\n'])).length
        = (earlier ++ (line ++ ['\n'])).length := by
      simp [hlength, hprotected.softens.length_eq]
    have hnext : List.Forall₂ IsProtected (lines more) (lines more') :=
      forall₂_lines hlength' (by simpa using h)
    exact .cons hprotected hnext
  · have hlast : protectCommas (earlier ++ (text ++ [])) = earlier' ++ text' := by
      rwa [List.append_nil]
    obtain ⟨text', more', rfl, hprotected, hmore⟩ := exists_isProtected hlength hlast
    obtain rfl := List.forall₂_nil_left_iff.1 hmore
    have hmem' : '\n' ∉ text' := (hprotected.softens.mem_iff (by decide) (by decide)).not.1 hmem
    rw [lines, split_of_notMem hmem, lines, List.append_nil, split_of_notMem hmem']
    exact .cons hprotected .nil
termination_by text.length

/-- The lines of a list in which something is written. -/
def filledLines (text : String) : List (List Char) :=
  (lines text.toList).filter fun line ↦ !allBlank (line.filter (· != LexicalOrder.wordJoiner))

theorem Softens.allBlank_filter {line written : List Char} (h : Softens line written) :
    allBlank (line.filter (· != LexicalOrder.wordJoiner))
      = allBlank (written.filter (· != LexicalOrder.wordJoiner)) := by
  induction h with
  | nil => rfl
  | @cons c d _ _ hcd _ ih =>
    rcases hcd with rfl | ⟨rfl, rfl⟩
    · by_cases hjoiner : d = LexicalOrder.wordJoiner
      · simpa [hjoiner] using ih
      · have hkept : (d != LexicalOrder.wordJoiner) = true := by simpa using hjoiner
        rw [List.filter_cons, List.filter_cons, if_pos hkept, if_pos hkept]
        exact congrArg (isBlank d && ·) ih
    · rfl

/-- The lines that are read come from the lines in which something is written. -/
theorem forall₂_filledLines (text : String) : List.Forall₂ (fun line written ↦ ∃ kept,
    IsProtected line kept ∧
      written = String.ofList (kept.filter (· != LexicalOrder.wordJoiner)))
    (filledLines text) (listLines text) := by
  have hlines : List.Forall₂ IsProtected (lines text.toList) (lines (protectCommas text.toList)) :=
    @forall₂_lines [] [] _ _ rfl rfl
  rw [filledLines, listLines]
  generalize lines text.toList = texts, lines (protectCommas text.toList) = keptTexts at hlines ⊢
  induction hlines with
  | nil => exact .nil
  | @cons line kept _ _ hline _ ih =>
    rw [List.map_cons, List.filterMap_cons, ← hline.softens.allBlank_filter]
    by_cases hblank : allBlank (line.filter (· != LexicalOrder.wordJoiner)) = true
    · simpa [hblank] using ih
    · rw [List.filter_cons_of_pos (by simpa using hblank), if_neg hblank]
      exact .cons ⟨kept, hline, rfl⟩ ih

/-- A line is read, and it has as many glosses as commas are left before the colon, and one more. -/
theorem IsProtected.read {line kept : List Char} (h : IsProtected line kept) {part : GlossPart}
    {rest : List Char} (hline : line = part.text ++ ':' :: rest) (hequals : '=' ∈ rest) :
    ∃ word, WordNotation.read (String.ofList (kept.filter (· != LexicalOrder.wordJoiner)))
        = .ok word ∧ word.glosses.length = part.commasOutside + part.commasLeft + 1 := by
  obtain ⟨rest', rfl, hrest⟩ := h.glossPart part rest hline
  have hcolon : ':' ∉ (part.writtenWith protectNote).filter (· != LexicalOrder.wordJoiner) :=
    fun hmem ↦ part.colon_notMem (List.mem_of_mem_filter hmem)
  have hequals' : '=' ∈ rest'.filter (· != LexicalOrder.wordJoiner) :=
    List.mem_filter.2 ⟨(hrest.mem_iff (by decide) (by decide)).1 hequals, by decide⟩
  obtain ⟨⟨pos, phonetic⟩, hcut⟩ := exists_cut_eq_some hequals'
  rw [WordNotation.read, String.toList_ofList, List.filter_append,
    List.filter_cons_of_pos (by decide), cut_append_cons hcolon]
  dsimp only
  rw [hcut]
  refine ⟨_, rfl, ?_⟩
  rw [List.length_map, length_split, count_trim (by decide), List.count_filter (by decide),
    GlossPart.count_writtenWith, GlossPart.count_flatMap_protectNote]

/-- **How many glosses the words of a list have.**  Every line in which something is written is
read.  If it has a colon, balanced parentheses before it and an equals sign behind it, it is read as
a word, and that has one gloss more than there are commas outside parentheses and in notes that are
no pairs.  So the commas in notes are no commas between glosses exactly if all notes with commas are
pairs. -/
theorem forall₂_listLines (text : String) : List.Forall₂ (fun line written ↦
    ∀ (part : GlossPart) (rest : List Char), line = part.text ++ ':' :: rest → '=' ∈ rest →
      ∃ word, WordNotation.read written = .ok word ∧
        word.glosses.length = part.commasOutside + part.commasLeft + 1 ∧
        (word.glosses.length = part.commasOutside + 1 ↔
          ∀ note ∈ part.notes, ',' ∈ note → isPair note = true))
    (filledLines text) (listLines text) := by
  refine (forall₂_filledLines text).imp ?_
  rintro line _ ⟨kept, hkept, rfl⟩ part rest hline hequals
  obtain ⟨word, hread, hglosses⟩ := hkept.read hline hequals
  refine ⟨word, hread, hglosses, ?_⟩
  rw [hglosses, ← part.commasLeft_eq_zero_iff]
  omega

/-- A list of two words with notes, one of which is a pair. -/
def shoreList : String :=
  "bank (river, edge), shore : n = ʃor\nharbour (port, haven, dock) : n = ka"

/-- The pair is kept together, and the note of three words is not. -/
theorem forall₂_listLines_shoreList : ∃ shore harbour, (listLines shoreList).map WordNotation.read
      = [.ok shore, .ok harbour] ∧ shore.glosses.length = 2 ∧ harbour.glosses.length = 3 := by
  have hlines : filledLines shoreList = [
      "bank (river, edge), shore ".toList ++ ':' :: " n = ʃor".toList,
      "harbour (port, haven, dock) ".toList ++ ':' :: " n = ka".toList] := by decide
  have h := forall₂_listLines shoreList
  rw [hlines] at h
  obtain ⟨first, _, hfirst, hrest, hlist⟩ := List.forall₂_cons_left_iff.1 h
  obtain ⟨second, _, hsecond, hnil, rfl⟩ := List.forall₂_cons_left_iff.1 hrest
  obtain rfl := List.forall₂_nil_left_iff.1 hnil
  let bank : GlossPart :=
    ⟨"bank ".toList, [("river, edge".toList, ", shore ".toList)], by decide⟩
  let dock : GlossPart :=
    ⟨"harbour ".toList, [("port, haven, dock".toList, [' '])], by decide⟩
  obtain ⟨shore, hshore, hglosses, -⟩ := hfirst bank _ rfl (by decide)
  obtain ⟨harbour, hharbour, hglosses', -⟩ := hsecond dock _ rfl (by decide)
  refine ⟨shore, harbour, ?_, hglosses.trans (by decide),
    hglosses'.trans (by decide)⟩
  rw [hlist, List.map_cons, hshore, List.map_cons, hharbour, List.map_nil]

/-- The commas of a note are commas between glosses if there are two of them. -/
theorem not_forall_forall₂_listLines : ¬ ∀ text : String, List.Forall₂ (fun line written ↦
    ∀ (part : GlossPart) (rest : List Char), line = part.text ++ ':' :: rest → '=' ∈ rest →
      ∃ word, WordNotation.read written = .ok word ∧
        word.glosses.length = part.commasOutside + 1)
    (filledLines text) (listLines text) := by
  intro h
  have hlines : filledLines "bank (river, lake, sea), shore : n = ka"
      = ["bank (river, lake, sea), shore ".toList ++ ':' :: " n = ka".toList] := by decide
  have hlist : listLines "bank (river, lake, sea), shore : n = ka"
      = ["bank (river, lake, sea), shore : n = ka"] := by decide
  have hread : WordNotation.read "bank (river, lake, sea), shore : n = ka"
      = .ok ⟨["bank (river", "lake", "sea)", "shore"], "n", "ka"⟩ := by decide
  have hbank := h "bank (river, lake, sea), shore : n = ka"
  rw [hlines, hlist, List.forall₂_cons] at hbank
  let bank : GlossPart :=
    ⟨"bank ".toList, [("river, lake, sea".toList, ", shore ".toList)], by decide⟩
  obtain ⟨word, hword, hglosses⟩ := hbank.1 bank _ rfl (by decide)
  rw [hread] at hword
  cases hword
  exact absurd hglosses (by decide)

end Glossopoeia.WordList
