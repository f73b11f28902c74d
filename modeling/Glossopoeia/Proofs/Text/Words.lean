import Glossopoeia.Proofs.Text.Cuts

/-!
# The words of a text

Words can be set apart in many ways: how many blanks there are between two of them, and which, is
left open, and blanks may stand before the first word and behind the last one.  `SetApart` says
which texts are made of given words in this way, and the words of a text are just those of which it
is made (`words_eq_iff`).
-/

set_option autoImplicit false

namespace Glossopoeia.Text

/-- The text is made of the tokens, set apart by blanks: what stands behind a token is empty or
begins with a blank. -/
inductive SetApart : List (List Char) → List Char → Prop
  | nil {gap : List Char} (hgap : allBlank gap) : SetApart [] gap
  | cons {gap token rest : List Char} {tokens : List (List Char)} (hgap : allBlank gap)
      (hend : ∀ c ∈ rest.head?, isBlank c = true) (h : SetApart tokens rest) :
      SetApart (token :: tokens) (gap ++ (token ++ rest))

/-- A text can be a word if there is a character in it, but no blank. -/
structure IsWord (token : List Char) : Prop where
  /-- There is a character in it. -/
  ne_nil : token ≠ []
  /-- There is no blank in it. -/
  solid : Solid token

variable {gap token rest : List Char} {tokens : List (List Char)}

/-! ## What `words` does with blanks and solid texts -/

theorem words_cons {c : Char} (hc : isBlank c = true) (rest : List Char) :
    words (c :: rest) = words rest := by
  have hsplit : (c :: rest).splitOnP isBlank = [] :: rest.splitOnP isBlank :=
    List.splitOnP_append_cons_of_forall_mem (fun _ h ↦ absurd h List.not_mem_nil) c hc rest
  rw [words, hsplit, List.filter_cons_of_neg (by simp), ← words]

theorem words_append (hgap : allBlank gap) (rest : List Char) :
    words (gap ++ rest) = words rest := by
  induction gap with
  | nil => rfl
  | cons c gap ih =>
    obtain ⟨hc, hgap⟩ := List.forall_mem_cons.1 (allBlank_iff.1 hgap)
    rw [List.cons_append, words_cons hc, ih (allBlank_iff.2 hgap)]

theorem words_of_allBlank (hgap : allBlank gap) : words gap = [] := by
  rw [← List.append_nil gap, words_append hgap]
  rfl

/-- A word comes first if nothing or a blank follows it. -/
theorem IsWord.words_append (h : IsWord token) (hend : ∀ c ∈ rest.head?, isBlank c = true) :
    words (token ++ rest) = token :: words rest := by
  cases rest with
  | nil =>
    rw [List.append_nil, words, List.splitOnP_eq_singleton h.solid]
    simp [h.ne_nil, show words [] = [] from rfl]
  | cons c rest =>
    have hc : isBlank c = true := hend c rfl
    rw [words_cons hc, words, List.splitOnP_append_cons_of_forall_mem h.solid c hc, words]
    simp [h.ne_nil]

/-- Words joined by one blank each come back. -/
theorem words_intercalate (h : ∀ token ∈ tokens, IsWord token) :
    words ([' '].intercalate tokens) = tokens := by
  induction tokens with
  | nil => rfl
  | cons token tokens ih =>
    obtain ⟨htoken, htokens⟩ := List.forall_mem_cons.1 h
    cases tokens with
    | nil =>
      rw [List.intercalate_singleton, ← List.append_nil token, htoken.words_append (by simp),
        List.append_nil]
      rfl
    | cons next tokens =>
      rw [List.intercalate_cons_cons, List.append_assoc, htoken.words_append (by simp; rfl),
        List.singleton_append, words_cons rfl, ih htokens]

/-! ## The words that are set apart -/

/-- Words that are set apart are the words of the text. -/
theorem SetApart.words_eq {text : List Char} (h : SetApart tokens text)
    (htokens : ∀ token ∈ tokens, IsWord token) : words text = tokens := by
  induction h with
  | nil hgap => exact words_of_allBlank hgap
  | cons hgap hend _ ih =>
    obtain ⟨htoken, htokens⟩ := List.forall_mem_cons.1 htokens
    rw [words_append hgap, htoken.words_append hend, ih htokens]

/-- The words of a text are set apart in it. -/
theorem setApart_words (cs : List Char) :
    SetApart (words cs) cs ∧ ∀ token ∈ words cs, IsWord token := by
  obtain ⟨gap, hgap, hcs, -⟩ := trimLeft_eq_iff.1 (rfl : trimLeft cs = trimLeft cs)
  cases hleft : trimLeft cs with
  | nil =>
    rw [hleft, List.append_nil] at hcs
    rw [hcs, words_of_allBlank hgap]
    exact ⟨.nil hgap, fun _ h ↦ absurd h List.not_mem_nil⟩
  | cons c more =>
    let token := (c :: more).takeWhile isSolid
    let rest := (c :: more).dropWhile isSolid
    have htext : cs = gap ++ (token ++ rest) := by
      rw [hcs, hleft, List.takeWhile_append_dropWhile]
    have htoken : IsWord token :=
      ⟨by simp [token, isSolid, isBlank_of_trimLeft_eq_cons hleft],
        fun d hd ↦ by simpa [isSolid] using List.mem_takeWhile_imp hd⟩
    have hend : ∀ d ∈ rest.head?, isBlank d = true := fun d hd ↦ by
      simpa [isSolid] using of_mem_head?_dropWhile hd
    have hshorter : rest.length < cs.length := by
      have hpos := List.length_pos_iff.2 htoken.ne_nil
      rw [htext, List.length_append, List.length_append]
      omega
    obtain ⟨hapart, hwords⟩ := setApart_words rest
    rw [htext, words_append hgap, htoken.words_append hend]
    exact ⟨.cons hgap hend hapart, List.forall_mem_cons.2 ⟨htoken, hwords⟩⟩
termination_by cs.length

/-- **The words of a text are those of which it is made.** -/
theorem words_eq_iff {cs : List Char} :
    words cs = tokens ↔ SetApart tokens cs ∧ ∀ token ∈ tokens, IsWord token :=
  ⟨fun h ↦ h ▸ setApart_words cs, fun h ↦ h.1.words_eq h.2⟩

/-- There are no blanks in a word. -/
theorem solid_of_mem_wordsOf {s word : String} (h : word ∈ wordsOf s) : Solid word.toList := by
  obtain ⟨run, hrun, rfl⟩ := List.mem_map.1 h
  rw [String.toList_ofList]
  exact ((setApart_words _).2 run hrun).solid

end Glossopoeia.Text
