import Glossopoeia.Proofs.Dictionary
import Glossopoeia.Proofs.GrammarTable.CellLine

/-!
# Abbreviations of labels

The abbreviation of a label is what is left of it: the capitals, with a full stop for each space but
none at the end (`Labels.abbreviate_eq`).  A path is cut at its full stops, and what is empty
between two of them is left out.  So a label can be named by its abbreviation if no word without
capitals comes before one with some (`Labels.CapitalsLead`): then the abbreviation is what is looked
up first (`Labels.resolve_abbreviate`).

Otherwise two full stops meet in the abbreviation, or it begins with one, and what is entered under
it is never found (`Labels.agree_add`).
-/

set_option autoImplicit false

namespace Glossopoeia

open Text

namespace Labels

/-! ## Labels of words -/

/-- Is `c` a capital letter without marks? -/
def isCapital (c : Char) : Bool := 'A' ≤ c && c ≤ 'Z'

/-- Is `c` a letter without marks? -/
def isPlainLetter (c : Char) : Bool := isCapital c || ('a' ≤ c && c ≤ 'z')

/-- Is the label made of words of letters, with one space between them? -/
def IsPlain (label : List Char) : Prop :=
  ∀ word ∈ split ' ' label, word ≠ [] ∧ word.all isPlainLetter = true

/-- The capitals of each word. -/
def capitals (label : List Char) : List (List Char) := (split ' ' label).map (·.filter isCapital)

/-- Do the words with capitals come before those without any? -/
def CapitalsLead (label : List Char) : Prop :=
  (capitals label).Pairwise fun word next ↦ next ≠ [] → word ≠ []

instance (label : List Char) : Decidable (IsPlain label) := inferInstanceAs (Decidable (∀ _ ∈ _, _))

instance (label : List Char) : Decidable (CapitalsLead label) :=
  inferInstanceAs (Decidable (List.Pairwise _ _))

variable {label : List Char} {c : Char}

theorem isPathChar_of_isCapital (h : isCapital c = true) : GrammarLine.isPathChar c = true := by
  rw [isCapital] at h
  rw [GrammarLine.isPathChar, h, Bool.or_true, Bool.true_or]

theorem mem_range_of_isPlainLetter (h : isPlainLetter c = true) :
    c.toNat ∈ List.range' 65 26 ++ List.range' 97 26 := by
  simp only [isPlainLetter, isCapital, Bool.or_eq_true, Bool.and_eq_true, decide_eq_true_eq,
    Char.le_def, UInt32.le_iff_toNat_le] at h
  have hcodes : 'A'.val.toNat = 65 ∧ 'Z'.val.toNat = 90 ∧ 'a'.val.toNat = 97 ∧
    'z'.val.toNat = 122 := ⟨rfl, rfl, rfl, rfl⟩
  simp only [List.mem_append, List.mem_range'_1, Char.toNat]
  omega

/-- What holds of the letters one by one holds of each. -/
theorem of_isPlainLetter {P : Char → Prop}
    (h : ∀ n ∈ List.range' 65 26 ++ List.range' 97 26, P (Char.ofNat n))
    (hc : isPlainLetter c = true) : P c := by
  have hof := h _ (mem_range_of_isPlainLetter hc)
  rwa [Char.ofNat_toNat] at hof

theorem isUpperForm_of_isPlainLetter (h : isPlainLetter c = true) :
    isUpperForm c = isCapital c :=
  of_isPlainLetter (P := fun c ↦ isUpperForm c = isCapital c) (by decide) h

theorem isDecimalDigit_of_isPlainLetter (h : isPlainLetter c = true) : isDecimalDigit c = false :=
  of_isPlainLetter (P := fun c ↦ isDecimalDigit c = false) (by decide) h

theorem IsPlain.isPlainLetter (h : IsPlain label) (hc : c ∈ label) :
    c = ' ' ∨ isPlainLetter c = true := by
  have hjoin : [' '].intercalate (split ' ' label) = label := List.intercalate_splitOn ' '
  by_contra hnone
  obtain ⟨hspace, hletter⟩ := not_or.1 hnone
  refine notMem_intercalate (by simpa using hspace) (fun word hword hmem ↦ ?_) (hjoin.symm ▸ hc)
  exact hletter (List.all_eq_true.1 (h word hword).2 c hmem)

/-- A label of words is entered under its own abbreviation. -/
theorem add_eq_addName (h : IsPlain (trim label)) (labels : Labels) :
    labels.add label = labels.addName (trim label) := by
  have hordinal : leadingOrdinal label = none := by
    rw [leadingOrdinal]
    split
    · next d c rest hstart =>
      have hd : d ∈ (trim label).head? := by
        rw [head?_trim, hstart]
        rfl
      have hdigit : isDecimalDigit d = false := by
        rcases h.isPlainLetter (List.mem_of_mem_head? hd) with rfl | hletter
        · decide
        · exact isDecimalDigit_of_isPlainLetter hletter
      rw [hdigit]
      rfl
    · rfl
  rw [Labels.add, hordinal]

/-! ## Abbreviations -/

/-- What the abbreviation of a label is made of. -/
def pieces (label : List Char) : List (List Char) := (capitals label).rdropWhile (·.isEmpty)

theorem isCapital_of_mem_pieces {piece : List Char} (h : piece ∈ pieces label) (hc : c ∈ piece) :
    isCapital c = true := by
  obtain ⟨word, -, rfl⟩ := List.mem_map.1 ((List.rdropWhile_prefix _ _).subset h)
  exact (List.mem_filter.1 hc).2

/-- If no piece of an abbreviation is empty, none is left out but at the end. -/
theorem capitalsLead_of_pieces (h : ∀ piece ∈ pieces label, piece ≠ []) : CapitalsLead label := by
  have hend : ∀ word ∈ (capitals label).rtakeWhile (·.isEmpty), word = [] := fun word hword ↦ by
    simpa using List.mem_rtakeWhile_imp hword
  have hcapitals : pieces label ++ (capitals label).rtakeWhile (·.isEmpty) = capitals label :=
    List.rdropWhile_append_rtakeWhile
  rw [CapitalsLead, ← hcapitals, List.pairwise_append]
  refine ⟨List.pairwise_of_forall_mem_list fun word hword _ _ _ ↦ h word hword,
    List.pairwise_of_forall_mem_list fun _ _ next hnext hne ↦ absurd (hend next hnext) hne,
    fun _ _ next hnext hne ↦ absurd (hend next hnext) hne⟩

theorem of_mem_intercalate_pieces (hc : c ∈ ['.'].intercalate (pieces label)) :
    c = '.' ∨ isCapital c = true := by
  by_contra hnone
  obtain ⟨hdot, hcapital⟩ := not_or.1 hnone
  exact notMem_intercalate (by simpa using hdot)
    (fun piece hpiece hmem ↦ hcapital (isCapital_of_mem_pieces hpiece hmem)) hc

theorem filterMap_intercalate {words : List (List Char)}
    (h : ∀ word ∈ words, word.all isPlainLetter = true) :
    ([' '].intercalate words).filterMap
        (fun c ↦ if c = ' ' then some '.' else if isUpperForm c then some c else none)
      = ['.'].intercalate (words.map (·.filter isCapital)) := by
  have hword (word : List Char) (hword : word.all isPlainLetter = true) :
      word.filterMap (fun c ↦ if c = ' ' then some '.' else if isUpperForm c then some c else none)
        = word.filter isCapital := by
    rw [← List.filterMap_eq_filter]
    refine List.filterMap_congr fun c hc ↦ ?_
    have hletter := List.all_eq_true.1 hword c hc
    have hspace : c ≠ ' ' := fun heq ↦ absurd (heq ▸ hletter) (by decide)
    rw [if_neg hspace, isUpperForm_of_isPlainLetter hletter]
    rfl
  induction words with
  | nil => rfl
  | cons word words ih =>
    obtain ⟨hletters, hwords⟩ := List.forall_mem_cons.1 h
    cases words with
    | nil => simpa using hword word hletters
    | cons next words =>
      rw [List.intercalate_cons_cons, List.filterMap_append, List.filterMap_append, ih hwords,
        hword word hletters]
      exact List.intercalate_cons_cons.symm

/-- **The abbreviation of a label** is made of the capitals of its words. -/
theorem abbreviate_eq (h : IsPlain label) :
    abbreviate label = ['.'].intercalate (pieces label) := by
  have hjoin : [' '].intercalate (split ' ' label) = label := List.intercalate_splitOn ' '
  have hkept := filterMap_intercalate fun word hword ↦ (h word hword).2
  rw [hjoin] at hkept
  have hdots : ∀ piece ∈ capitals label, '.' ∉ piece := by
    intro piece hpiece hmem
    obtain ⟨word, -, rfl⟩ := List.mem_map.1 hpiece
    exact absurd (List.mem_filter.1 hmem).2 (by decide)
  have hsolid : Solid (['.'].intercalate (pieces label)) := fun c hc ↦ by
    rcases of_mem_intercalate_pieces hc with rfl | hcapital
    · decide
    · exact GrammarLine.isBlank_eq_false_of_isPathChar (isPathChar_of_isCapital hcapital)
  rw [abbreviate, hkept, ← List.rdropWhile, ← capitals, rdropWhile_intercalate hdots, ← pieces,
    hsolid.trim_eq]

/-! ## Looking abbreviations up -/

variable {labels labels' : Labels} {parts : List String} {name line : String}

theorem pathParts_intercalate {pieces : List (List Char)} (h : ∀ piece ∈ pieces, '.' ∉ piece) :
    pathParts (['.'].intercalate pieces)
      = (pieces.filter fun piece ↦ !piece.isEmpty).map String.ofList := by
  cases pieces with
  | nil => rfl
  | cons piece pieces =>
    have hsplit : split '.' (['.'].intercalate (piece :: pieces)) = piece :: pieces :=
      List.splitOn_intercalate '.' h (List.cons_ne_nil _ _)
    rw [pathParts, hsplit]

theorem joinParts_map_ofList (pieces : List (List Char)) :
    joinParts (pieces.map String.ofList) = String.ofList (['.'].intercalate pieces) := by
  rw [joinParts, ← String.toList_inj, String.toList_intercalate, String.toList_ofList, List.map_map]
  simp [Function.comp_def]

/-- What stands under a whole path is found. -/
theorem resolve_of_get? {path : List Char} (hne : pathParts path ≠ [])
    (hget : labels.get? (joinParts (pathParts path)) = some name) (line : String) :
    labels.resolve path line = .ok name := by
  obtain ⟨part, parts, hparts⟩ := List.exists_cons_of_ne_nil hne
  have hlongest : labels.longest? (part :: parts) (part :: parts).length
      = some (name, (part :: parts).length) := by
    rw [List.length_cons, longest?, ← List.length_cons, List.take_length, ← hparts, hget]
  rw [resolve, hparts, List.length_cons, segment]
  · rw [hlongest]
    dsimp only
    rw [List.drop_length, segment]
    exact congrArg Except.ok String.intercalate_singleton
  · exact List.cons_ne_nil _ _

theorem dot_notMem_of_mem_pieces {piece : List Char} (h : piece ∈ pieces label) : '.' ∉ piece :=
  fun hmem ↦ absurd (isCapital_of_mem_pieces h hmem) (by decide)

/-- **An abbreviation names its label** if the words with capitals come first. -/
theorem resolve_abbreviate (h : IsPlain label) (hlead : CapitalsLead label)
    (hne : abbreviate label ≠ [])
    (hget : labels.get? (String.ofList (abbreviate label)) = some name) (line : String) :
    labels.resolve (abbreviate label) line = .ok name := by
  have hfilter : (pieces label).filter (fun piece ↦ !piece.isEmpty) = pieces label := by
    rw [pieces, rdropWhile_eq_filter (hlead.imp fun {a b} hab ↦ by simpa using hab),
      List.filter_filter]
    simp
  have hparts : pathParts (abbreviate label) = (pieces label).map String.ofList := by
    rw [abbreviate_eq h, pathParts_intercalate fun _ ↦ dot_notMem_of_mem_pieces, hfilter]
  refine resolve_of_get? ?_ ?_ line
  · rw [hparts, Ne, List.map_eq_nil_iff]
    rintro hnil
    rw [abbreviate_eq h, hnil] at hne
    exact hne rfl
  · rwa [hparts, joinParts_map_ofList, ← abbreviate_eq h]

/-! ## Labels that look-ups tell apart -/

/-- May a part of a path be this one?  There is something in it, and no full stop. -/
def IsPart (part : String) : Prop := part ≠ "" ∧ '.' ∉ part.toList

/-- Do the labels agree on whatever paths are cut into? -/
def Agree (labels labels' : Labels) : Prop := ∀ parts : List String, parts ≠ [] →
  (∀ part ∈ parts, IsPart part) → labels.get? (joinParts parts) = labels'.get? (joinParts parts)

theorem isPart_of_mem_pathParts {path : List Char} {part : String} (h : part ∈ pathParts path) :
    IsPart part := by
  obtain ⟨piece, hpiece, rfl⟩ := List.mem_map.1 h
  obtain ⟨hpiece, hne⟩ := List.mem_filter.1 hpiece
  rw [IsPart, String.toList_ofList, Ne, ← String.toList_inj, String.toList_ofList]
  exact ⟨by simpa using hne, notMem_of_mem_split hpiece⟩

theorem Agree.longest? (h : labels.Agree labels') (hne : parts ≠ [])
    (hparts : ∀ part ∈ parts, IsPart part) (n : Nat) :
    labels.longest? parts n = labels'.longest? parts n := by
  induction n with
  | zero => rfl
  | succ n ih =>
    have hget := h (parts.take (n + 1)) (by simpa using hne) fun part hpart ↦
      hparts part (List.mem_of_mem_take hpart)
    rw [Labels.longest?, Labels.longest?, hget, ih]

theorem Agree.segment (h : labels.Agree labels') (hparts : ∀ part ∈ parts, IsPart part)
    (fuel : Nat) : labels.segment fuel parts = labels'.segment fuel parts := by
  induction fuel generalizing parts with
  | zero => cases parts <;> rfl
  | succ fuel ih =>
    cases parts with
    | nil => rfl
    | cons part parts =>
      have hrest (n : Nat) := @ih ((part :: parts).drop n) fun part hpart ↦
        hparts part (List.mem_of_mem_drop hpart)
      rw [Labels.segment, Labels.segment]
      · rw [h.longest? (List.cons_ne_nil _ _) hparts]
        split
        · rfl
        · rw [hrest]
      · exact List.cons_ne_nil _ _
      · exact List.cons_ne_nil _ _

theorem Agree.resolve (h : labels.Agree labels') (path : List Char) (line : String) :
    labels.resolve path line = labels'.resolve path line := by
  rw [Labels.resolve, Labels.resolve, h.segment fun _ ↦ isPart_of_mem_pathParts]

theorem Agree.insert (h : labels.Agree labels') (key name : String) :
    Agree (Dictionary.insert labels key name) (Dictionary.insert labels' key name) := by
  intro parts hne hparts
  rw [Dictionary.insert, Dictionary.insert, Dictionary.get?_alter, Dictionary.get?_alter,
    h parts hne hparts]

theorem Agree.add (h : labels.Agree labels') (label : List Char) :
    (labels.add label).Agree (labels'.add label) := by
  rw [Labels.add, Labels.add]
  split
  · split
    · exact h.insert _ _
    · split
      · exact (h.insert _ _).insert _ _
      · exact h.insert _ _
  · exact h.insert _ _

theorem Agree.addAll (h : labels.Agree labels') (list : List (List Char)) :
    (list.foldl Labels.add labels).Agree (list.foldl Labels.add labels') := by
  induction list generalizing labels labels' with
  | nil => exact h
  | cons label list ih => exact ih (h.add label)

theorem Agree.addPersons (h : labels.Agree labels') : labels.addPersons.Agree labels'.addPersons :=
  ((h.insert _ _).insert _ _).insert _ _

/-- **What is entered under the abbreviation of a label is never found** if a word without capitals
comes before one with some. -/
theorem agree_add (h : IsPlain (trim label)) (hlead : ¬CapitalsLead (trim label))
    (labels : Labels) : (labels.add label).Agree labels := by
  intro parts hne hparts
  rw [add_eq_addName h, addName, Dictionary.insert, Dictionary.get?_alter, if_neg]
  intro heq
  -- The full stops of the abbreviation would be those of the path.
  have hjoin : parts = (parts.map String.toList).map String.ofList := by
    simp [List.map_map, Function.comp_def]
  rw [hjoin, joinParts_map_ofList, abbreviate_eq h, ← String.toList_inj, String.toList_ofList,
    String.toList_ofList] at heq
  have hpieces : parts.map String.toList = pieces (trim label) := by
    have hnil : pieces (trim label) ≠ [] := fun hnil ↦
      hlead (capitalsLead_of_pieces (by rw [hnil]; exact fun _ h ↦ absurd h List.not_mem_nil))
    have hsplit := congrArg (List.splitOn '.') heq
    rwa [List.splitOn_intercalate _ (List.forall_mem_map.2 fun part hpart ↦ (hparts part hpart).2)
      (by simpa using hne), List.splitOn_intercalate _ (fun _ ↦ dot_notMem_of_mem_pieces) hnil]
      at hsplit
  refine hlead (capitalsLead_of_pieces ?_)
  rw [← hpieces, List.forall_mem_map]
  exact fun part hpart hempty ↦ (hparts part hpart).1 (String.toList_inj.1 hempty)

/-! ## What is entered -/

/-- A label is entered under its abbreviation, if no other has the same. -/
theorem get?_foldl_add {list : List (List Char)} (hplain : ∀ label ∈ list, IsPlain (trim label))
    (hnodup : (list.map fun label ↦ abbreviate (trim label)).Nodup) (hlabel : label ∈ list)
    (labels : Labels) :
    (list.foldl Labels.add labels).get? (String.ofList (abbreviate (trim label)))
      = some (String.ofList (capitalize (trim label))) := by
  induction list using List.reverseRecOn with
  | nil => exact absurd hlabel List.not_mem_nil
  | append_singleton list last ih =>
    obtain ⟨hlist, hlast⟩ := List.forall_mem_append.1 hplain
    rw [List.map_append, List.nodup_append] at hnodup
    rw [List.foldl_concat, add_eq_addName (hlast last (List.mem_singleton_self last)), addName,
      Dictionary.insert, Dictionary.get?_alter]
    rcases List.mem_append.1 hlabel with hlabel | hlabel
    · have hne : String.ofList (abbreviate (trim label))
          ≠ String.ofList (abbreviate (trim last)) := by
        rw [Ne, ← String.toList_inj, String.toList_ofList, String.toList_ofList]
        exact hnodup.2.2 _ (List.mem_map_of_mem hlabel) _ (List.mem_map_of_mem
          (List.mem_singleton_self last))
      rw [if_neg hne, ih hlist hnodup.1 hlabel]
    · rw [List.mem_singleton.1 hlabel, if_pos rfl]

/-- The persons of pronouns are entered under digits. -/
theorem get?_addPersons {key : String} (h : ∀ c ∈ key.toList, isAsciiDigit c = false)
    (labels : Labels) : labels.addPersons.get? key = labels.get? key := by
  have hne {d : Char} (hd : isAsciiDigit d = true) : key ≠ d.toString := by
    rintro rfl
    rw [h d (by simp)] at hd
    cases hd
  have hinsert (labels : Labels) {d : Char} (hd : isAsciiDigit d = true) (name : String) :
      Dictionary.get? (Dictionary.insert labels d.toString name) key = labels.get? key := by
    rw [Dictionary.insert, Dictionary.get?_alter, if_neg (hne hd)]
  exact (hinsert _ rfl _).trans ((hinsert _ rfl _).trans (hinsert _ rfl _))

theorem isAsciiDigit_eq_false_of_mem_abbreviate (h : IsPlain label) (hc : c ∈ abbreviate label) :
    isAsciiDigit c = false := by
  rw [abbreviate_eq h] at hc
  rcases of_mem_intercalate_pieces hc with rfl | hcapital
  · rfl
  · refine of_isPlainLetter (P := fun c ↦ isAsciiDigit c = false) (by decide) ?_
    rw [isPlainLetter, hcapital, Bool.true_or]

end Labels

end Glossopoeia
