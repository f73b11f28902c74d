import Glossopoeia.Proofs.Text.Blank

/-!
# Cutting at a separator

What the cuts of `Glossopoeia.Text` make of a text with one separator in it.  Trimming such a text
trims its two sides from the outside (`trim_append_cons`), so it does not matter whether a text is
trimmed before it is cut or after.  The same holds of a text with many separators, if each of its
pieces is trimmed (`map_trim_split_trim`).
-/

set_option autoImplicit false

namespace Glossopoeia.Text

variable {a b : List Char} {sep : Char}

/-! ## Trimming -/

/-- What is dropped ends at a character that is not. -/
theorem dropWhile_append_cons {p : Char → Bool} (hsep : p sep = false) (a b : List Char) :
    (a ++ sep :: b).dropWhile p = a.dropWhile p ++ sep :: b := by
  rw [List.dropWhile_append]
  split
  · next hnil =>
    rw [List.dropWhile_cons_of_neg (by simp [hsep]), List.isEmpty_iff.1 hnil]
    rfl
  · rfl

theorem takeWhile_append_cons {p : Char → Bool} (hsep : p sep = false) (a b : List Char) :
    (a ++ sep :: b).takeWhile p = a.takeWhile p := by
  rw [List.takeWhile_append, List.takeWhile_cons_of_neg (by simp [hsep]), List.append_nil]
  split
  · next hall => exact ((List.takeWhile_prefix p).eq_of_length hall).symm
  · rfl

theorem drop_length_takeWhile (p : Char → Bool) (cs : List Char) :
    cs.drop (cs.takeWhile p).length = cs.dropWhile p :=
  (congrArg (List.drop _) List.takeWhile_append_dropWhile.symm).trans List.drop_left

theorem takeWhile_dropWhile_append_cons {p : Char → Bool} (ha : ∀ c ∈ a, p c = true)
    (hsep : p sep = false) (b : List Char) :
    (a ++ sep :: b).takeWhile p = a ∧ (a ++ sep :: b).dropWhile p = sep :: b := by
  rw [takeWhile_append_cons hsep, dropWhile_append_cons hsep, List.takeWhile_eq_self_iff.2 ha,
    List.dropWhile_eq_nil_iff.2 ha]
  exact ⟨rfl, rfl⟩

/-- A run ends where the text ends, or at a character that does not belong to it. -/
theorem takeWhile_dropWhile_append {p : Char → Bool} (ha : ∀ c ∈ a, p c = true)
    (hb : ∀ c ∈ b.head?, p c = false) :
    (a ++ b).takeWhile p = a ∧ (a ++ b).dropWhile p = b := by
  cases b with
  | nil => simpa using ha
  | cons c b => exact takeWhile_dropWhile_append_cons ha (hb c rfl) b

theorem trimLeft_append_cons (a b : List Char) (hsep : isBlank sep = false) :
    trimLeft (a ++ sep :: b) = trimLeft a ++ sep :: b := dropWhile_append_cons hsep a b

theorem trimRight_append_cons (a b : List Char) (hsep : isBlank sep = false) :
    trimRight (a ++ sep :: b) = a ++ sep :: trimRight b := by
  have hreverse : (a ++ sep :: b).reverse = b.reverse ++ sep :: a.reverse := by simp
  rw [trimRight, hreverse, ← trimLeft, trimLeft_append_cons _ _ hsep]
  simp [trimRight, trimLeft]

/-- A text with a separator is trimmed from both ends. -/
theorem trim_append_cons (a b : List Char) (hsep : isBlank sep = false) :
    trim (a ++ sep :: b) = trimLeft a ++ sep :: trimRight b := by
  rw [trim, trimLeft_append_cons a b hsep, trimRight_append_cons _ b hsep]

theorem trimLeft_trimLeft (cs : List Char) : trimLeft (trimLeft cs) = trimLeft cs :=
  List.dropWhile_idempotent ..

theorem trim_trimLeft (cs : List Char) : trim (trimLeft cs) = trim cs := by
  rw [trim, trimLeft_trimLeft, trim]

theorem trim_trimRight (cs : List Char) : trim (trimRight cs) = trim cs := by
  by_cases hblank : ∀ c ∈ cs, isBlank c = true
  · have hnil : trim cs = [] := trim_eq_nil_iff.2 (List.all_eq_true.2 hblank)
    rw [trimRight_of_allBlank (allBlank_iff.2 hblank), hnil]
    rfl
  · -- A solid character parts what is trimmed at one end from what is trimmed at the other.
    obtain ⟨c, hc, hsolid⟩ : ∃ c ∈ cs, isBlank c = false := by simpa using hblank
    obtain ⟨a, b, rfl⟩ := List.append_of_mem hc
    rw [trimRight_append_cons a b hsolid, trim_append_cons _ _ hsolid, trim_append_cons _ _ hsolid,
      trimRight_eq_rdropWhile, trimRight_eq_rdropWhile, List.rdropWhile_idempotent]

theorem exists_cons_of_trimLeft_eq {kept : List Char} (hne : kept ≠ [])
    (hkept : trimLeft kept = kept) : ∃ c rest, kept = c :: rest ∧ isBlank c = false := by
  obtain ⟨c, rest, rfl⟩ := List.exists_cons_of_ne_nil hne
  exact ⟨c, rest, rfl, by simpa using List.dropWhile_eq_self_iff.1 hkept (Nat.zero_lt_succ _)⟩

/-- A trimmed text keeps what is behind it from being trimmed from the left. -/
theorem trimLeft_append_append {kept : List Char} (hne : kept ≠ []) (hkept : trimLeft kept = kept)
    (a b : List Char) : trimLeft (a ++ kept ++ b) = trimLeft a ++ kept ++ b := by
  obtain ⟨c, rest, rfl, hc⟩ := exists_cons_of_trimLeft_eq hne hkept
  rw [List.append_assoc, List.cons_append, trimLeft_append_cons _ _ hc]
  simp

/-- A trimmed text keeps what is before it from being trimmed from the right. -/
theorem trimRight_append_append {kept : List Char} (hne : kept ≠ [])
    (hkept : trimRight kept = kept) (a b : List Char) :
    trimRight (a ++ kept ++ b) = a ++ kept ++ trimRight b := by
  obtain rfl | ⟨kept, c, rfl⟩ := kept.eq_nil_or_concat'
  · exact absurd rfl hne
  · have hc : isBlank c = false := by
      simpa using List.rdropWhile_eq_self_iff.1 hkept
    have hassoc : a ++ (kept ++ [c]) ++ b = (a ++ kept) ++ c :: b := by simp
    rw [hassoc, trimRight_append_cons _ _ hc]
    simp

/-- What ends with a trimmed text is trimmed on that side. -/
theorem trimRight_append_of_trimRight_eq {kept : List Char} (hne : kept ≠ [])
    (hkept : trimRight kept = kept) (a : List Char) : trimRight (a ++ kept) = a ++ kept := by
  have h := trimRight_append_append hne hkept a []
  rwa [List.append_nil, show trimRight [] = [] from rfl, List.append_nil] at h

/-- Blanks on both sides of a trimmed text are trimmed away. -/
theorem trim_append_append {gap kept gap' : List Char} (hgap : allBlank gap)
    (hgap' : allBlank gap') (hkept : trim kept = kept) : trim (gap ++ kept ++ gap') = kept := by
  rw [← trim_trimRight, trimRight_append hgap', trim_trimRight, trim, trimLeft_append hgap, ← trim,
    hkept]

/-- Blanks after a solid text are trimmed away. -/
theorem Solid.trim_append {run gap : List Char} (hrun : Solid run) (hgap : allBlank gap) :
    trim (run ++ gap) = run :=
  @trim_append_append [] run gap rfl hgap hrun.trim_eq

/-- Trimming the end leaves the first character that is not blank. -/
theorem head?_trim (cs : List Char) : (trim cs).head? = (trimLeft cs).head? := by
  rw [trim]
  cases hleft : trimLeft cs with
  | nil => rfl
  | cons c rest =>
    have hc : isBlank c = false := isBlank_of_trimLeft_eq_cons hleft
    rw [← List.nil_append (c :: rest), trimRight_append_cons [] rest hc]
    rfl

/-! ## Cuts -/

theorem cut_append_cons (ha : sep ∉ a) (b : List Char) : cut sep (a ++ sep :: b) = some (a, b) := by
  induction a with
  | nil => simp [cut]
  | cons c a ih =>
    obtain ⟨hc, ha⟩ := List.ne_and_not_mem_of_not_mem_cons ha
    rw [List.cons_append, cut, if_neg (Ne.symm hc), ih ha]
    rfl

theorem cut_eq_some_iff {cs : List Char} :
    cut sep cs = some (a, b) ↔ cs = a ++ sep :: b ∧ sep ∉ a := by
  constructor
  · intro h
    induction cs generalizing a with
    | nil => cases h
    | cons c rest ih =>
      rw [cut] at h
      split at h
      · next heq =>
        cases h
        exact ⟨heq ▸ rfl, List.not_mem_nil⟩
      · next hne =>
        obtain ⟨⟨front, back⟩, hcut, heq⟩ := Option.map_eq_some_iff.1 h
        cases heq
        obtain ⟨rfl, hfront⟩ := ih hcut
        exact ⟨rfl, by simp [hfront, Ne.symm hne]⟩
  · rintro ⟨rfl, ha⟩
    exact cut_append_cons ha b

theorem cut_eq_none {cs : List Char} (h : sep ∉ cs) : cut sep cs = none := by
  rw [Option.eq_none_iff_forall_ne_some]
  rintro ⟨front, back⟩ hcut
  exact h ((cut_eq_some_iff.1 hcut).1 ▸ List.mem_append_right _ (List.mem_cons_self ..))

theorem cutLast_eq_some_iff {cs : List Char} :
    cutLast sep cs = some (a, b) ↔ cs = a ++ sep :: b ∧ sep ∉ b := by
  rw [cutLast, Option.map_eq_some_iff]
  constructor
  · rintro ⟨⟨back, front⟩, hcut, heq⟩
    cases heq
    obtain ⟨hcs, hback⟩ := cut_eq_some_iff.1 hcut
    refine ⟨?_, by simpa using hback⟩
    rw [← List.reverse_reverse cs, hcs]
    simp
  · rintro ⟨rfl, hb⟩
    refine ⟨(b.reverse, a.reverse), cut_eq_some_iff.2 ⟨by simp, by simpa using hb⟩, by simp⟩

/-- What stands behind some separator stands behind the first one too. -/
theorem suffix_of_append_cons_eq {a' b' : List Char} (h : a ++ sep :: b = a' ++ sep :: b')
    (ha : sep ∉ a) : b' <:+ b := by
  rcases List.append_eq_append_iff.1 h with ⟨_ | ⟨c, more⟩, rfl, heq⟩ | ⟨_ | ⟨c, more⟩, rfl, heq⟩
  · exact (List.cons.inj heq).2 ▸ List.suffix_refl _
  · exact ⟨more ++ [sep], by simpa using (List.cons.inj heq).2.symm⟩
  · exact (List.cons.inj heq).2 ▸ List.suffix_refl _
  · exact absurd ((List.cons.inj heq).1 ▸ List.mem_append_right _ (List.mem_cons_self ..)) ha

theorem exists_cut_eq_some {cs : List Char} (h : sep ∈ cs) : ∃ sides, cut sep cs = some sides := by
  obtain ⟨front, back, rfl, hfront⟩ := List.eq_append_cons_of_mem h
  exact ⟨_, cut_append_cons hfront back⟩

theorem exists_cutLast_eq_some {cs : List Char} (h : sep ∈ cs) :
    ∃ sides, cutLast sep cs = some sides := by
  obtain ⟨sides, hcut⟩ := exists_cut_eq_some (List.mem_reverse.2 h)
  exact ⟨_, congrArg _ hcut⟩

theorem before_of_notMem (ha : sep ∉ a) : before sep a = a :=
  List.takeWhile_eq_self_iff.2 fun c hc ↦ by simpa using ne_of_mem_of_not_mem hc ha

theorem before_append_cons (ha : sep ∉ a) (b : List Char) : before sep (a ++ sep :: b) = a := by
  rw [before, takeWhile_append_cons (by simp), ← before, before_of_notMem ha]

/-- Without a separator the whole text stands before it. -/
theorem before_eq_getD_cut (sep : Char) (cs : List Char) :
    before sep cs = ((cut sep cs).map Prod.fst).getD cs := by
  cases hcut : cut sep cs with
  | none =>
    have hsep : sep ∉ cs := fun hmem ↦ by
      obtain ⟨sides, hsides⟩ := exists_cut_eq_some hmem
      cases hcut.symm.trans hsides
    exact before_of_notMem hsep
  | some sides =>
    obtain ⟨rfl, hsep⟩ := cut_eq_some_iff.1 hcut
    exact before_append_cons hsep sides.2

theorem beq_sep_eq_false (ha : sep ∉ a) : ∀ c ∈ a, (c == sep) = false := by
  rintro c hc
  rw [beq_eq_false_iff_ne]
  rintro rfl
  exact ha hc

theorem split_append_cons (ha : sep ∉ a) (b : List Char) :
    split sep (a ++ sep :: b) = a :: split sep b :=
  List.splitOnP_append_cons_of_forall_mem (beq_sep_eq_false ha) sep (beq_self_eq_true sep) b

theorem split_of_notMem (ha : sep ∉ a) : split sep a = [a] :=
  List.splitOnP_eq_singleton (beq_sep_eq_false ha)

theorem notMem_of_mem_split {cs piece : List Char} (h : piece ∈ split sep cs) : sep ∉ piece := by
  by_cases hmem : sep ∈ cs
  · obtain ⟨a, b, rfl, ha⟩ := List.eq_append_cons_of_mem hmem
    rw [split_append_cons ha] at h
    rcases List.mem_cons.1 h with rfl | h
    · exact ha
    · exact notMem_of_mem_split h
  · rw [split_of_notMem hmem] at h
    exact List.mem_singleton.1 h ▸ hmem
termination_by cs.length

/-- There is one more piece than there are separators. -/
theorem length_split (sep : Char) (cs : List Char) :
    (split sep cs).length = cs.count sep + 1 := by
  by_cases hmem : sep ∈ cs
  · obtain ⟨a, b, rfl, ha⟩ := List.eq_append_cons_of_mem hmem
    rw [split_append_cons ha, List.length_cons, length_split sep b, List.count_append,
      List.count_eq_zero_of_not_mem ha, List.count_cons_self, Nat.zero_add]
  · rw [split_of_notMem hmem, List.count_eq_zero_of_not_mem hmem]
    rfl
termination_by cs.length

theorem map_trim_split_trimLeft (hsep : isBlank sep = false) (cs : List Char) :
    (split sep (trimLeft cs)).map trim = (split sep cs).map trim := by
  by_cases hmem : sep ∈ cs
  · obtain ⟨a, b, rfl, ha⟩ := List.eq_append_cons_of_mem hmem
    have ha' : sep ∉ trimLeft a := fun h ↦ ha ((List.dropWhile_suffix isBlank).subset h)
    rw [trimLeft_append_cons a b hsep, split_append_cons ha', split_append_cons ha, List.map_cons,
      List.map_cons, trim_trimLeft]
  · have hmem' : sep ∉ trimLeft cs := fun h ↦ hmem ((List.dropWhile_suffix isBlank).subset h)
    rw [split_of_notMem hmem', split_of_notMem hmem, List.map_singleton, List.map_singleton,
      trim_trimLeft]

theorem map_trim_split_trimRight (hsep : isBlank sep = false) (cs : List Char) :
    (split sep (trimRight cs)).map trim = (split sep cs).map trim := by
  by_cases hmem : sep ∈ cs
  · obtain ⟨a, b, rfl, ha⟩ := List.eq_append_cons_of_mem hmem
    rw [trimRight_append_cons a b hsep, split_append_cons ha, split_append_cons ha, List.map_cons,
      List.map_cons, map_trim_split_trimRight hsep b]
  · have hmem' : sep ∉ trimRight cs := fun h ↦ hmem ((List.rdropWhile_prefix isBlank _).subset h)
    rw [split_of_notMem hmem', split_of_notMem hmem, List.map_singleton, List.map_singleton,
      trim_trimRight]
termination_by cs.length

/-- **Pieces that are trimmed anyway need not be trimmed before.** -/
theorem map_trim_split_trim (hsep : isBlank sep = false) (cs : List Char) :
    (split sep (trim cs)).map trim = (split sep cs).map trim := by
  rw [trim, map_trim_split_trimRight hsep, map_trim_split_trimLeft hsep]

/-- Trimmed pieces come back from a text in which they are set apart by blanks as well. -/
theorem map_trim_split_intercalate (hsep : isBlank sep = false) {pieces : List (List Char)}
    (hne : pieces ≠ []) (h : ∀ piece ∈ pieces, trim piece = piece ∧ sep ∉ piece) :
    (split sep ([sep, ' '].intercalate pieces ++ [' '])).map trim = pieces := by
  induction pieces with
  | nil => exact absurd rfl hne
  | cons piece pieces ih =>
    obtain ⟨⟨htrim, hmem⟩, hpieces⟩ := List.forall_mem_cons.1 h
    cases pieces with
    | nil =>
      have hspace : sep ∉ [' '] := by
        rw [List.mem_singleton]
        rintro rfl
        cases hsep
      rw [List.intercalate_singleton, split_of_notMem (by simp [hmem, hspace]), List.map_singleton]
      exact congrArg ([·]) (@trim_append_append [] piece [' '] rfl rfl htrim)
    | cons next pieces =>
      have htext : [sep, ' '].intercalate (piece :: next :: pieces) ++ [' ']
          = piece ++ sep :: (' ' :: ([sep, ' '].intercalate (next :: pieces) ++ [' '])) := by
        rw [List.intercalate_cons_cons]
        simp
      rw [htext, split_append_cons hmem, List.map_cons, htrim, ← map_trim_split_trimLeft hsep,
        ← List.singleton_append (x := ' '), trimLeft_append rfl, map_trim_split_trimLeft hsep,
        ih (List.cons_ne_nil _ _) hpieces]

theorem notMem_intercalate {c : Char} {between : List Char} (hbetween : c ∉ between)
    {pieces : List (List Char)} (h : ∀ piece ∈ pieces, c ∉ piece) :
    c ∉ between.intercalate pieces := by
  induction pieces with
  | nil => simp
  | cons piece pieces ih =>
    obtain ⟨hpiece, hpieces⟩ := List.forall_mem_cons.1 h
    cases pieces with
    | nil => simpa using hpiece
    | cons next pieces =>
      rw [List.intercalate_cons_cons]
      simp [hpiece, hbetween, ih hpieces]

theorem intercalate_append_singleton {pieces : List (List Char)} (hne : pieces ≠ [])
    (between last : List Char) :
    between.intercalate (pieces ++ [last]) = between.intercalate pieces ++ between ++ last := by
  induction pieces with
  | nil => exact absurd rfl hne
  | cons piece pieces ih =>
    by_cases hnil : pieces = []
    · simp [hnil]
    · have hne' : pieces ++ [last] ≠ [] := by simp
      rw [List.cons_append, List.intercalate_cons_of_ne_nil hne', ih hnil,
        List.intercalate_cons_of_ne_nil hnil, List.append_assoc, List.append_assoc,
        List.append_assoc, List.append_assoc, List.append_assoc]

/-- To drop the separators at the end is to leave out the pieces there that are empty. -/
theorem rdropWhile_intercalate {pieces : List (List Char)} (h : ∀ piece ∈ pieces, sep ∉ piece) :
    ([sep].intercalate pieces).rdropWhile (· == sep)
      = [sep].intercalate (pieces.rdropWhile (·.isEmpty)) := by
  induction pieces using List.reverseRecOn with
  | nil => rfl
  | append_singleton pieces last ih =>
    obtain ⟨hpieces, hlast⟩ := List.forall_mem_append.1 h
    have hlast := hlast last (List.mem_singleton_self last)
    by_cases hempty : last = []
    · subst hempty
      rw [List.rdropWhile_concat_pos _ _ _ rfl, ← ih hpieces]
      by_cases hnil : pieces = []
      · rw [hnil]
        rfl
      · rw [intercalate_append_singleton hnil, List.append_nil]
        exact List.rdropWhile_concat_pos _ _ _ (beq_self_eq_true sep)
    · rw [List.rdropWhile_concat_neg _ _ _ (by simpa using hempty), List.rdropWhile_eq_self_iff]
      intro hne
      have hend : last <:+ [sep].intercalate (pieces ++ [last]) := by
        by_cases hnil : pieces = []
        · simp [hnil]
        · rw [intercalate_append_singleton hnil]
          exact List.suffix_append _ _
      rw [← hend.getLast hempty, beq_iff_eq]
      exact fun heq ↦ hlast (heq ▸ List.getLast_mem hempty)

/-- What is true only at the end of a list is filtered out there. -/
theorem rdropWhile_eq_filter {α : Type} {p : α → Bool} {list : List α}
    (h : list.Pairwise fun a b ↦ p b = false → p a = false) :
    list.rdropWhile p = list.filter (!p ·) := by
  induction list using List.reverseRecOn with
  | nil => rfl
  | append_singleton list a ih =>
    obtain ⟨hlist, -, hlast⟩ := List.pairwise_append.1 h
    by_cases ha : p a = true
    · rw [List.rdropWhile_concat_pos _ _ _ ha, ih hlist, List.filter_append]
      simp [ha]
    · rw [List.rdropWhile_concat_neg _ _ _ ha, eq_comm, List.filter_eq_self]
      intro b hb
      rcases List.mem_append.1 hb with hb | hb
      · simp [hlast b hb a (List.mem_singleton_self a) (by simpa using ha)]
      · simpa [List.mem_singleton.1 hb] using ha

theorem stripStart_eq_some_iff {start cs rest : List Char} :
    stripStart start cs = some rest ↔ cs = start ++ rest := by
  induction start generalizing cs with
  | nil => simp [stripStart, eq_comm]
  | cons p ps ih =>
    cases cs with
    | nil => simp [stripStart]
    | cons c cs =>
      rw [stripStart, List.cons_append, List.cons.injEq]
      split
      · next heq => rw [ih, and_iff_right heq.symm]
      · next hne => simp [Ne.symm hne]

/-- A part is looked for at each place of a text. -/
theorem contains_eq_true_iff {part cs : List Char} : contains part cs = true ↔ part <:+: cs := by
  induction cs with
  | nil => rw [contains, List.isEmpty_iff, List.infix_nil]
  | cons c rest ih =>
    rw [contains, Bool.or_eq_true, ih, List.infix_cons_iff, Option.isSome_iff_exists]
    exact or_congr_left (exists_congr fun _ ↦ stripStart_eq_some_iff.trans eq_comm)

end Glossopoeia.Text
