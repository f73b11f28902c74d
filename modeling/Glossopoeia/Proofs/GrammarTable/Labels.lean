import Glossopoeia.GrammarTable.Label
import Glossopoeia.Lexicon.Entry
import Glossopoeia.Proofs.Dictionary

/-!
# Labels are no roots

A declined form is told from a root by its labels, so no table may name a form `root`.  None can:
the names that labels stand for are capitalised, or are ordinals, and so none of them begins with a
small `r`; what a path resolves to begins as the first of its names does (`isProper_of_resolve`).

That no capital is a small `r` is read off the tables of case pairs, run by run.
-/

set_option autoImplicit false

namespace Glossopoeia

open Text

namespace Text

/-! ## Capitals -/

theorem eq_of_ofNat_eq_r {n : Nat} (h : Char.ofNat n = 'r') : n = 0x72 := by
  by_cases hvalid : n.isValidChar
  · have hn : Char.ofNat n = Char.ofNatAux n hvalid := dif_pos hvalid
    exact congrArg Char.toNat (hn.symm.trans h)
  · have hzero : Char.ofNat n = '\x00' := dif_neg hvalid
    exact absurd (hzero.symm.trans h) (by decide)

/-- A run that leads to a small `r` begins at it or before it, and goes on for as long. -/
theorem CaseRun.apply_ne_r (c : Char) : CaseRun.apply upperRuns c ≠ 'r' := by
  have hnone : ∀ run ∈ upperRuns, run.target ≤ 0x72 → run.target + (run.last - run.first) < 0x72 :=
    by decide +kernel
  rw [CaseRun.apply]
  split
  · next run hrun =>
    intro heq
    have hcovers := List.find?_some hrun
    have htarget := eq_of_ofNat_eq_r heq
    have hlast := hnone run (List.mem_of_find?_eq_some hrun)
    simp only [covers, Bool.and_eq_true, decide_eq_true_eq] at hcovers
    omega
  · next hrun =>
    rintro rfl
    exact absurd hrun (by decide)

theorem mem_upperExpansions {c : Char} {codes : List Nat}
    (h : upperExpansions.lookup c.toNat = some codes) : (c.toNat, codes) ∈ upperExpansions := by
  obtain ⟨before, after, heq, _⟩ := List.lookup_eq_some_iff.1 h
  exact heq ▸ List.mem_append_right _ (List.mem_cons_self ..)

theorem head?_upperChar_ne_r (c : Char) : (upperChar c).head? ≠ some 'r' := by
  have hnone : ∀ e ∈ upperExpansions, e.2.head? ≠ some 0x72 := by decide
  rw [upperChar]
  split
  · next codes hcodes =>
    rw [List.head?_map]
    intro h
    obtain ⟨n, hn, hr⟩ := Option.map_eq_some_iff.1 h
    exact hnone _ (mem_upperExpansions hcodes) (eq_of_ofNat_eq_r hr ▸ hn)
  · exact fun h ↦ CaseRun.apply_ne_r c (Option.some.inj h)

theorem upperChar_ne_nil (c : Char) : upperChar c ≠ [] := by
  have hnone : ∀ e ∈ upperExpansions, e.2 ≠ [] := by decide
  rw [upperChar]
  split
  · next codes hcodes =>
    rw [Ne, List.map_eq_nil_iff]
    exact hnone _ (mem_upperExpansions hcodes)
  · exact List.cons_ne_nil _ _

theorem head?_capitalize_ne_r (cs : List Char) : (capitalize cs).head? ≠ some 'r' := by
  cases cs with
  | nil => exact fun h ↦ nomatch h
  | cons c rest =>
    obtain ⟨u, us, hupper⟩ := List.exists_cons_of_ne_nil (upperChar_ne_nil c)
    have hu := head?_upperChar_ne_r c
    rw [hupper] at hu
    rw [capitalize, hupper]
    exact hu

end Text

namespace Labels

/-! ## Names -/

/-- Does a name begin with something else than a small `r`? -/
def IsProper (name : String) : Prop := name.toList.head? ≠ some 'r'

instance : DecidablePred IsProper := fun _ ↦ inferInstanceAs (Decidable (_ ≠ _))

theorem not_isProper_rootLabel : ¬IsProper LexiconEntry.rootLabel := by decide

/-- No label of a table stands for a name that begins with a small `r`. -/
def AreProper (labels : Labels) : Prop := ∀ name ∈ labels.values, IsProper name

theorem areProper_empty : AreProper Dictionary.empty :=
  fun _ h ↦ absurd h Dictionary.not_mem_values_empty

variable {labels : Labels}

theorem AreProper.insert (h : labels.AreProper) {name : String} (hname : IsProper name)
    (key : String) : AreProper (Dictionary.insert labels key name) := by
  intro name' hname'
  rcases Dictionary.mem_values_insert hname' with hold | rfl
  · exact h name' hold
  · exact hname

theorem AreProper.addName (h : labels.AreProper) (label : List Char) :
    (labels.addName label).AreProper := by
  refine h.insert ?_ _
  rw [IsProper, String.toList_ofList]
  exact head?_capitalize_ne_r label

theorem head?_ordinal {d : Char} (hd : d ≠ 'r') : (ordinal [d]).head? ≠ some 'r' := by
  have htrim : trim [d] = [] ∨ trim [d] = [d] := by
    rw [trim, trimLeft, trimRight]
    by_cases hblank : isBlank d <;> simp [hblank]
  rw [ordinal]
  split
  · decide
  · split
    · decide
    · split
      · decide
      · rcases htrim with htrim | htrim <;> rw [htrim]
        · decide
        · exact fun h ↦ hd (Option.some.inj h)

theorem AreProper.addOrdinal (h : labels.AreProper) {d : Char} (hd : d ≠ 'r') :
    (labels.addOrdinal d).AreProper := by
  refine h.insert ?_ _
  rw [IsProper, String.toList_ofList]
  exact head?_ordinal hd

theorem ne_r_of_leadingOrdinal {label rest : List Char} {d : Char}
    (h : leadingOrdinal label = some (d, rest)) : d ≠ 'r' := by
  rw [leadingOrdinal] at h
  split at h
  · split at h
    · next hdigit =>
      cases h
      rw [Bool.and_eq_true] at hdigit
      rintro rfl
      exact absurd hdigit.1 (by decide)
    · cases h
  · cases h

theorem AreProper.add (h : labels.AreProper) (label : List Char) :
    (labels.add label).AreProper := by
  rw [Labels.add]
  split
  · next d rest hordinal =>
    have hd := h.addOrdinal (ne_r_of_leadingOrdinal hordinal)
    split
    · exact hd
    · split
      · exact hd.addName _
      · exact h.addName _
  · exact h.addName _

theorem AreProper.addAll (h : labels.AreProper) (list : List (List Char)) :
    (list.foldl Labels.add labels).AreProper :=
  List.foldlRecOn (motive := AreProper) list _ h fun _ hlabels label _ ↦ hlabels.add label

theorem AreProper.addPersons (h : labels.AreProper) : labels.addPersons.AreProper := by
  have hperson : ∀ d ∈ ['1', '2', '3'],
      IsProper (String.ofList (ordinal [d] ++ " Person".toList)) := by
    rw [List.forall_mem_cons, List.forall_mem_cons, List.forall_mem_singleton]
    decide
  exact List.foldlRecOn (motive := AreProper) _ _ h fun labels hlabels d hd ↦
    hlabels.insert (hperson d hd) _

/-! ## What paths resolve to -/

theorem mem_values_of_longest? {parts : List String} {n m : Nat} {name : String}
    (h : labels.longest? parts n = some (name, m)) : name ∈ labels.values := by
  induction n with
  | zero => cases h
  | succ n ih =>
    rw [longest?] at h
    split at h
    · next hget =>
      cases h
      exact Dictionary.mem_values_of_get? hget
    · exact ih h

/-- The names that parts resolve to are names of labels. -/
theorem mem_values_of_segment {fuel : Nat} {parts list : List String}
    (h : labels.segment fuel parts = .names list) : ∀ name ∈ list, name ∈ labels.values := by
  induction fuel generalizing parts list with
  | zero =>
    cases parts with
    | nil =>
      cases h
      exact fun _ hname ↦ absurd hname List.not_mem_nil
    | cons => cases h
  | succ fuel ih =>
    cases parts with
    | nil =>
      cases h
      exact fun _ hname ↦ absurd hname List.not_mem_nil
    | cons part parts =>
      rw [segment] at h
      · split at h
        · cases h
        · next name n hlongest =>
          split at h
          · next rest hrest =>
            cases h
            rw [List.forall_mem_cons]
            exact ⟨mem_values_of_longest? hlongest, ih hrest⟩
          · cases h
      · exact List.cons_ne_nil _ _

/-- What begins the first of two texts begins both, and what begins the second if the first is
empty. -/
theorem isProper_append {a b : String} (ha : IsProper a) (hb : IsProper b) :
    IsProper (a ++ b) := by
  rw [IsProper] at ha hb
  rw [IsProper, String.toList_append]
  cases hchars : a.toList with
  | nil => exact hb
  | cons c cs =>
    rw [hchars] at ha
    exact ha

theorem isProper_intercalate {list : List String} (h : ∀ name ∈ list, IsProper name) :
    IsProper (String.intercalate " " list) := by
  induction list with
  | nil => decide
  | cons name rest ih =>
    rw [List.forall_mem_cons] at h
    cases rest with
    | nil => simpa using h.1
    | cons next rest =>
      rw [String.intercalate_cons_cons]
      exact isProper_append (isProper_append h.1 (by decide)) (ih h.2)

/-- **No path resolves to a name that begins with a small `r`.** -/
theorem AreProper.isProper_of_resolve (h : labels.AreProper) {path : List Char}
    {line declension : String} (hresolve : labels.resolve path line = .ok declension) :
    IsProper declension := by
  rw [resolve] at hresolve
  split at hresolve
  · next list hlist =>
    cases hresolve
    exact isProper_intercalate fun name hname ↦ h name (mem_values_of_segment hlist name hname)
  · cases hresolve

end Labels

end Glossopoeia
