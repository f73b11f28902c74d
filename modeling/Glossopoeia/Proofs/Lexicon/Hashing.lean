import Mathlib.Data.List.Basic
import Glossopoeia.Proofs.Lexicon.Dedup

/-!
# Deduplication as a choice of entries, and with a hash table

`dedupLexicon` keeps exactly the entries that have not the value of an earlier one
(`dedupFrom_eq_filter_zipIdx`).  That is a property of the list alone, whatever has been kept so
far; that each value then occurs once, and that a list may be deduplicated in pieces, follow from it
and from what `dedupFrom` does to values.

The values seen may as well be kept in a hash table of the entries.  The hash need not see all that
the value has: it may leave out the spelling, as long as entries of one value have one hash
(`HashedEntry`).  With any such hash the same entries are kept (`dedupHashed_eq`).
-/

set_option autoImplicit false

namespace Glossopoeia

open LexiconEntry

/-! ## Entries without an earlier one of their value -/

/-- Has an entry among the first `i` the value of `e`? -/
def hasEarlier (entries : List LexiconEntry) (i : Nat) (e : LexiconEntry) : Bool :=
  (entries.take i).any (·.sameValue e)

theorem any_sameValue {entries : List LexiconEntry} {e : LexiconEntry} :
    entries.any (·.sameValue e) = (entries.map value).contains e.value := by
  rw [Bool.eq_iff_iff, List.any_eq_true, List.contains_iff_mem, List.mem_map]
  simp only [sameValue_iff]

/-- After `before`, the entries kept are those without an earlier one of their value. -/
theorem dedupFrom_eq_filter_zipIdx (before entries : List LexiconEntry) :
    dedupFrom (before.map value) entries
      = ((entries.zipIdx before.length).filter fun p ↦
        !hasEarlier (before ++ entries) p.2 p.1).map Prod.fst := by
  induction entries generalizing before with
  | nil => rfl
  | cons e rest ih =>
    have hrest := ih (before ++ [e])
    have hearlier : hasEarlier (before ++ e :: rest) before.length e
        = (before.map value).contains e.value := by
      rw [hasEarlier, List.take_left, any_sameValue]
    rw [List.length_append, List.length_singleton, ← List.append_cons] at hrest
    rw [dedupFrom, List.zipIdx_cons, List.filter_cons, hearlier]
    by_cases hseen : (before.map value).contains e.value = true
    · rw [if_pos hseen, if_neg (by rw [hseen]; exact Bool.false_ne_true), ← hrest]
      refine dedupFrom_congr (fun v ↦ ?_) rest
      rw [List.contains_iff_mem] at hseen
      rw [List.map_append, List.mem_append, List.map_singleton, List.mem_singleton]
      refine ⟨.inl, ?_⟩
      rintro (h | rfl)
      · exact h
      · exact hseen
    · rw [if_neg hseen, if_pos (by simpa using hseen), List.map_cons, ← hrest]
      refine congrArg (e :: ·) (dedupFrom_congr (fun v ↦ ?_) rest)
      rw [List.map_append, List.mem_append, List.map_singleton, List.mem_singleton, List.mem_cons,
        or_comm]

/-- A value that is there is there once afterwards. -/
theorem countP_sameValue_dedupLexicon {entries : List LexiconEntry} {e : LexiconEntry}
    (h : e ∈ entries) : (dedupLexicon entries).countP (e.sameValue ·) = 1 := by
  have hcount : (dedupLexicon entries).countP (e.sameValue ·)
      = ((dedupLexicon entries).map value).count e.value := by
    rw [List.count, List.countP_map]
    refine List.countP_congr fun d _ ↦ ?_
    rw [sameValue_iff, Function.comp_apply, beq_iff_eq, eq_comm]
  rw [hcount]
  exact List.count_eq_one_of_mem (nodup_dedupFrom [] entries)
    (mem_values_dedupLexicon.2 (List.mem_map_of_mem h))

/-- Of two lists the first may be deduplicated before. -/
theorem dedupLexicon_dedupLexicon_append (a b : List LexiconEntry) :
    dedupLexicon (dedupLexicon a ++ b) = dedupLexicon (a ++ b) := by
  have hnodup : ((dedupLexicon a).map value).Nodup := nodup_dedupFrom [] a
  rw [dedupLexicon_append, dedupLexicon_append, dedupLexicon_of_nodup hnodup]
  exact congrArg _ (dedupFrom_congr (fun v ↦ mem_values_dedupLexicon) b)

/-! ## Entries in a hash table -/

/-- A hash of how an entry sounds, what it means, its part of speech and its labels, one after the
other.  How it is spelled is left out. -/
abbrev SoundHash := String → String → String → String → UInt64

/-- An entry that is compared by its value and found by a hash. -/
structure HashedEntry (hash : SoundHash) where
  /-- The entry. -/
  entry : LexiconEntry

namespace HashedEntry

variable {hash : SoundHash}

instance : BEq (HashedEntry hash) := ⟨fun a b ↦ a.entry.sameValue b.entry⟩

instance : Hashable (HashedEntry hash) :=
  ⟨fun a ↦ hash a.entry.phonetic a.entry.english a.entry.partOfSpeech a.entry.declensionKey⟩

theorem beq_iff {a b : HashedEntry hash} : (a == b) = true ↔ a.entry.value = b.entry.value :=
  sameValue_iff

/-- To have the same value is an equivalence. -/
instance : EquivBEq (HashedEntry hash) where
  rfl := beq_iff.2 rfl
  symm h := beq_iff.2 (beq_iff.1 h).symm
  trans h h' := beq_iff.2 ((beq_iff.1 h).trans (beq_iff.1 h'))

/-- Entries of one value have one hash, although the hash does not see the spelling. -/
instance : LawfulHashable (HashedEntry hash) where
  hash_eq a b h := by
    have hvalue := beq_iff.1 h
    simp only [value, Value.mk.injEq] at hvalue
    obtain ⟨-, hphonetic, henglish, hpart, hlabels⟩ := hvalue
    show hash _ _ _ _ = hash _ _ _ _
    rw [hphonetic, henglish, hpart, hlabels]

end HashedEntry

/-- The entries that are not in the table, nor of the value of an earlier one that is put there. -/
def dedupHashed (hash : SoundHash) (table : Std.HashSet (HashedEntry hash)) :
    List LexiconEntry → List LexiconEntry
  | [] => []
  | e :: rest =>
    if table.contains ⟨e⟩ then dedupHashed hash table rest
    else e :: dedupHashed hash (table.insert ⟨e⟩) rest

/-- A table that holds the values seen keeps the same entries. -/
theorem dedupHashed_eq_dedupFrom {hash : SoundHash} {table : Std.HashSet (HashedEntry hash)}
    {seen : List Value} (h : ∀ e : LexiconEntry, table.contains ⟨e⟩ = seen.contains e.value)
    (entries : List LexiconEntry) : dedupHashed hash table entries = dedupFrom seen entries := by
  induction entries generalizing table seen with
  | nil => rfl
  | cons e rest ih =>
    have hinsert : ∀ d : LexiconEntry,
        (table.insert ⟨e⟩).contains ⟨d⟩ = (e.value :: seen).contains d.value := by
      intro d
      have hbeq : ((⟨e⟩ : HashedEntry hash) == ⟨d⟩) = (d.value == e.value) := by
        rw [Bool.eq_iff_iff, HashedEntry.beq_iff, beq_iff_eq, eq_comm]
      rw [Std.HashSet.contains_insert, hbeq, h, List.contains_cons]
    rw [dedupHashed, dedupFrom, h, ih h, ih hinsert]

/-! ## Deduplication -/

/-- **Of each value the first entry is kept**, as it is and in its place among the others.  So each
value occurs once, a list can be deduplicated in pieces, and a second time changes nothing.  The
entries seen may be kept in a hash table, under any hash that does not depend on the spelling. -/
theorem dedupLexicon_eq_filter (entries more : List LexiconEntry) (hash : SoundHash) :
    dedupLexicon entries
      = (entries.zipIdx.filter fun p ↦ !hasEarlier entries p.2 p.1).map Prod.fst ∧
    ((dedupLexicon entries).Pairwise fun a b ↦ a.sameValue b = false) ∧
    (∀ e ∈ entries, (dedupLexicon entries).countP (e.sameValue ·) = 1) ∧
    dedupLexicon (entries ++ more) = dedupLexicon (dedupLexicon entries ++ more) ∧
    dedupLexicon (dedupLexicon entries) = dedupLexicon entries ∧
    dedupHashed hash ∅ entries = dedupLexicon entries := by
  refine ⟨dedupFrom_eq_filter_zipIdx [] entries,
    pairwise_sameValue_iff.2 (nodup_dedupFrom [] entries),
    fun e he ↦ countP_sameValue_dedupLexicon he,
    (dedupLexicon_dedupLexicon_append entries more).symm,
    dedupLexicon_of_nodup (nodup_dedupFrom [] entries), ?_⟩
  exact dedupHashed_eq_dedupFrom (fun e ↦ by simp) entries

end Glossopoeia
