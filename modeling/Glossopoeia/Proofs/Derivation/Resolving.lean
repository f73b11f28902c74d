import Mathlib.Data.List.Induction
import Glossopoeia.Proofs.Derivation.WordIndex
import Glossopoeia.Proofs.Text.Cuts

/-!
# What a part resolves to

The index of roots is filled by one registration after the other, and a registration under a known
gloss takes the place of the one before it.  What a part of a derivation resolves to can be said
without the index, by the order of the registrations alone (`Component.Resolves`): the last root
that has the part's own gloss; or else, among the glosses that begin as the part does, the one whose
first root was registered first, and of that gloss the last root.

Each of the two indices keeps keys, entries and a table of places, and answers as the list of its
bindings does (`lookup?_foldl_register_none`, `lookup?_foldl_register_some`).  On that list the step
is `findFirst?_bind`, and going back through the registrations `findFirst?_bindAll` makes it a
statement on all of them: the first key that answers a query is that of the first entry that does,
and it is bound to the last entry with that key.
-/

set_option autoImplicit false

namespace Glossopoeia

/-! ## The first and the last -/

/-- The first of the entries that `p` holds of. -/
def IsFirst (p : LexiconEntry → Prop) (entries : List LexiconEntry) (e : LexiconEntry) : Prop :=
  ∃ before after, entries = before ++ e :: after ∧ p e ∧ ∀ other ∈ before, ¬p other

/-- The last of the entries that `p` holds of. -/
def IsLast (p : LexiconEntry → Prop) (entries : List LexiconEntry) (e : LexiconEntry) : Prop :=
  ∃ before after, entries = before ++ e :: after ∧ p e ∧ ∀ other ∈ after, ¬p other

section

variable {p : LexiconEntry → Prop} {entries : List LexiconEntry} {e : LexiconEntry}

theorem IsFirst.holds (h : IsFirst p entries e) : p e := by
  obtain ⟨_, _, _, hp, _⟩ := h
  exact hp

theorem isFirst_reverse_iff : IsFirst p entries.reverse e ↔ IsLast p entries e := by
  constructor
  · rintro ⟨before, after, hentries, hp, hbefore⟩
    refine ⟨after.reverse, before.reverse, ?_, hp, by simpa using hbefore⟩
    rw [← List.reverse_reverse entries, hentries]
    simp
  · rintro ⟨before, after, rfl, hp, hafter⟩
    exact ⟨after.reverse, before.reverse, by simp, hp, by simpa using hafter⟩

theorem find?_eq_some_iff_isFirst [DecidablePred p] :
    (entries.find? fun e ↦ decide (p e)) = some e ↔ IsFirst p entries e := by
  rw [List.find?_eq_some_iff_append, decide_eq_true_eq]
  constructor
  · rintro ⟨hp, before, after, rfl, hbefore⟩
    exact ⟨before, after, rfl, hp, fun other hother ↦ by simpa using hbefore other hother⟩
  · rintro ⟨before, after, rfl, hp, hbefore⟩
    exact ⟨hp, before, after, rfl, fun other hother ↦ by simpa using hbefore other hother⟩

end

/-! ## Queries after many registrations -/

namespace Bindings

variable {κ : Type} [DecidableEq κ] {key : LexiconEntry → κ} {entries : List LexiconEntry}

theorem bindAll_append_singleton (b : Bindings κ) (entries : List LexiconEntry)
    (e : LexiconEntry) :
    b.bindAll key (entries ++ [e]) = (b.bindAll key entries).bind (key e) e := by
  rw [bindAll, List.foldl_append]
  rfl

/-- **The first hit of a query** is bound to the last entry that has the key of the first entry that
answers the query. -/
theorem findFirst?_bindAll (p : κ → Bool) (entries : List LexiconEntry) :
    (bindAll key [] entries).findFirst? p
      = (entries.find? fun e ↦ p (key e)).bind fun first ↦
          entries.reverse.find? fun e ↦ decide (key e = key first) := by
  induction entries using List.reverseRecOn with
  | nil => rfl
  | append_singleton entries e ih =>
    rw [bindAll_append_singleton, findFirst?_bind (isKeyedBy_nil.bindAll entries), ih,
      List.find?_append, List.reverse_append]
    cases hfirst : entries.find? fun e ↦ p (key e) with
    | none => by_cases hp : p (key e) = true <;> simp [hp]
    | some first =>
      -- The key is bound already, if not to its first entry then to a later one.
      have hbound : ∃ old,
          (entries.reverse.find? fun e ↦ decide (key e = key first)) = some old := by
        rw [← Option.isSome_iff_exists, List.find?_isSome]
        exact ⟨first, List.mem_reverse.2 (List.mem_of_find?_eq_some hfirst), by simp⟩
      obtain ⟨old, hold⟩ := hbound
      have hkey : key old = key first := by simpa using List.find?_some hold
      by_cases hsame : key e = key first
      · simp [hold, hkey, hsame]
      · simp [hold, hkey, hsame, Ne.symm hsame]

/-- **A key is bound to the last entry that has it.** -/
theorem find?_bindAll (q : κ) (entries : List LexiconEntry) :
    (bindAll key [] entries).find? q = entries.reverse.find? fun e ↦ decide (key e = q) := by
  rw [find?_eq_findFirst?, findFirst?_bindAll]
  cases hfirst : entries.find? fun e ↦ decide (key e = q) with
  | none =>
    rw [List.find?_eq_none] at hfirst
    exact (List.find?_eq_none.2 fun e he ↦ hfirst e (List.mem_reverse.1 he)).symm
  | some first =>
    obtain rfl : key first = q := by simpa using List.find?_some hfirst
    rfl

/-- The answer to a query, by the order in which the entries were bound. -/
theorem query_bindAll_eq_some_iff {q : κ} {p : κ → Bool} {e : LexiconEntry} :
    (bindAll key [] entries).query q p = some e ↔
      IsLast (fun r ↦ key r = q) entries e ∨
      (∀ r ∈ entries, key r ≠ q) ∧ ∃ first, IsFirst (fun r ↦ p (key r) = true) entries first ∧
        IsLast (fun r ↦ key r = key first) entries e := by
  rw [query, find?_bindAll, findFirst?_bindAll, Option.or_eq_some_iff, Option.bind_eq_some_iff]
  simp only [find?_eq_some_iff_isFirst, isFirst_reverse_iff, List.find?_eq_none, List.mem_reverse,
    decide_eq_true_eq, ← find?_eq_some_iff_isFirst (p := fun r ↦ p (key r) = true),
    Bool.decide_eq_true, ne_eq]

end Bindings

/-! ## Parts -/

namespace Component

/-- **What a part resolves to**, by the roots in the order in which they were registered. -/
inductive Resolves (part : Component) (roots : List LexiconEntry) (e : LexiconEntry) : Prop
  /-- The last root that has the part's own gloss. -/
  | exact (h : IsLast (fun r ↦ glossKey r.english = part.word ∧ part.Fits r) roots e)
  /-- If there is none, the last root of the gloss whose first root was registered first, among the
  glosses that begin as the part does. -/
  | beginning {first : LexiconEntry}
      (hnone : ∀ r ∈ roots, ¬(glossKey r.english = part.word ∧ part.Fits r))
      (hfirst : IsFirst (fun r ↦ part.word.toList <+: (glossKey r.english).toList ∧ part.Fits r)
        roots first)
      (hlast : IsLast (fun r ↦ glossKey r.english = glossKey first.english ∧ part.Fits r) roots e)

variable {part : Component} {roots : List LexiconEntry} {e : LexiconEntry}

theorem resolves_iff : part.Resolves roots e ↔
    IsLast (fun r ↦ glossKey r.english = part.word ∧ part.Fits r) roots e ∨
    (∀ r ∈ roots, ¬(glossKey r.english = part.word ∧ part.Fits r)) ∧ ∃ first,
      IsFirst (fun r ↦ part.word.toList <+: (glossKey r.english).toList ∧ part.Fits r) roots first ∧
      IsLast (fun r ↦ glossKey r.english = glossKey first.english ∧ part.Fits r) roots e := by
  constructor
  · rintro (h | ⟨hnone, hfirst, hlast⟩)
    · exact .inl h
    · exact .inr ⟨hnone, _, hfirst, hlast⟩
  · rintro (h | ⟨hnone, _, hfirst, hlast⟩)
    · exact .exact h
    · exact .beginning hnone hfirst hlast

theorem fits_of_none (h : part.partOfSpeech = none) (r : LexiconEntry) : part.Fits r :=
  fun pos hpos ↦ by rw [h] at hpos; cases hpos

theorem fits_iff_of_some {pos : String} (h : part.partOfSpeech = some pos) (r : LexiconEntry) :
    part.Fits r ↔ coarsePartOfSpeech r.partOfSpeech = pos := by
  rw [Fits, h]
  exact ⟨fun hfits ↦ hfits pos rfl, by rintro hpos _ ⟨⟩; exact hpos⟩

end Component

namespace WordIndex

open Bindings Text

variable {part : Component} {roots : List LexiconEntry} {e : LexiconEntry}

theorem beginsWith_iff {word gloss : String} :
    beginsWith word gloss = true ↔ word.toList <+: gloss.toList := by
  rw [beginsWith, Option.isSome_iff_exists]
  exact exists_congr fun rest ↦ stripStart_eq_some_iff.trans eq_comm

/-- Both indices answer by the order of the registrations. -/
theorem lookup?_foldl_register_eq_some_iff :
    (roots.foldl register empty).lookup? part.word part.partOfSpeech = some e ↔
      part.Resolves roots e := by
  rw [Component.resolves_iff]
  cases hpos : part.partOfSpeech with
  | none =>
    simp only [lookup?_foldl_register_none, query_bindAll_eq_some_iff,
      Component.fits_of_none hpos, and_true, beginsWith_iff, ne_eq]
  | some pos =>
    simp only [lookup?_foldl_register_some, query_bindAll_eq_some_iff,
      Component.fits_iff_of_some hpos, pairKey, Prod.mk.injEq, Bool.and_eq_true, beq_iff_eq,
      beginsWith_iff, ne_eq]
    refine or_congr_right (and_congr_right fun _ ↦ exists_congr fun first ↦
      and_congr_right fun hfirst ↦ ?_)
    rw [hfirst.holds.2]

/-- **What a part resolves to** is decided by the order in which the roots of the lexicon, and
behind them whatever was registered later, came into the index.  It resolves to nothing, which is an
error that names it, exactly if no root that fits begins as it does. -/
theorem resolve_foldl_register (lexicon further : List LexiconEntry) (part : Component) :
    (∀ e, (further.foldl register (ofLexicon lexicon)).resolve part.word part.partOfSpeech = .ok e ↔
      part.Resolves (lexicon.filter LexiconEntry.isRoot ++ further) e) ∧
    ∀ error, (further.foldl register (ofLexicon lexicon)).resolve part.word part.partOfSpeech
        = .error error ↔
      error = .unresolvedWord part.word part.partOfSpeech ∧
      ∀ r ∈ lexicon.filter LexiconEntry.isRoot ++ further, part.Fits r →
        ¬part.word.toList <+: (glossKey r.english).toList := by
  rw [ofLexicon, ← List.foldl_append, resolve]
  simp only [← lookup?_foldl_register_eq_some_iff, ← beginsWith_iff, Bool.not_eq_true,
    ← lookup?_foldl_register_eq_none_iff]
  cases hfound : ((lexicon.filter LexiconEntry.isRoot ++ further).foldl register empty).lookup?
      part.word part.partOfSpeech with
  | none => simp [eq_comm]
  | some found => simp

/-- Two glosses begin as the word does; the one that was registered first was registered again. -/
example : ((ofLexicon [.root "ka" "ka" "house" "n", .root "to" "to" "housing" "n",
    .root "ru" "ru" "house" "n"]).lookup? "hous" none).map LexiconEntry.phonetic = some "ru" := by
  decide

end WordIndex

end Glossopoeia
