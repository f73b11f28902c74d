import Glossopoeia.Derivation.Component
import Glossopoeia.Proofs.Derivation.OrderedIndex

/-!
# What a word names

Which root a word names depends on the order in which the roots were registered: of several roots
with the same gloss it is the last, and of several glosses that begin as the word does it is the
first.  This is about how far two indices that were filled in different orders agree.

* An index answers as the list of its bindings does (`lookup?_none`, `lookup?_some`), and to
  register a root is to bind it there (`bindings_byGloss_register`, `bindings_byPair_register`).
* `findFirst?_bind` says what binding one more entry does to the first hit of a query, in terms of
  the hit before and its key alone.  So two indices that agree on a query up to the gloss and the
  sound of its answer still agree when the same root is registered in both (`NamesAlike.register`).
* `mayName_of_lookup?` and `lookup?_eq_none_iff` bound the answer by the roots that were registered,
  in whatever order.  So the order does not decide whether a word names a root at all
  (`IsThinned.resolvesAlike`), and a word that is clear, in that all roots that it may name have the
  same gloss and sound, names alike in every order (`IsThinned.namesAlike`).
-/

set_option autoImplicit false

namespace Glossopoeia

namespace Bindings

variable {κ : Type} {key : LexiconEntry → κ}

/-! ## Bindings under the entries' own keys -/

theorem mem_of_findFirst? {p : κ → Bool} {b : Bindings κ} {e : LexiconEntry}
    (h : b.findFirst? p = some e) : ∃ k, (k, e) ∈ b ∧ p k = true := by
  obtain ⟨⟨k, _⟩, hfind, rfl⟩ := Option.map_eq_some_iff.1 h
  exact ⟨k, List.mem_of_find?_eq_some hfind, by simpa using List.find?_some hfind⟩

/-- Every entry is bound under its own key. -/
def IsKeyedBy (key : LexiconEntry → κ) (b : Bindings κ) : Prop := ∀ k e, (k, e) ∈ b → k = key e

theorem isKeyedBy_nil : IsKeyedBy key [] := fun _ _ h ↦ absurd h List.not_mem_nil

theorem IsKeyedBy.of_findFirst? {b : Bindings κ} (h : b.IsKeyedBy key) {p : κ → Bool}
    {e : LexiconEntry} (he : b.findFirst? p = some e) : p (key e) = true := by
  obtain ⟨k, hmem, hp⟩ := mem_of_findFirst? he
  exact h k e hmem ▸ hp

variable [DecidableEq κ]

theorem find?_eq_findFirst? (q : κ) (b : Bindings κ) :
    b.find? q = b.findFirst? fun k ↦ decide (k = q) := rfl

theorem mem_bind {k k' : κ} {e e' : LexiconEntry} {b : Bindings κ} (h : (k', e') ∈ b.bind k e) :
    (k', e') = (k, e) ∨ (k', e') ∈ b := by
  induction b with
  | nil => exact .inl (List.mem_singleton.1 h)
  | cons binding rest ih =>
    rw [bind] at h
    split at h
    · rcases List.mem_cons.1 h with h | h
      · exact .inl h
      · exact .inr (List.mem_cons_of_mem _ h)
    · rcases List.mem_cons.1 h with h | h
      · exact .inr (h ▸ List.mem_cons_self ..)
      · exact (ih h).imp_right (List.mem_cons_of_mem _)

theorem IsKeyedBy.bind {b : Bindings κ} (h : b.IsKeyedBy key) (e : LexiconEntry) :
    (b.bind (key e) e).IsKeyedBy key := by
  intro k e' he'
  rcases mem_bind he' with heq | hmem
  · cases heq
    rfl
  · exact h k e' hmem

/-- **The first hit after one more entry is bound.**  An earlier hit stays, unless it gives way to
the new entry under its own key. -/
theorem findFirst?_bind {b : Bindings κ} (h : b.IsKeyedBy key) (p : κ → Bool) (e : LexiconEntry) :
    (b.bind (key e) e).findFirst? p = match b.findFirst? p with
      | some old => some (if key old = key e then e else old)
      | none => if p (key e) then some e else none := by
  induction b with
  | nil => exact findFirst?_cons p (key e) e []
  | cons binding rest ih =>
    obtain ⟨k, old⟩ := binding
    have hk : k = key old := h k old (List.mem_cons_self ..)
    have hrest : IsKeyedBy key rest := fun k' e' he' ↦ h k' e' (List.mem_cons_of_mem _ he')
    rw [bind, findFirst?_cons]
    by_cases hsame : k = key e
    · rw [if_pos hsame, findFirst?_cons, ← hsame]
      cases hp : p k with
      | true => simp [← hk]
      | false =>
        cases hfound : findFirst? p rest with
        | none => simp
        | some found =>
          -- A later hit satisfies `p`, which the new key does not.
          have hne : key found ≠ k := by
            intro heq
            have hfits := hrest.of_findFirst? hfound
            rw [heq, hp] at hfits
            exact Bool.false_ne_true hfits
          simp [hne]
    · rw [if_neg hsame, findFirst?_cons]
      cases hp : p k with
      | true => simp [← hk, hsame]
      | false => simpa using ih hrest

/-! ## A query by key, or else by a property of keys -/

/-- What `q` is bound to, or else what the first key that satisfies `p` is bound to. -/
def query (q : κ) (p : κ → Bool) (b : Bindings κ) : Option LexiconEntry :=
  (b.find? q).or (b.findFirst? p)

theorem query_bind {b : Bindings κ} (h : b.IsKeyedBy key) (q : κ) (p : κ → Bool)
    (e : LexiconEntry) :
    (b.bind (key e) e).query q p =
      if key e = q then some e
      else match b.query q p with
        | some old => some (if key old = key e then e else old)
        | none => if p (key e) then some e else none := by
  rw [query, query, find?_eq_findFirst?, find?_eq_findFirst?, findFirst?_bind h,
    findFirst?_bind h p e]
  cases hold : b.findFirst? fun k ↦ decide (k = q) with
  | none =>
    by_cases hq : key e = q
    · simp [hq]
    · simp [hq]
  | some old =>
    have hkey : key old = q := by simpa using h.of_findFirst? hold
    by_cases hq : key e = q
    · simp [hkey, hq]
    · have hne : q ≠ key e := Ne.symm hq
      simp [hkey, hq, hne]

/-- A query is answered after one more entry if it was before or the entry answers it. -/
theorem query_bind_isSome {b : Bindings κ} (h : b.IsKeyedBy key) (q : κ) (p : κ → Bool)
    (e : LexiconEntry) :
    ((b.bind (key e) e).query q p).isSome ↔
      (b.query q p).isSome ∨ key e = q ∨ p (key e) = true := by
  rw [query_bind h]
  by_cases hq : key e = q
  · simp [hq]
  · cases b.query q p with
    | none => by_cases hp : p (key e) = true <;> simp [hq, hp]
    | some old => simp [hq]

/-- If a query has the same answer up to the key and `f`, it still has when the same entry is bound
in both. -/
theorem map_query_bind_congr {α : Type} (f : LexiconEntry → α) {b b' : Bindings κ}
    (h : b.IsKeyedBy key) (h' : b'.IsKeyedBy key) {q : κ} {p : κ → Bool}
    (hquery : (b.query q p).map (fun e ↦ (key e, f e)) = (b'.query q p).map fun e ↦ (key e, f e))
    (e : LexiconEntry) :
    ((b.bind (key e) e).query q p).map (fun e ↦ (key e, f e))
      = ((b'.bind (key e) e).query q p).map fun e ↦ (key e, f e) := by
  rw [query_bind h, query_bind h']
  split
  · rfl
  · cases hold : b.query q p with
    | none =>
      rw [hold, Option.map_none, eq_comm, Option.map_eq_none_iff] at hquery
      rw [hquery]
    | some old =>
      rw [hold, Option.map_some, eq_comm, Option.map_eq_some_iff] at hquery
      obtain ⟨old', hold', heq⟩ := hquery
      obtain ⟨hkey, hf⟩ := Prod.mk.inj heq
      rw [hold']
      by_cases hsame : key old = key e
      · simp [hkey, hsame]
      · simp [hkey, hsame, hf]

/-! ## Many entries -/

/-- Bind entries under their keys, one after the other. -/
def bindAll (key : LexiconEntry → κ) (b : Bindings κ) (entries : List LexiconEntry) : Bindings κ :=
  entries.foldl (fun b e ↦ b.bind (key e) e) b

theorem IsKeyedBy.bindAll {b : Bindings κ} (h : b.IsKeyedBy key) (entries : List LexiconEntry) :
    (b.bindAll key entries).IsKeyedBy key := by
  induction entries generalizing b with
  | nil => exact h
  | cons e rest ih => exact ih (h.bind e)

theorem mem_bindAll {k : κ} {e : LexiconEntry} {b : Bindings κ} {entries : List LexiconEntry}
    (h : (k, e) ∈ b.bindAll key entries) : (k, e) ∈ b ∨ e ∈ entries := by
  induction entries generalizing b with
  | nil => exact .inl h
  | cons first rest ih =>
    rcases ih h with h | h
    · rcases mem_bind h with heq | hmem
      · cases heq
        exact .inr (List.mem_cons_self ..)
      · exact .inl hmem
    · exact .inr (List.mem_cons_of_mem _ h)

/-- There is a hit exactly if there was one or an entry's key is one. -/
theorem findFirst?_bindAll_isSome {b : Bindings κ} (h : b.IsKeyedBy key) (p : κ → Bool)
    (entries : List LexiconEntry) :
    ((b.bindAll key entries).findFirst? p).isSome ↔
      (b.findFirst? p).isSome ∨ ∃ e ∈ entries, p (key e) = true := by
  induction entries generalizing b with
  | nil => simp [bindAll]
  | cons first rest ih =>
    have hfirst : ((b.bind (key first) first).findFirst? p).isSome ↔
        (b.findFirst? p).isSome ∨ p (key first) = true := by
      rw [findFirst?_bind h]
      cases b.findFirst? p with
      | none => by_cases hp : p (key first) = true <;> simp [hp]
      | some old => simp
    rw [bindAll, List.foldl_cons, ← bindAll, ih (h.bind first), hfirst, or_assoc]
    simp

/-- An answer is bound under the key asked for, unless no entry has that. -/
theorem query_bindAll_eq_some {entries : List LexiconEntry} {q : κ} {p : κ → Bool}
    {e : LexiconEntry} (h : (bindAll key [] entries).query q p = some e) :
    e ∈ entries ∧ (key e = q ∨ p (key e) = true ∧ ∀ e' ∈ entries, key e' ≠ q) := by
  have hkeyed : (bindAll key [] entries).IsKeyedBy key := isKeyedBy_nil.bindAll entries
  have hmem : ∀ {p : κ → Bool}, (bindAll key [] entries).findFirst? p = some e → e ∈ entries := by
    intro p hfound
    obtain ⟨k, hmem, _⟩ := mem_of_findFirst? hfound
    exact (mem_bindAll hmem).resolve_left List.not_mem_nil
  rw [query, find?_eq_findFirst?] at h
  rcases Option.or_eq_some_iff.1 h with hfound | ⟨hnone, hfound⟩
  · exact ⟨hmem hfound, .inl (by simpa using hkeyed.of_findFirst? hfound)⟩
  · refine ⟨hmem hfound, .inr ⟨hkeyed.of_findFirst? hfound, fun e' he' heq ↦ ?_⟩⟩
    have hsome := (findFirst?_bindAll_isSome isKeyedBy_nil (fun k ↦ decide (k = q)) entries).2
      (.inr ⟨e', he', decide_eq_true heq⟩)
    rw [Option.isSome_iff_ne_none] at hsome
    exact hsome hnone

theorem query_bindAll_eq_none {entries : List LexiconEntry} {q : κ} {p : κ → Bool} :
    (bindAll key [] entries).query q p = none ↔
      ∀ e ∈ entries, key e ≠ q ∧ p (key e) = false := by
  have hhit : ∀ p : κ → Bool, (bindAll key [] entries).findFirst? p = none ↔
      ∀ e ∈ entries, p (key e) = false := by
    intro p
    have hnil : IsKeyedBy key [] := isKeyedBy_nil
    rw [← Option.not_isSome_iff_eq_none, findFirst?_bindAll_isSome hnil]
    simp [findFirst?]
  have hfind : (bindAll key [] entries).find? q = none ↔ ∀ e ∈ entries, key e ≠ q := by
    refine (hhit fun k ↦ decide (k = q)).trans ?_
    simp
  rw [query, Option.or_eq_none_iff, hfind, hhit]
  exact ⟨fun h e he ↦ ⟨h.1 e he, h.2 e he⟩, fun h ↦ ⟨fun e he ↦ (h e he).1, fun e he ↦ (h e he).2⟩⟩

end Bindings

/-! ## The index of a lexicon -/

namespace WordIndex

open Bindings

/-- A gloss with its coarse part of speech. -/
def pairKey (e : LexiconEntry) : String × String :=
  (glossKey e.english, coarsePartOfSpeech e.partOfSpeech)

theorem bindings_byGloss_register (index : WordIndex) (e : LexiconEntry) :
    (index.register e).byGloss.bindings = index.byGloss.bindings.bind (glossKey e.english) e :=
  index.byGloss.bindings_insert _ e

theorem bindings_byPair_register (index : WordIndex) (e : LexiconEntry) :
    (index.register e).byPair.bindings = index.byPair.bindings.bind (pairKey e) e :=
  index.byPair.bindings_insert _ e

/-- What a word without a part of speech is looked up in. -/
theorem lookup?_none (index : WordIndex) (word : String) :
    index.lookup? word none = index.byGloss.bindings.query word (beginsWith word) := by
  rw [lookup?, OrderedIndex.get?_eq_find?, OrderedIndex.find?_eq_findFirst?, query]

/-- What a word with a part of speech is looked up in. -/
theorem lookup?_some (index : WordIndex) (word pos : String) :
    index.lookup? word (some pos) = index.byPair.bindings.query (word, pos)
      fun (gloss, p) ↦ beginsWith word gloss && p == pos := by
  rw [lookup?, OrderedIndex.get?_eq_find?, OrderedIndex.find?_eq_findFirst?, query]

/-- Every root is bound under its own gloss and part of speech. -/
structure IsKeyed (index : WordIndex) : Prop where
  /-- Roots are bound under their glosses. -/
  byGloss : index.byGloss.bindings.IsKeyedBy fun e ↦ glossKey e.english
  /-- Roots are bound under their glosses and parts of speech. -/
  byPair : index.byPair.bindings.IsKeyedBy pairKey

theorem isKeyed_empty : empty.IsKeyed :=
  ⟨fun _ _ h ↦ absurd h List.not_mem_nil, fun _ _ h ↦ absurd h List.not_mem_nil⟩

theorem IsKeyed.register {index : WordIndex} (h : index.IsKeyed) (e : LexiconEntry) :
    (index.register e).IsKeyed where
  byGloss := index.bindings_byGloss_register e ▸ h.byGloss.bind e
  byPair := index.bindings_byPair_register e ▸ h.byPair.bind e

theorem IsKeyed.foldl_register {index : WordIndex} (h : index.IsKeyed)
    (entries : List LexiconEntry) : (entries.foldl WordIndex.register index).IsKeyed := by
  induction entries generalizing index with
  | nil => exact h
  | cons e rest ih => exact ih (h.register e)

theorem isKeyed_ofLexicon (lexicon : List LexiconEntry) : (ofLexicon lexicon).IsKeyed :=
  isKeyed_empty.foldl_register _

/-- What is put at the end of a lexicon is registered if it is a root. -/
theorem ofLexicon_append (lexicon words : List LexiconEntry) : ofLexicon (lexicon ++ words)
    = (words.filter LexiconEntry.isRoot).foldl WordIndex.register (ofLexicon lexicon) := by
  rw [ofLexicon, ofLexicon, List.filter_append, List.foldl_append]

/-- To register roots is to put them at the end of the lexicon. -/
theorem foldl_register_ofLexicon {lexicon roots : List LexiconEntry}
    (h : ∀ e ∈ roots, e.isRoot = true) :
    roots.foldl WordIndex.register (ofLexicon lexicon) = ofLexicon (lexicon ++ roots) := by
  rw [ofLexicon_append, List.filter_eq_self.2 h]

/-! ## Indices that resolve alike -/

/-- The same words name a root in both indices. -/
def ResolvesAlike (index index' : WordIndex) : Prop :=
  ∀ word pos, (index.lookup? word pos).isSome ↔ (index'.lookup? word pos).isSome

/-- Which words name a root depends on the glosses and parts of speech that are registered. -/
theorem ResolvesAlike.register {index index' : WordIndex} (h : index.ResolvesAlike index')
    (hi : index.IsKeyed) (hi' : index'.IsKeyed) {e e' : LexiconEntry}
    (henglish : e.english = e'.english) (hpos : e.partOfSpeech = e'.partOfSpeech) :
    (index.register e).ResolvesAlike (index'.register e') := by
  intro word pos
  cases pos with
  | none =>
    have hword := h word none
    rw [lookup?_none, lookup?_none] at hword
    rw [lookup?_none, lookup?_none, bindings_byGloss_register, bindings_byGloss_register,
      query_bind_isSome hi.byGloss, query_bind_isSome hi'.byGloss, henglish]
    exact or_congr hword Iff.rfl
  | some pos =>
    have hword := h word (some pos)
    rw [lookup?_some, lookup?_some] at hword
    have hkey : pairKey e = pairKey e' := by rw [pairKey, pairKey, henglish, hpos]
    rw [lookup?_some, lookup?_some, bindings_byPair_register, bindings_byPair_register,
      query_bind_isSome hi.byPair, query_bind_isSome hi'.byPair, hkey]
    exact or_congr hword Iff.rfl

/-! ## Words that name alike -/

/-- The gloss and the sound of a root, which is all that a derivation has of it. -/
def glossAndSound (e : LexiconEntry) : String × String := (glossKey e.english, e.phonetic)

/-- In both indices a part names roots of the same gloss and sound, or it names none in either. -/
def NamesAlike (index index' : WordIndex) (part : Component) : Prop :=
  (index.lookup? part.word part.partOfSpeech).map glossAndSound
    = (index'.lookup? part.word part.partOfSpeech).map glossAndSound

/-- A word with a part of speech names roots of it only. -/
theorem coarsePartOfSpeech_of_lookup? {index : WordIndex} (h : index.IsKeyed) {word pos : String}
    {e : LexiconEntry} (he : index.lookup? word (some pos) = some e) :
    coarsePartOfSpeech e.partOfSpeech = pos := by
  rw [lookup?_some, query, find?_eq_findFirst?] at he
  rcases Option.or_eq_some_iff.1 he with hfound | ⟨_, hfound⟩
  · have hkey := h.byPair.of_findFirst? hfound
    rw [decide_eq_true_eq] at hkey
    exact congrArg Prod.snd hkey
  · have hkey := h.byPair.of_findFirst? hfound
    simp only [pairKey, Bool.and_eq_true, beq_iff_eq] at hkey
    exact hkey.2

/-- **Registering the same root keeps words naming alike.** -/
theorem NamesAlike.register {index index' : WordIndex} {part : Component}
    (h : index.NamesAlike index' part) (hi : index.IsKeyed) (hi' : index'.IsKeyed)
    (e : LexiconEntry) : (index.register e).NamesAlike (index'.register e) part := by
  rw [NamesAlike] at h ⊢
  cases hpos : part.partOfSpeech with
  | none =>
    rw [hpos, lookup?_none, lookup?_none] at h
    rw [lookup?_none, lookup?_none, bindings_byGloss_register, bindings_byGloss_register]
    exact map_query_bind_congr LexiconEntry.phonetic hi.byGloss hi'.byGloss h e
  | some pos =>
    rw [hpos] at h
    have hpair : ∀ {index : WordIndex}, index.IsKeyed → ∀ {found : Option LexiconEntry},
        index.lookup? part.word (some pos) = found →
          found.map (fun e ↦ (pairKey e, e.phonetic))
            = (found.map glossAndSound).map fun k ↦ ((k.1, pos), k.2) := by
      intro index hindex found hfound
      cases found with
      | none => rfl
      | some e => simp [pairKey, glossAndSound, coarsePartOfSpeech_of_lookup? hindex hfound]
    have hgloss : ∀ found : Option LexiconEntry, found.map glossAndSound
        = (found.map fun e ↦ (pairKey e, e.phonetic)).map fun k ↦ (k.1.1, k.2) := by
      intro found
      rw [Option.map_map]
      rfl
    rw [hgloss, hgloss, lookup?_some, lookup?_some, bindings_byPair_register,
      bindings_byPair_register]
    refine congrArg _ (map_query_bind_congr LexiconEntry.phonetic hi.byPair hi'.byPair ?_ e)
    rw [← lookup?_some, ← lookup?_some]
    exact (hpair hi rfl).trans ((congrArg _ h).trans (hpair hi' rfl).symm)

theorem NamesAlike.foldl_register {index index' : WordIndex} {part : Component}
    (h : index.NamesAlike index' part) (hi : index.IsKeyed) (hi' : index'.IsKeyed)
    (roots : List LexiconEntry) :
    (roots.foldl WordIndex.register index).NamesAlike (roots.foldl WordIndex.register index')
      part := by
  induction roots generalizing index index' with
  | nil => exact h
  | cons e rest ih => exact ih (h.register hi hi' e) (hi.register e) (hi'.register e)

end WordIndex

/-! ## The roots that a word may name -/

namespace Component

/-- Has the root a part of speech as the part asks for? -/
def Fits (part : Component) (e : LexiconEntry) : Prop :=
  ∀ pos, part.partOfSpeech = some pos → coarsePartOfSpeech e.partOfSpeech = pos

/-- The part may name the root, if the order of the lexicon is left open: the gloss begins as the
part does, and is the very one if some root that fits has that very gloss. -/
structure MayName (part : Component) (lexicon : List LexiconEntry) (e : LexiconEntry) : Prop where
  /-- It is in the lexicon. -/
  mem : e ∈ lexicon
  /-- It is a root. -/
  isRoot : e.isRoot = true
  /-- It has the part of speech. -/
  fits : part.Fits e
  /-- Its gloss begins as the part does. -/
  begins : WordIndex.beginsWith part.word (glossKey e.english) = true
  /-- It has the very gloss if a root has. -/
  exact : (∃ e' ∈ lexicon, e'.isRoot = true ∧ part.Fits e' ∧ glossKey e'.english = part.word) →
    glossKey e.english = part.word

/-- A part is clear if all roots that it may name have the same gloss and sound. -/
def IsClear (part : Component) (lexicon : List LexiconEntry) : Prop :=
  ∀ a b, part.MayName lexicon a → part.MayName lexicon b →
    WordIndex.glossAndSound a = WordIndex.glossAndSound b

end Component

namespace WordIndex

open Bindings

theorem byGloss_foldl_register (index : WordIndex) (roots : List LexiconEntry) :
    (roots.foldl register index).byGloss.bindings
      = index.byGloss.bindings.bindAll (fun e ↦ glossKey e.english) roots := by
  induction roots generalizing index with
  | nil => rfl
  | cons e rest ih =>
    rw [List.foldl_cons, ih, bindings_byGloss_register]
    rfl

theorem byPair_foldl_register (index : WordIndex) (roots : List LexiconEntry) :
    (roots.foldl register index).byPair.bindings
      = index.byPair.bindings.bindAll pairKey roots := by
  induction roots generalizing index with
  | nil => rfl
  | cons e rest ih =>
    rw [List.foldl_cons, ih, bindings_byPair_register]
    rfl

theorem beginsWith_self (word : String) : beginsWith word word = true := by
  have hstrip : ∀ cs : List Char, Text.stripStart cs cs = some [] := by
    intro cs
    induction cs with
    | nil => rfl
    | cons c cs ih => rw [Text.stripStart, if_pos rfl, ih]
  rw [beginsWith, hstrip]
  rfl

/-- What a part without a part of speech is looked up in. -/
theorem lookup?_foldl_register_none (roots : List LexiconEntry) (word : String) :
    (roots.foldl register empty).lookup? word none
      = (bindAll (fun e ↦ glossKey e.english) [] roots).query word (beginsWith word) := by
  rw [lookup?_none, byGloss_foldl_register]
  rfl

/-- What a part with a part of speech is looked up in. -/
theorem lookup?_foldl_register_some (roots : List LexiconEntry) (word pos : String) :
    (roots.foldl register empty).lookup? word (some pos)
      = (bindAll pairKey [] roots).query (word, pos)
        fun (gloss, p) ↦ beginsWith word gloss && p == pos := by
  rw [lookup?_some, byPair_foldl_register]
  rfl

/-- A part names a root that it may name. -/
theorem mayName_of_lookup? {lexicon : List LexiconEntry} {part : Component} {e : LexiconEntry}
    (h : (ofLexicon lexicon).lookup? part.word part.partOfSpeech = some e) :
    part.MayName lexicon e := by
  cases hpos : part.partOfSpeech with
  | none =>
    rw [hpos, ofLexicon, lookup?_foldl_register_none] at h
    obtain ⟨hmem, hkey⟩ := query_bindAll_eq_some h
    obtain ⟨hmem, hroot⟩ := List.mem_filter.1 hmem
    refine ⟨hmem, hroot, fun pos hsome ↦ ?_, ?_, fun ⟨e', he', hroot', _, hgloss⟩ ↦ ?_⟩
    · rw [hpos] at hsome
      cases hsome
    · rcases hkey with hkey | ⟨hbegins, _⟩
      · rw [hkey]
        exact beginsWith_self part.word
      · exact hbegins
    · exact hkey.resolve_right fun hno ↦ hno.2 e' (List.mem_filter.2 ⟨he', hroot'⟩) hgloss
  | some pos =>
    rw [hpos, ofLexicon, lookup?_foldl_register_some] at h
    obtain ⟨hmem, hkey⟩ := query_bindAll_eq_some h
    obtain ⟨hmem, hroot⟩ := List.mem_filter.1 hmem
    simp only [pairKey, Prod.mk.injEq, Bool.and_eq_true, beq_iff_eq] at hkey
    refine ⟨hmem, hroot, fun pos' hsome ↦ ?_, ?_, fun ⟨e', he', hroot', hfits, hgloss⟩ ↦ ?_⟩
    · rw [hpos] at hsome
      cases hsome
      exact hkey.elim And.right fun h ↦ h.1.2
    · rcases hkey with ⟨hgloss, _⟩ | ⟨⟨hbegins, _⟩, _⟩
      · rw [hgloss]
        exact beginsWith_self part.word
      · exact hbegins
    · have hexact := hkey.resolve_right fun hno ↦
        hno.2 e' (List.mem_filter.2 ⟨he', hroot'⟩) (Prod.ext hgloss (hfits pos hpos))
      exact hexact.1

/-- A part names none of the registered roots exactly if none that fits begins as it does. -/
theorem lookup?_foldl_register_eq_none_iff {roots : List LexiconEntry} {part : Component} :
    (roots.foldl register empty).lookup? part.word part.partOfSpeech = none ↔
      ∀ e ∈ roots, part.Fits e → beginsWith part.word (glossKey e.english) = false := by
  -- A gloss that is the word begins with it, so it is enough to ask for the beginning.
  have hexact : ∀ {gloss : String}, beginsWith part.word gloss = false → gloss ≠ part.word := by
    rintro _ hbegins rfl
    rw [beginsWith_self] at hbegins
    cases hbegins
  cases hpos : part.partOfSpeech with
  | none =>
    rw [lookup?_foldl_register_none, query_bindAll_eq_none]
    constructor
    · exact fun h e he _ ↦ (h e he).2
    · intro h e he
      have hbegins := h e he fun pos hsome ↦ by rw [hpos] at hsome; cases hsome
      exact ⟨hexact hbegins, hbegins⟩
  | some pos =>
    rw [lookup?_foldl_register_some, query_bindAll_eq_none]
    constructor
    · intro h e he hfits
      have hno := (h e he).2
      simpa [pairKey, hfits pos hpos] using hno
    · intro h e he
      by_cases hfits : coarsePartOfSpeech e.partOfSpeech = pos
      · have hbegins := h e he fun pos' hsome ↦ by
          rw [hpos] at hsome
          cases hsome
          exact hfits
        refine ⟨fun hkey ↦ hexact hbegins (congrArg Prod.fst hkey), ?_⟩
        simp [pairKey, hbegins]
      · refine ⟨fun hkey ↦ hfits (congrArg Prod.snd hkey), ?_⟩
        simp [pairKey, hfits]

/-- A part names nothing exactly if no root that fits begins as it does. -/
theorem lookup?_eq_none_iff {lexicon : List LexiconEntry} {part : Component} :
    (ofLexicon lexicon).lookup? part.word part.partOfSpeech = none ↔
      ∀ e ∈ lexicon, e.isRoot = true → part.Fits e →
        beginsWith part.word (glossKey e.english) = false := by
  rw [ofLexicon, lookup?_foldl_register_eq_none_iff]
  simp only [List.mem_filter, and_imp]

/-- The second lexicon is the first one but for the order and for repetitions: its entries are
entries of the first, and roots of the first have a root of the same gloss and part of speech. -/
structure IsThinned (lexicon lexicon' : List LexiconEntry) : Prop where
  /-- Nothing is added. -/
  subset : ∀ e ∈ lexicon', e ∈ lexicon
  /-- No gloss of a root is lost. -/
  kept : ∀ e ∈ lexicon, e.isRoot = true → ∃ e' ∈ lexicon', e'.isRoot = true ∧
    e'.english = e.english ∧ e'.partOfSpeech = e.partOfSpeech

theorem IsThinned.exists_fits {lexicon lexicon' : List LexiconEntry}
    (h : IsThinned lexicon lexicon') {part : Component} {e : LexiconEntry} (he : e ∈ lexicon)
    (hroot : e.isRoot = true) (hfits : part.Fits e) :
    ∃ e' ∈ lexicon', e'.isRoot = true ∧ part.Fits e' ∧
      glossKey e'.english = glossKey e.english := by
  obtain ⟨e', he', hroot', henglish, hpos⟩ := h.kept e he hroot
  refine ⟨e', he', hroot', fun pos hsome ↦ ?_, by rw [henglish]⟩
  rw [hpos]
  exact hfits pos hsome

/-- **Whether a word names a root does not depend on the order.** -/
theorem IsThinned.resolvesAlike {lexicon lexicon' : List LexiconEntry}
    (h : IsThinned lexicon lexicon') : (ofLexicon lexicon).ResolvesAlike (ofLexicon lexicon') := by
  intro word pos
  have hnone : (ofLexicon lexicon).lookup? word pos = none ↔
      (ofLexicon lexicon').lookup? word pos = none := by
    refine (@lookup?_eq_none_iff lexicon ⟨word, pos, none⟩).trans (Iff.trans ?_
      (@lookup?_eq_none_iff lexicon' ⟨word, pos, none⟩).symm)
    constructor
    · exact fun hno e he ↦ hno e (h.subset e he)
    · intro hno e he hroot hfits
      obtain ⟨e', he', hroot', hfits', hsame⟩ := h.exists_fits he hroot hfits
      exact hsame ▸ hno e' he' hroot' hfits'
  rw [Option.isSome_iff_ne_none, Option.isSome_iff_ne_none, Ne, Ne, hnone]

/-- **A clear part names alike in every order.** -/
theorem IsThinned.namesAlike {lexicon lexicon' : List LexiconEntry}
    (h : IsThinned lexicon lexicon') {part : Component} (hclear : part.IsClear lexicon) :
    (ofLexicon lexicon).NamesAlike (ofLexicon lexicon') part := by
  have hmay : ∀ {e : LexiconEntry}, part.MayName lexicon' e → part.MayName lexicon e := by
    intro e hmay
    refine ⟨h.subset e hmay.mem, hmay.isRoot, hmay.fits, hmay.begins, ?_⟩
    rintro ⟨r, hr, hroot, hfits, hgloss⟩
    obtain ⟨r', hr', hroot', hfits', hsame⟩ := h.exists_fits hr hroot hfits
    exact hmay.exact ⟨r', hr', hroot', hfits', hsame.trans hgloss⟩
  have hresolves := h.resolvesAlike part.word part.partOfSpeech
  rw [NamesAlike]
  cases hfound : (ofLexicon lexicon).lookup? part.word part.partOfSpeech with
  | none =>
    cases hfound' : (ofLexicon lexicon').lookup? part.word part.partOfSpeech with
    | none => rfl
    | some e' => simp [hfound, hfound'] at hresolves
  | some e =>
    cases hfound' : (ofLexicon lexicon').lookup? part.word part.partOfSpeech with
    | none => simp [hfound, hfound'] at hresolves
    | some e' =>
      exact congrArg some
        (hclear e e' (mayName_of_lookup? hfound) (hmay (mayName_of_lookup? hfound')))

end WordIndex

end Glossopoeia
