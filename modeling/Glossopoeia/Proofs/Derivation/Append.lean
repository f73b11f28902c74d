import Glossopoeia.Proofs.Declension.Slots
import Glossopoeia.Proofs.Derivation.Roots

/-!
# Derivations in stages

A list of derivations can be cut anywhere: to run it is to run its first part, to put what that
makes at the end of the lexicon, and to run the second part on this longer lexicon
(`Deriver.derive_append`).  The index that grows with every new root is, after each line, the index
of the lexicon with the roots made so far (`WordIndex.ofLexicon_append`), including the glosses that
are bound anew and keep their old place.

If every root brings its declined forms with it, they stand between the roots of the longer lexicon.
They are not registered as long as none of them is taken for a root, that is, as long as no rule has
the name of the root label (`Decliner.isRoot_eq_false_of_mem_declineEntry`).
-/

set_option autoImplicit false

namespace Glossopoeia

open LexiconEntry Outcome

/-- Does no rule have the name that marks the roots? -/
def AffixMap.NamesNoRoot (map : AffixMap) : Prop :=
  map.Holds fun _ rule ↦ rule.declension ≠ rootLabel

/-- The forms that rules of other names make are no roots. -/
theorem Decliner.isRoot_eq_false_of_mem_declineEntry {map : AffixMap} {speller : Speller}
    {decliner : Decliner} (hdecliner : Decliner.ofAffixMap map speller = .ok decliner)
    (hmap : map.NamesNoRoot) {e f : LexiconEntry} (hf : f ∈ decliner.declineEntry e) :
    f.isRoot = false :=
  isRoot_eq_false <| Decliner.forall_label_of_mem_declineEntry hdecliner
    (Q := fun label ↦ label ≠ rootLabel) hmap hf

namespace Deriver

variable (d : Deriver)

/-- The lines that follow see the roots that the lines before them have made. -/
theorem deriveFrom_append (index : WordIndex) (rules more : List String) :
    d.deriveFrom index (rules ++ more) = (do
      let roots ← d.deriveFrom index rules
      let others ← d.deriveFrom (roots.foldl WordIndex.register index) more
      return roots ++ others) := by
  induction rules generalizing index with
  | nil => exact (bind_pure _).symm
  | cons raw rest ih =>
    simp only [List.cons_append, deriveFrom, ih, bind_assoc, pure_bind, List.foldl_append,
      List.append_assoc]

/-- Any words may stand between the roots of the first part, as long as they are no roots. -/
theorem derive_append_of_filter {rules : List String} {lexicon roots words : List LexiconEntry}
    (hroots : d.derive rules lexicon = .ok roots) (hwords : words.filter isRoot = roots)
    (more : List String) :
    d.derive (rules ++ more) lexicon
      = (d.derive more (lexicon ++ words)).map (roots ++ ·) := by
  rw [derive_eq] at hroots
  rw [derive_eq, derive_eq, deriveFrom_append, hroots, WordIndex.ofLexicon_append, hwords]
  show (d.deriveFrom (roots.foldl WordIndex.register (WordIndex.ofLexicon lexicon)) more >>= _) = _
  cases d.deriveFrom (roots.foldl WordIndex.register (WordIndex.ofLexicon lexicon)) more <;> rfl

theorem isRoot_of_derive {rules : List String} {lexicon roots : List LexiconEntry}
    (hroots : d.derive rules lexicon = .ok roots) : ∀ e ∈ roots, e.isRoot = true :=
  fun e he ↦ (mem_deriveFrom (derive_eq .. ▸ hroots) e he).1

/-- An error in the first part is the error of all. -/
theorem derive_append_of_error {rules : List String} {lexicon : List LexiconEntry} {e : Error}
    (he : d.derive rules lexicon = .error e) (more : List String) :
    d.derive (rules ++ more) lexicon = .error e := by
  rw [derive_eq] at he
  rw [derive_eq, deriveFrom_append, he]
  rfl

theorem withFamilies_append (decliner : Decliner) (roots others : List LexiconEntry) :
    withFamilies decliner (roots ++ others)
      = withFamilies decliner roots ++ withFamilies decliner others :=
  List.flatMap_append

/-- **Derivations can be cut into stages.**  What the first part makes is put at the end of the
lexicon before the second part is run, and the first error counts.  So it is too if the roots come
with their declined forms, unless a rule of the affix map has the name of the root label. -/
theorem derive_append (rules more : List String) (lexicon : List LexiconEntry) :
    (d.derive (rules ++ more) lexicon = do
      let roots ← d.derive rules lexicon
      let others ← d.derive more (lexicon ++ roots)
      return roots ++ others) ∧
    ∀ (map : AffixMap) (speller : Speller) (decliner : Decliner),
      Decliner.ofAffixMap map speller = .ok decliner → map.NamesNoRoot →
        (d.deriveEntries (some decliner) (rules ++ more) lexicon = do
          let words ← d.deriveEntries (some decliner) rules lexicon
          let others ← d.deriveEntries (some decliner) more (lexicon ++ words)
          return words ++ others) := by
  simp only [deriveEntries_some_eq]
  cases hroots : d.derive rules lexicon with
  | error e =>
    rw [derive_append_of_error d hroots]
    exact ⟨rfl, fun _ _ _ _ _ ↦ rfl⟩
  | ok roots =>
    have hall := isRoot_of_derive d hroots
    constructor
    · rw [derive_append_of_filter d hroots (List.filter_eq_self.2 hall)]
      show _ = (d.derive more (lexicon ++ roots) >>= _)
      cases d.derive more (lexicon ++ roots) <;> rfl
    · intro map speller decliner hdecliner hmap
      have hfilter : (withFamilies decliner roots).filter isRoot = roots :=
        filter_withFamilies hall fun _ _ _ hf ↦
          Decliner.isRoot_eq_false_of_mem_declineEntry hdecliner hmap hf
      rw [derive_append_of_filter d hroots hfilter]
      show _ = ((d.derive more (lexicon ++ withFamilies decliner roots)).map _ >>= _)
      cases d.derive more (lexicon ++ withFamilies decliner roots) with
      | error e => rfl
      | ok others => exact congrArg Except.ok (withFamilies_append decliner roots others)

/-- The plural of nouns. -/
def plurals : AffixMap :=
  ⟨[("n", [⟨.back, [⟨"Plural", .plain "i" "i"⟩]⟩])], List.pairwise_singleton _ _⟩

/-- Words without affixes of their own, spelled as they sound. -/
def unaffixed : Deriver := ⟨.empty, ⟨[]⟩⟩

/-- The homes of a village are those that the first line has derived, and their plural, which stands
between them and the village, does not get in the way. -/
theorem derive_append_village : ∃ decliner, Decliner.ofAffixMap plurals ⟨[]⟩ = .ok decliner ∧
    plurals.NamesNoRoot ∧
    Except.map (List.map LexiconEntry.phonetic) (do
      let words ← unaffixed.deriveEntries (some decliner) ["home : n = house"]
        [.root "ka" "ka" "house" "n"]
      let others ← unaffixed.deriveEntries (some decliner) ["village : n = home home"]
        ([.root "ka" "ka" "house" "n"] ++ words)
      return words ++ others) = .ok ["ka", "kai", "kaka", "kakai"] := by
  have hmap : plurals.NamesNoRoot :=
    List.forall_mem_singleton.2 <| List.forall_mem_singleton.2 <|
      List.forall_mem_singleton.2 (by decide)
  refine ⟨_, rfl, hmap, ?_⟩
  obtain ⟨-, hstages⟩ := unaffixed.derive_append ["home : n = house"] ["village : n = home home"]
    [.root "ka" "ka" "house" "n"]
  rw [← hstages plurals ⟨[]⟩ _ rfl hmap]
  decide +kernel

end Deriver

end Glossopoeia
