import Glossopoeia.Proofs.Language.Document

/-!
# Languages that are written and read again

The text of a language is read back as a language that is the same field by field, but for the
doubles: its version and those in its metadata.  A double is written as its shortest decimal, and
what is read of that may miss it by some bits (`Language.read_write`).  Whole numbers up to
`2 ^ 54 / 10` are not missed.  The next one is: its digits are read with the zero behind the point,
as a number of more bits than a double has.
-/

set_option autoImplicit false

namespace Glossopoeia

open Decimal

/-! ## What is read back -/

/-- The entry with every double of its metadata as its decimal is read. -/
def LexiconEntry.reread (e : LexiconEntry) : LexiconEntry :=
  { e with metadata := e.metadata.reread }

theorem LexiconEntry.readsBack_toJson {e : LexiconEntry} (h : e.metadata.Storable) :
    Json.ReadsBackAs e.toJson e.reread.toJson := by
  refine .object (.cons ⟨rfl, .text _⟩ <| .cons ⟨rfl, .text _⟩ <| .cons ⟨rfl, .text _⟩ ?_)
  refine .cons ⟨rfl, .text _⟩ <| .cons ⟨rfl, .texts _⟩ <| .cons ⟨rfl, .bool _⟩ ?_
  exact .cons ⟨rfl, .bool _⟩ <| .cons ⟨rfl, h.readsBack⟩ .nil

namespace Language

theorem forall₂_optionalField {α : Type} (key : String) {encode : α → Json} (value : Option α)
    (h : ∀ v, Json.ReadsBackAs (encode v) (encode v)) :
    List.Forall₂ Json.ReadsBackAs.Field (optionalField key encode value)
      (optionalField key encode value) := by
  cases value with
  | none => exact .nil
  | some v => exact .cons ⟨rfl, h v⟩ .nil

/-- A language as it is held: its version is finite, and so are the doubles of its metadata. -/
structure Storable (l : Language) : Prop where
  /-- The version is a number. -/
  version : l.version.isFinite = true
  /-- The metadata is a value as it is held. -/
  metadata : l.metadata.Storable
  /-- So is that of every entry. -/
  entries : ∀ e ∈ l.lexicon, e.metadata.Storable

/-- The language with every double as its decimal is read. -/
def reread (l : Language) : Language :=
  { l with
    version := Json.rereadFloat l.version
    lexicon := l.lexicon.map LexiconEntry.reread
    metadata := l.metadata.reread }

theorem version_reread (l : Language) : l.reread.version = Json.rereadFloat l.version := rfl

/-- The doubles of a language. -/
def floats (l : Language) : List Float :=
  l.version :: (l.lexicon.flatMap (fun e ↦ e.metadata.floats) ++ l.metadata.floats)

namespace Storable

variable {l : Language} (h : l.Storable)

include h

theorem readsBack_lexicon : Json.ReadsBackAs (.list (l.lexicon.map LexiconEntry.toJson))
    (.list (l.reread.lexicon.map LexiconEntry.toJson)) := by
  refine .list (List.forall₂_map_left_iff.2 (List.forall₂_map_right_iff.2 ?_))
  exact List.forall₂_map_right_iff.2
    (List.forall₂_same.2 fun e he ↦ LexiconEntry.readsBack_toJson (h.entries e he))

/-- **The text of a language is read back as that of the language**, but for its doubles. -/
theorem readsBack_toJson : Json.ReadsBackAs l.toJson l.reread.toJson := by
  have hvoices : ∀ voices, Json.ReadsBackAs (textsJson voices) (textsJson voices) :=
    fun voices ↦ .bindings Json.text Json.ReadsBackAs.text voices.entries
  have hinventory : Json.ReadsBackAs (listsJson l.phoneticInventory)
      (listsJson l.phoneticInventory) :=
    .bindings Json.texts Json.ReadsBackAs.texts l.phoneticInventory.entries
  have hsounds : Json.ReadsBackAs (.list (l.soundMap.map SoundRule.toJson))
      (.list (l.soundMap.map SoundRule.toJson)) :=
    .list_self (List.forall_mem_map.2 fun _ _ ↦ .object_self (by simp))
  have htext : ∀ key value, List.Forall₂ Json.ReadsBackAs.Field (optionalField key .text value)
      (optionalField key .text value) :=
    fun key value ↦ forall₂_optionalField key value Json.ReadsBackAs.text
  simp only [toJson, List.append_assoc]
  refine .object (List.rel_append (.cons ⟨rfl, .float (Json.readsAs_rereadFloat h.version)⟩ ?_) ?_)
  · exact Json.ReadsBackAs.Field.forall₂_same (by simp)
  refine List.rel_append (forall₂_optionalField _ _ hvoices) <| List.rel_append (htext _ _) ?_
  refine List.rel_append (Json.ReadsBackAs.Field.forall₂_same (by simp [hinventory])) ?_
  refine List.rel_append (htext _ _) <| List.rel_append (htext _ _) <|
    List.rel_append (htext _ _) ?_
  refine .cons ⟨rfl, hsounds⟩ <| .cons ⟨rfl, .texts _⟩ ?_
  refine .cons ⟨rfl, l.affixMap.readsBack_toJson⟩ <|
    .cons ⟨rfl, l.derivationalAffixes.readsBack_toJson⟩ ?_
  exact .cons ⟨rfl, h.readsBack_lexicon⟩ <| .cons ⟨rfl, .texts _⟩ <|
    .cons ⟨rfl, h.metadata.readsBack⟩ .nil

theorem read_write_eq_reread (hdepth : l.toJson.depth ≤ Json.depthLimit) :
    read l.write = .ok l.reread := by
  have hentries : ∀ e ∈ l.reread.lexicon, e.metadata.Held :=
    List.forall_mem_map.2 fun e he ↦ (h.entries e he).held_reread
  have hdecode : record.decode l.reread.toJson = .ok l.reread :=
    decode_toJson h.metadata.held_reread hentries
  rw [read, write, String.toList_ofList, Json.parse_pretty h.readsBack_toJson hdepth]
  dsimp only
  rw [hdecode]

/-- If its doubles are read as themselves, so is the language. -/
theorem reread_eq (hfloats : ∀ x ∈ l.floats, Json.rereadFloat x = x) : l.reread = l := by
  rw [floats, List.forall_mem_cons, List.forall_mem_append] at hfloats
  obtain ⟨hversion, hentries, hmetadata⟩ := hfloats
  have hlexicon : l.lexicon.map LexiconEntry.reread = l.lexicon := by
    have hentry : ∀ e ∈ l.lexicon, e.reread = e := fun e he ↦ by
      rw [LexiconEntry.reread, (h.entries e he).reread_eq fun x hx ↦
        hentries x (List.mem_flatMap.2 ⟨e, he, hx⟩)]
    rw [List.map_congr_left hentry, List.map_id']
  rw [reread, hversion, hlexicon, h.metadata.reread_eq hmetadata]

end Storable

/-- **A language is read back as it was written**, field by field: its slots, rules and derivational
affixes, the fields that are left out, the metadata and the marks of all entries.  Only its doubles,
which are its version and those in metadata, come back as their decimals are read; so all of it is
the same if they are whole numbers of at most `2 ^ 54 / 10`. -/
theorem read_write (l : Language) (h : l.Storable) (hdepth : l.toJson.depth ≤ Json.depthLimit) :
    read l.write = .ok l.reread ∧
      ((∀ x ∈ l.floats, Json.IsShortWhole x) → read l.write = .ok l) := by
  have hread := h.read_write_eq_reread hdepth
  refine ⟨hread, fun hfloats ↦ ?_⟩
  have hsame : l.reread = l :=
    h.reread_eq fun x hx ↦ (hfloats x hx).readsAs.rereadFloat_eq
  rw [hread, hsame]

/-- A language of one word, which is declined and has a derivational affix. -/
def villager : Language where
  __ := blank
  version := ofWhole 2
  englishName := "Say \"villager\""
  preferredLanguage := some "Welsh"
  derived := true
  soundMap := [.literal "θ" "th"]
  affixMap := ⟨[("noun", [⟨.back, [⟨"Plural", .plain "i" "i"⟩, ⟨"Singular", .empty⟩]⟩])],
    List.pairwise_singleton _ _⟩
  derivationalAffixes := ⟨[("one-of", ⟨.front, .conditional "a$" "a$" "n" "n" "an" "an"⟩)],
    List.pairwise_singleton _ _⟩
  lexicon := [⟨"θaka", "thaka", "villager", "noun", ["root"], true, false,
    .object [("count", .float (ofWhole 7)), ("source", .list [.int (-3), .text "a\tb"])]⟩]

theorem read_write_villager : villager.Storable ∧ villager.toJson.depth ≤ Json.depthLimit ∧
    (∀ x ∈ villager.floats, Json.IsShortWhole x) ∧ read villager.write = .ok villager := by
  have hstorable : villager.Storable := by
    refine ⟨by decide, .object .nil (List.forall_mem_nil _), ?_⟩
    refine List.forall_mem_singleton.2 (.object (List.pairwise_pair.2 (by decide)) ?_)
    refine List.forall_mem_cons.2 ⟨.float (by decide), ?_⟩
    refine List.forall_mem_singleton.2 (.list (List.forall_mem_cons.2 ⟨?_, ?_⟩))
    · exact .int (by decide) (by decide)
    · exact List.forall_mem_singleton.2 (.text _)
  have hdepth : villager.toJson.depth ≤ Json.depthLimit := by decide
  have hfloats : ∀ x ∈ villager.floats, Json.IsShortWhole x := by
    have hfloats : villager.floats = [ofWhole 2, ofWhole 7] := rfl
    rw [hfloats]
    refine List.forall_mem_cons.2 ⟨⟨2, by decide, false, rfl⟩, ?_⟩
    exact List.forall_mem_singleton.2 ⟨7, by decide, false, rfl⟩
  exact ⟨hstorable, hdepth, hfloats, (read_write villager hstorable hdepth).2 hfloats⟩

/-- A language with a version of one more than a document can hold. -/
def longVersion : Language where
  __ := blank
  version := ofWhole (2 ^ 54 / 10 + 1)

theorem read_write_longVersion : longVersion.version = ofWhole 1801439850948199 ∧
    longVersion.Storable ∧ longVersion.toJson.depth ≤ Json.depthLimit ∧
    read longVersion.write ≠ .ok longVersion := by
  have hstorable : longVersion.Storable :=
    ⟨by decide, .object .nil (List.forall_mem_nil _), List.forall_mem_nil _⟩
  have hdepth : longVersion.toJson.depth ≤ Json.depthLimit := by decide
  have hversion : Json.ReadsAs longVersion.version
      (ofWhole 18014398509481990 / Json.powerOfTen 1) :=
    Json.readsAs_ofWhole (n := 2 ^ 54 / 10 + 1) (by decide) false
  have hne : ofWhole 18014398509481990 / Json.powerOfTen 1 ≠ longVersion.version := by
    decide
  refine ⟨rfl, hstorable, hdepth, fun h ↦ hne ?_⟩
  rw [hstorable.read_write_eq_reread hdepth] at h
  have hsame : longVersion.reread.version = longVersion.version :=
    congrArg version (Except.ok.inj h)
  rw [version_reread, hversion.rereadFloat_eq] at hsame
  exact hsame

end Language

end Glossopoeia
