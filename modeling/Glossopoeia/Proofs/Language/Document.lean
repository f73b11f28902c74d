import Glossopoeia.Language.Document
import Glossopoeia.Proofs.Affix.Document

/-!
# Languages that are encoded and decoded again

Of a sound rule, an entry and a whole language the document goes along the record it is read with,
so each is decoded as what it was (`Language.decode_toJson`).  Anything may stand in the metadata
that is held as it is.
-/

set_option autoImplicit false

namespace Glossopoeia

theorem SoundRule.decode_toJson (r : SoundRule) : record.decode r.toJson = .ok r := by
  refine Record.decode_of_steps ?_ (by decide)
  exact .of rfl <| .of rfl <| .of rfl <| .of rfl <| .done _

theorem Decoder.value_ok {v : Json} (h : v.Held) : value v = .ok v := by
  rw [value, if_pos h.isReadable, h.normalize_eq]

theorem LexiconEntry.decode_toJson {e : LexiconEntry} (h : e.metadata.Held) :
    record.decode e.toJson = .ok e := by
  refine Record.decode_of_steps ?_ (by decide)
  exact .of rfl <| .of rfl <| .of rfl <| .of rfl <| .of (Decoder.texts_ok _) <| .of rfl <|
    .of rfl <| .of (Decoder.value_ok h) <| .done _

namespace Language

theorem textsJson_ok (texts : Dictionary String) :
    Decoder.dictionary Decoder.text (textsJson texts) = .ok texts :=
  Decoder.dictionary_ok Json.text texts fun _ _ ↦ rfl

theorem listsJson_ok (lists : Dictionary (List String)) :
    Decoder.dictionary textList (listsJson lists) = .ok lists :=
  Decoder.dictionary_ok Json.texts lists fun e _ ↦ Decoder.texts_ok e.2

/-- A field that is left out if it has no value, where no value is what there is to begin with. -/
theorem steps_optionalField {α β : Type} {key : String} {d : Decoder β} {encode : β → Json}
    {set : Option β → α → α} {fs : List (Field α)} {a b : α} {rest : List (String × Json)}
    {value : Option β} (h : ∀ v, Decoder.optional d (encode v) = .ok (some v))
    (hblank : set none a = a) (hrest : Record.Steps fs (set value a) rest b) :
    Record.Steps (.of key .optional (Decoder.optional d) set :: fs) a
      (optionalField key encode value ++ rest) b := by
  cases value with
  | none =>
    rw [hblank] at hrest
    exact .skip Presence.noConfusion hrest
  | some v => exact .of (h v) hrest

/-- **A language is decoded as what it was.** -/
theorem decode_toJson {l : Language} (hmetadata : l.metadata.Held)
    (hentries : ∀ e ∈ l.lexicon, e.metadata.Held) : record.decode l.toJson = .ok l := by
  have htext : ∀ s : String, Decoder.optional Decoder.text (.text s) = .ok (some s) := fun _ ↦ rfl
  have hvoices : ∀ voices, Decoder.optional (Decoder.dictionary Decoder.text) (textsJson voices)
      = .ok (some voices) := by
    intro voices
    show (Decoder.dictionary Decoder.text (textsJson voices)).map some = _
    rw [textsJson_ok]
    rfl
  have hlexicon : Decoder.list LexiconEntry.record.decode
      (.list (l.lexicon.map LexiconEntry.toJson)) = .ok l.lexicon :=
    Decoder.list_ok fun e he ↦ LexiconEntry.decode_toJson (hentries e he)
  refine Record.decode_of_steps ?_ (by decide)
  simp only [List.append_assoc, List.cons_append, List.nil_append]
  refine .of rfl <| .of rfl <| .of rfl <| .of rfl <| .of rfl ?_
  refine steps_optionalField hvoices rfl <| steps_optionalField htext rfl ?_
  refine .of rfl <| .of rfl ?_
  refine .of (Decoder.texts_ok _) <| .of (Decoder.texts_ok _) <| .of (Decoder.texts_ok _) ?_
  refine .of (listsJson_ok _) ?_
  refine steps_optionalField htext rfl <| steps_optionalField htext rfl <|
    steps_optionalField htext rfl ?_
  refine .of (Decoder.list_ok fun r _ ↦ r.decode_toJson) <| .of (Decoder.texts_ok _) ?_
  refine .of l.affixMap.decode_toJson <| .of l.derivationalAffixes.decode_toJson ?_
  exact .of hlexicon <| .of (Decoder.texts_ok _) <| .of (Decoder.value_ok hmetadata) <| .done _

end Language

end Glossopoeia
