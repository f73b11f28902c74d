import Glossopoeia.Json.Decode
import Glossopoeia.Proofs.Dictionary

/-!
# Values that are encoded and decoded again

If a decoder undoes an encoder on items or on bindings, so it does on lists of items and on
dictionaries (`Decoder.list_ok`, `Decoder.dictionary_ok`).

A structure is written with its fields in the order of its record.  `Record.Steps` follows such a
document along the record: a field of the record is read from the next field of the document, or it
is left out there.  The reader finds fields by key in whatever order they come, so what has to be
shown is that it finds each field where it stands (`Record.decode_of_steps`).
-/

set_option autoImplicit false

namespace Glossopoeia

namespace Decoder

variable {α : Type} {d : Decoder α} {encode : α → Json}

theorem list_ok {as : List α} (h : ∀ a ∈ as, d (encode a) = .ok a) :
    list d (.list (as.map encode)) = .ok as := by
  show (as.map encode).mapM d = .ok as
  induction as with
  | nil => rfl
  | cons a rest ih =>
    obtain ⟨ha, hrest⟩ := List.forall_mem_cons.1 h
    rw [List.map_cons, List.mapM_cons, ha, ih hrest]
    rfl

/-- Bindings are decoded one by one and put into the dictionary. -/
theorem foldlM_insert_ok {es : List (String × α)} (h : ∀ e ∈ es, d (encode e.2) = .ok e.2)
    (dict : Dictionary α) :
    (es.map fun e ↦ (e.1, encode e.2)).foldlM
      (fun dict field ↦ (d field.2).map (dict.insert field.1)) dict
        = .ok (es.foldl (fun dict (key, value) ↦ dict.insert key value) dict) := by
  induction es generalizing dict with
  | nil => rfl
  | cons e rest ih =>
    obtain ⟨he, hrest⟩ := List.forall_mem_cons.1 h
    rw [List.map_cons, List.foldlM_cons, he]
    exact ih hrest (dict.insert e.1 e.2)

theorem dictionary_ok (encode : α → Json) (dict : Dictionary α)
    (h : ∀ e ∈ dict.entries, d (encode e.2) = .ok e.2) :
    dictionary d (.object (dict.entries.map fun e ↦ (e.1, encode e.2))) = .ok dict :=
  (foldlM_insert_ok h Dictionary.empty).trans <|
    congrArg Except.ok (Dictionary.ext (Dictionary.entries_ofList dict.ascending))

theorem text_ok (s : String) : text (.text s) = .ok s := rfl

theorem texts_ok (items : List String) : list text (Json.texts items) = .ok items :=
  list_ok fun s _ ↦ text_ok s

end Decoder

/-! ## Structures -/

namespace Record

variable {α β : Type}

/-- Along the fields of a record, those of a document are read into a structure one after the other;
a field that is not required may be left out. -/
inductive Steps : List (Field α) → α → List (String × Json) → α → Prop where
  | done (a : α) : Steps [] a [] a
  | read {f : Field α} {fs : List (Field α)} {a b c : α} {v : Json} {rest : List (String × Json)}
      (h : f.read v a = .ok b) (hrest : Steps fs b rest c) :
      Steps (f :: fs) a ((f.key, v) :: rest) c
  | skip {f : Field α} {fs : List (Field α)} {a c : α} {rest : List (String × Json)}
      (h : f.presence ≠ .required) (hrest : Steps fs a rest c) : Steps (f :: fs) a rest c

theorem find?_key {before after : List (Field α)} {f : Field α}
    (h : ((before ++ f :: after).map (·.key)).Nodup) :
    (before ++ f :: after).find? (·.key == f.key) = some f := by
  have hbefore : before.find? (·.key == f.key) = none := by
    rw [List.find?_eq_none]
    intro g hg heq
    rw [List.map_append, List.map_cons, List.nodup_append] at h
    exact h.2.2 g.key (List.mem_map_of_mem hg) f.key List.mem_cons_self (beq_iff_eq.1 heq)
  have hfound : (f :: after).find? (·.key == f.key) = some f :=
    List.find?_cons_of_pos (beq_self_eq_true f.key)
  rw [List.find?_append, hbefore, hfound]
  rfl

/-- After the fields `before`, of which those in `seen` have been read, the reader finds every field
where it stands. -/
theorem Steps.readObject_eq (before : List (Field α)) {after : List (Field α)} {seen : List String}
    {a b : α} {rest : List (String × Json)} (h : Steps after a rest b)
    (hkeys : ((before ++ after).map (·.key)).Nodup)
    (hseen : ∀ key ∈ seen, key ∈ before.map (·.key))
    (hbefore : ∀ f ∈ before, f.presence = .required → f.key ∈ seen) :
    readObject (before ++ after) seen a rest = .ok b := by
  induction h generalizing before seen with
  | done =>
    rw [readObject, if_pos]
    rw [List.append_nil, List.all_eq_true]
    intro f hf
    rw [Bool.or_eq_true, bne_iff_ne, List.contains_iff_mem]
    by_cases hrequired : f.presence = .required
    · exact .inr (hbefore f hf hrequired)
    · exact .inl hrequired
  | @read f fs a b c v rest h _ ih =>
    have hnew : ¬seen.contains f.key = true := by
      rw [List.contains_iff_mem]
      intro hmem
      rw [List.map_append, List.map_cons, List.nodup_append] at hkeys
      exact hkeys.2.2 f.key (hseen _ hmem) f.key List.mem_cons_self rfl
    rw [readObject, find?_key hkeys]
    dsimp only
    rw [if_neg hnew, h]
    rw [List.append_cons] at hkeys ⊢
    refine ih _ hkeys ?_ ?_
    · intro key hkey
      rw [List.map_append, List.mem_append]
      rcases List.mem_cons.1 hkey with rfl | hkey
      · exact .inr List.mem_cons_self
      · exact .inl (hseen key hkey)
    · intro g hg hrequired
      rcases List.mem_append.1 hg with hg | hg
      · exact List.mem_cons_of_mem _ (hbefore g hg hrequired)
      · rw [List.mem_singleton.1 hg]
        exact List.mem_cons_self
  | @skip f fs a c rest h _ ih =>
    rw [List.append_cons] at hkeys ⊢
    refine ih _ hkeys ?_ ?_
    · intro key hkey
      rw [List.map_append]
      exact List.mem_append_left _ (hseen key hkey)
    · intro g hg hrequired
      rcases List.mem_append.1 hg with hg | hg
      · exact hbefore g hg hrequired
      · rw [List.mem_singleton.1 hg] at hrequired
        exact absurd hrequired h

/-- **A document that goes along a record is decoded as what its steps lead to.** -/
theorem decode_of_steps {r : Record α} {fields : List (String × Json)} {a : α}
    (h : Steps r.fields r.blank fields a) (hkeys : (r.fields.map (·.key)).Nodup) :
    r.decode (.object fields) = .ok a :=
  h.readObject_eq [] hkeys (fun _ h ↦ absurd h List.not_mem_nil)
    (fun _ h ↦ absurd h List.not_mem_nil)

namespace Steps

variable {key : String} {presence : Presence} {d : Decoder β} {set : β → α → α}
  {fs : List (Field α)} {a b : α} {rest : List (String × Json)}

/-- A field that is there. -/
theorem of {v : Json} {x : β} (h : d v = .ok x) (hrest : Steps fs (set x a) rest b) :
    Steps (.of key presence d set :: fs) a ((key, v) :: rest) b :=
  .read (f := .of key presence d set) (by show (d v).map _ = _; rw [h]; rfl) hrest

end Steps

end Record

end Glossopoeia
