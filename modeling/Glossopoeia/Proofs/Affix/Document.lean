import Glossopoeia.Affix.Document
import Glossopoeia.Proofs.Json.Decode
import Glossopoeia.Proofs.Json.RoundTrip

/-!
# Affixes that are encoded and decoded again

The shapes of an affix rule are told apart by their keys alone: no shape that is tried before
another one fits the fields of that other (`AffixRule.ofFields?_fields`), and none has a key `type`,
so that what stands beside a rule can be taken away from it (`AffixRule.filter_cons_fields`).
-/

set_option autoImplicit false

namespace Glossopoeia

/-! ## Rules -/

namespace AffixRule

theorem ofFields?_fields (r : AffixRule) : ofFields? r.fields = some r := by
  cases r with
  | substitute p sp r sr => rfl
  | conditional p sp t ts f fs => rfl
  | plain a s => rfl
  | empty => rfl

theorem decode_toJson (r : AffixRule) : decode r.toJson = .ok r := by
  have hreadable : (Json.object r.fields).isReadable = true := by cases r <;> rfl
  rw [toJson, decode, ofFields?_fields]
  exact if_pos hreadable

theorem ne_type_of_mem_fields (r : AffixRule) : ∀ f ∈ r.fields, f.1 ≠ "type" := by
  cases r <;> simp [fields]

theorem filter_cons_fields (r : AffixRule) (v : Json) :
    (("type", v) :: r.fields).filter (·.1 == "type") = [("type", v)] ∧
      (("type", v) :: r.fields).filter (·.1 != "type") = r.fields := by
  have hne := r.ne_type_of_mem_fields
  rw [List.filter_cons_of_pos rfl, List.filter_cons_of_neg (by simp)]
  refine ⟨congrArg _ (List.filter_eq_nil_iff.2 ?_), List.filter_eq_self.2 ?_⟩
  · exact fun f hf ↦ by simp [hne f hf]
  · exact fun f hf ↦ by simp [hne f hf]

theorem readsBack_fields (r : AffixRule) : ∀ f ∈ r.fields, Json.ReadsBackAs f.2 f.2 := by
  cases r <;> simp [fields]

end AffixRule

/-! ## Slots -/

theorem DeclensionRule.decode_toJson (r : DeclensionRule) : decode r.toJson = .ok r := by
  have hdictionary : Decoder.dictionary AffixRule.decode r.toJson
      = .ok ⟨[(r.declension, r.affix)], List.pairwise_singleton _ _⟩ :=
    Decoder.dictionary_ok AffixRule.toJson ⟨[(r.declension, r.affix)], List.pairwise_singleton _ _⟩
      fun e _ ↦ e.2.decode_toJson
  rw [decode, hdictionary]

theorem AffixKind.ofName?_name (kind : AffixKind) : ofName? kind.name = some kind := by
  cases kind <;> rfl

theorem AffixSlot.decode_toJson (s : AffixSlot) : decode s.toJson = .ok s := by
  have hrules : Decoder.list DeclensionRule.decode (.list (s.rules.map DeclensionRule.toJson))
      = .ok s.rules := Decoder.list_ok fun r _ ↦ r.decode_toJson
  rw [toJson, decode, decodeFields, AffixKind.ofName?_name, hrules]
  rfl

theorem AffixMap.decode_toJson (m : AffixMap) : decode (toJson m) = .ok m :=
  Decoder.dictionary_ok (fun slots : List AffixSlot ↦ .list (slots.map AffixSlot.toJson)) m
    fun _ _ ↦ Decoder.list_ok fun s _ ↦ s.decode_toJson

theorem AffixSlot.readsBack_toJson (s : AffixSlot) : Json.ReadsBackAs s.toJson s.toJson := by
  refine .object_self (List.forall_mem_singleton.2 ?_)
  refine .list_self (List.forall_mem_map.2 fun r _ ↦ ?_)
  exact .object_self (List.forall_mem_singleton.2 (.object_self r.affix.readsBack_fields))

theorem AffixMap.readsBack_toJson (m : AffixMap) : Json.ReadsBackAs (toJson m) (toJson m) :=
  .bindings (fun slots : List AffixSlot ↦ .list (slots.map AffixSlot.toJson))
    (fun _ ↦ .list_self (List.forall_mem_map.2 fun s _ ↦ s.readsBack_toJson)) m.entries

/-! ## Derivational affixes -/

theorem WordEnd.decode_name (position : WordEnd) : decode (.text position.name) = .ok position := by
  cases position <;> rfl

theorem DerivationalAffix.decode_toJson (a : DerivationalAffix) : decode a.toJson = .ok a := by
  obtain ⟨htype, hrule⟩ := a.rule.filter_cons_fields (.text a.position.name)
  rw [toJson, decode, htype, hrule]
  dsimp only
  rw [WordEnd.decode_name]
  dsimp only
  rw [← AffixRule.toJson, AffixRule.decode_toJson]

theorem DerivationalAffixMap.decode_toJson (m : DerivationalAffixMap) :
    decode (toJson m) = .ok m :=
  Decoder.dictionary_ok DerivationalAffix.toJson m fun e _ ↦ e.2.decode_toJson

theorem DerivationalAffixMap.readsBack_toJson (m : DerivationalAffixMap) :
    Json.ReadsBackAs (toJson m) (toJson m) := by
  refine .bindings DerivationalAffix.toJson (fun a ↦ .object_self ?_) m.entries
  exact List.forall_mem_cons.2 ⟨.text _, a.rule.readsBack_fields⟩

end Glossopoeia
