import Mathlib.Data.List.Forall2
import Glossopoeia.Proofs.Affix.Document

/-!
# The shapes of an affix rule

A document does not say which shape an affix rule has; its keys tell.  `AffixRule.Fits` says for
each shape which values have it, by the texts that their keys hold and not by the order in which
readers are tried.  A rule is read from a value exactly if the value fits it, and a value that fits
none is refused (`AffixRule.decode_eq_ok_iff`).

Keys that a shape does not know are passed over, save that the empty rule has no key at all.  In an
object without repeated keys what a key holds can be looked up; that is the only thing asked of the
value.
-/

set_option autoImplicit false

namespace Glossopoeia

namespace Json

/-- Does no key come twice? -/
def KeysDistinct : Json → Prop
  | object fields => (fields.map Prod.fst).Nodup
  | _ => True

/-- Does each of the keys hold a string? -/
def HoldsTexts (v : Json) (keys : List String) : Prop :=
  ∀ key ∈ keys, ∃ s, v.field? key = some (.text s)

end Json

/-! ## Looking up in an object -/

theorem mapM_eq_some_iff_forall₂ {α β : Type} {f : α → Option β} {list : List α} {bs : List β} :
    list.mapM f = some bs ↔ List.Forall₂ (fun a b ↦ f a = some b) list bs := by
  induction list generalizing bs with
  | nil => simp [eq_comm]
  | cons a list ih =>
    rw [List.mapM_cons, List.forall₂_cons_left_iff]
    simp only [Option.bind_eq_bind, Option.bind_eq_some_iff, Option.pure_def, Option.some.injEq, ih]
    constructor
    · rintro ⟨b, hb, bs', hbs, rfl⟩
      exact ⟨b, bs', hb, hbs, rfl⟩
    · rintro ⟨b, bs', hb, hbs, rfl⟩
      exact ⟨b, hb, bs', hbs, rfl⟩

/-- A key that comes once is found where it stands. -/
theorem filter_key_eq {fields : List (String × Json)} (h : (fields.map Prod.fst).Nodup)
    (key : String) :
    fields.filter (·.1 == key) = ((fields.lookup key).map fun v ↦ (key, v)).toList := by
  induction fields with
  | nil => rfl
  | cons field rest ih =>
    obtain ⟨k, v⟩ := field
    rw [List.map_cons, List.nodup_cons] at h
    rw [Dictionary.lookup_cons_eq_ite, List.filter_cons]
    by_cases hkey : key = k
    · subst hkey
      have hnone : rest.filter (·.1 == key) = [] := by
        rw [List.filter_eq_nil_iff]
        rintro ⟨k, w⟩ hmem heq
        exact h.1 (List.mem_map.2 ⟨_, hmem, beq_iff_eq.1 heq⟩)
      rw [if_pos (beq_self_eq_true key), hnone, if_pos rfl]
      rfl
    · rw [if_neg (by simpa using Ne.symm hkey), if_neg hkey, ih h.2]

namespace AffixRule

variable {fields : List (String × Json)} {keys texts : List String}

/-- The texts of some keys are read exactly if each key holds its text. -/
theorem texts?_eq_some_iff (h : (fields.map Prod.fst).Nodup) :
    texts? fields keys = some texts ↔
      List.Forall₂ (fun key s ↦ (Json.object fields).field? key = some (.text s)) keys texts := by
  rw [texts?, mapM_eq_some_iff_forall₂]
  refine iff_of_eq (congrArg (List.Forall₂ · keys texts) (funext₂ fun key s ↦ propext ?_))
  rw [filter_key_eq h, Json.field?]
  cases fields.lookup key with
  | none => simp
  | some v => cases v <;> simp

/-! ## Shapes -/

/-- A value has the shape of a rule: the keys of the rule hold its texts, and those of no shape that
says more are all there.  Only the empty rule has no texts, and no value but the empty ones has its
shape. -/
inductive Fits (v : Json) : AffixRule → Prop
  | substitute {p sp r sr : String}
    (hp : v.field? "pronunciation_regex" = some (.text p))
    (hsp : v.field? "spelling_regex" = some (.text sp))
    (hr : v.field? "pronunciation_replacement" = some (.text r))
    (hsr : v.field? "spelling_replacement" = some (.text sr)) : Fits v (.substitute p sp r sr)
  | conditional {p sp t ts f fs : String} (hno : ¬v.HoldsTexts substituteKeys)
    (hp : v.field? "pronunciation_regex" = some (.text p))
    (hsp : v.field? "spelling_regex" = some (.text sp))
    (ht : v.field? "t_pronunciation_add" = some (.text t))
    (hts : v.field? "t_spelling_add" = some (.text ts))
    (hf : v.field? "f_pronunciation_add" = some (.text f))
    (hfs : v.field? "f_spelling_add" = some (.text fs)) : Fits v (.conditional p sp t ts f fs)
  | plain {a s : String} (hno : ¬v.HoldsTexts substituteKeys)
    (hno' : ¬v.HoldsTexts conditionalKeys)
    (ha : v.field? "pronunciation_add" = some (.text a))
    (hs : v.field? "spelling_add" = some (.text s)) : Fits v (.plain a s)
  | empty (h : v = .object [] ∨ v = .list []) : Fits v .empty

section Readers

variable {rule : AffixRule} (h : (fields.map Prod.fst).Nodup)

include h

theorem substitute?_eq_some_iff :
    substitute? fields = some rule ↔ ∃ p sp r sr,
      (Json.object fields).field? "pronunciation_regex" = some (.text p) ∧
      (Json.object fields).field? "spelling_regex" = some (.text sp) ∧
      (Json.object fields).field? "pronunciation_replacement" = some (.text r) ∧
      (Json.object fields).field? "spelling_replacement" = some (.text sr) ∧
      rule = .substitute p sp r sr := by
  have htexts (p sp r sr : String) :=
    @texts?_eq_some_iff fields substituteKeys [p, sp, r, sr] h
  simp only [substituteKeys, List.forall₂_cons, List.forall₂_nil_left_iff, and_true] at htexts
  rw [substitute?, substituteKeys]
  split
  · next p sp r sr heq =>
    obtain ⟨hp, hsp, hr, hsr⟩ := (htexts p sp r sr).1 heq
    simp [hp, hsp, hr, hsr, eq_comm]
  · next hne =>
    refine ⟨nofun, ?_⟩
    rintro ⟨p, sp, r, sr, hp, hsp, hr, hsr, -⟩
    exact absurd ((htexts p sp r sr).2 ⟨hp, hsp, hr, hsr⟩) (hne p sp r sr)

theorem substitute?_eq_none_iff :
    substitute? fields = none ↔ ¬(Json.object fields).HoldsTexts substituteKeys := by
  rw [← Option.not_isSome_iff_eq_none, Option.isSome_iff_exists, not_iff_not]
  simp only [substitute?_eq_some_iff h, Json.HoldsTexts, substituteKeys, List.forall_mem_cons,
    List.not_mem_nil, false_implies, implies_true, and_true]
  constructor
  · rintro ⟨_, p, sp, r, sr, hp, hsp, hr, hsr, -⟩
    exact ⟨⟨p, hp⟩, ⟨sp, hsp⟩, ⟨r, hr⟩, ⟨sr, hsr⟩⟩
  · rintro ⟨⟨p, hp⟩, ⟨sp, hsp⟩, ⟨r, hr⟩, ⟨sr, hsr⟩⟩
    exact ⟨_, p, sp, r, sr, hp, hsp, hr, hsr, rfl⟩

theorem conditional?_eq_some_iff :
    conditional? fields = some rule ↔ ∃ p sp t ts f fs,
      (Json.object fields).field? "pronunciation_regex" = some (.text p) ∧
      (Json.object fields).field? "spelling_regex" = some (.text sp) ∧
      (Json.object fields).field? "t_pronunciation_add" = some (.text t) ∧
      (Json.object fields).field? "t_spelling_add" = some (.text ts) ∧
      (Json.object fields).field? "f_pronunciation_add" = some (.text f) ∧
      (Json.object fields).field? "f_spelling_add" = some (.text fs) ∧
      rule = .conditional p sp t ts f fs := by
  have htexts (p sp t ts f fs : String) :=
    @texts?_eq_some_iff fields conditionalKeys [p, sp, t, ts, f, fs] h
  simp only [conditionalKeys, List.forall₂_cons, List.forall₂_nil_left_iff, and_true] at htexts
  rw [conditional?, conditionalKeys]
  split
  · next p sp t ts f fs heq =>
    obtain ⟨hp, hsp, ht, hts, hf, hfs⟩ := (htexts p sp t ts f fs).1 heq
    simp [hp, hsp, ht, hts, hf, hfs, eq_comm]
  · next hne =>
    refine ⟨nofun, ?_⟩
    rintro ⟨p, sp, t, ts, f, fs, hp, hsp, ht, hts, hf, hfs, -⟩
    exact absurd ((htexts p sp t ts f fs).2 ⟨hp, hsp, ht, hts, hf, hfs⟩) (hne p sp t ts f fs)

theorem conditional?_eq_none_iff :
    conditional? fields = none ↔ ¬(Json.object fields).HoldsTexts conditionalKeys := by
  rw [← Option.not_isSome_iff_eq_none, Option.isSome_iff_exists, not_iff_not]
  simp only [conditional?_eq_some_iff h, Json.HoldsTexts, conditionalKeys, List.forall_mem_cons,
    List.not_mem_nil, false_implies, implies_true, and_true]
  constructor
  · rintro ⟨_, p, sp, t, ts, f, fs, hp, hsp, ht, hts, hf, hfs, -⟩
    exact ⟨⟨p, hp⟩, ⟨sp, hsp⟩, ⟨t, ht⟩, ⟨ts, hts⟩, ⟨f, hf⟩, ⟨fs, hfs⟩⟩
  · rintro ⟨⟨p, hp⟩, ⟨sp, hsp⟩, ⟨t, ht⟩, ⟨ts, hts⟩, ⟨f, hf⟩, ⟨fs, hfs⟩⟩
    exact ⟨_, p, sp, t, ts, f, fs, hp, hsp, ht, hts, hf, hfs, rfl⟩

theorem plain?_eq_some_iff :
    plain? fields = some rule ↔ ∃ a s,
      (Json.object fields).field? "pronunciation_add" = some (.text a) ∧
      (Json.object fields).field? "spelling_add" = some (.text s) ∧
      rule = .plain a s := by
  have htexts (a s : String) :=
    @texts?_eq_some_iff fields plainKeys [a, s] h
  simp only [plainKeys, List.forall₂_cons, List.forall₂_nil_left_iff, and_true] at htexts
  rw [plain?, plainKeys]
  split
  · next a s heq =>
    obtain ⟨ha, hs⟩ := (htexts a s).1 heq
    simp [ha, hs, eq_comm]
  · next hne =>
    refine ⟨nofun, ?_⟩
    rintro ⟨a, s, ha, hs, -⟩
    exact absurd ((htexts a s).2 ⟨ha, hs⟩) (hne a s)

theorem plain?_eq_none_iff :
    plain? fields = none ↔ ¬(Json.object fields).HoldsTexts plainKeys := by
  rw [← Option.not_isSome_iff_eq_none, Option.isSome_iff_exists, not_iff_not]
  simp only [plain?_eq_some_iff h, Json.HoldsTexts, plainKeys, List.forall_mem_cons,
    List.not_mem_nil, false_implies, implies_true, and_true]
  constructor
  · rintro ⟨_, a, s, ha, hs, -⟩
    exact ⟨⟨a, ha⟩, ⟨s, hs⟩⟩
  · rintro ⟨⟨a, ha⟩, ⟨s, hs⟩⟩
    exact ⟨_, a, s, ha, hs, rfl⟩

end Readers

/-- The fields of an object describe a rule exactly if the object has its shape. -/
theorem ofFields?_eq_some_iff (h : (fields.map Prod.fst).Nodup) {rule : AffixRule} :
    ofFields? fields = some rule ↔ Fits (.object fields) rule := by
  rw [ofFields?, Option.or_eq_some_iff, Option.or_eq_some_iff, Option.or_eq_some_iff,
    substitute?_eq_some_iff h, substitute?_eq_none_iff h, conditional?_eq_some_iff h,
    conditional?_eq_none_iff h, plain?_eq_some_iff h, plain?_eq_none_iff h]
  constructor
  · rintro (⟨p, sp, r, sr, hp, hsp, hr, hsr, rfl⟩ | ⟨hno, hrest⟩)
    · exact .substitute hp hsp hr hsr
    rcases hrest with ⟨p, sp, t, ts, f, fs, hp, hsp, ht, hts, hf, hfs, rfl⟩ | ⟨hno', hrest⟩
    · exact .conditional hno hp hsp ht hts hf hfs
    rcases hrest with ⟨a, s, ha, hs, rfl⟩ | ⟨-, hempty⟩
    · exact .plain hno hno' ha hs
    · cases fields with
      | nil =>
        cases hempty
        exact .empty (.inl rfl)
      | cons _ _ => cases hempty
  · intro hfits
    cases hfits with
    | substitute hp hsp hr hsr => exact .inl ⟨_, _, _, _, hp, hsp, hr, hsr, rfl⟩
    | conditional hno hp hsp ht hts hf hfs =>
      exact .inr ⟨hno, .inl ⟨_, _, _, _, _, _, hp, hsp, ht, hts, hf, hfs, rfl⟩⟩
    | plain hno hno' ha hs => exact .inr ⟨hno, .inr ⟨hno', .inl ⟨_, _, ha, hs, rfl⟩⟩⟩
    | empty hempty =>
      obtain rfl : fields = [] := by simpa using hempty
      have hnone {key : String} {keys : List String} :
          ¬(Json.object []).HoldsTexts (key :: keys) := fun hall ↦ by
        obtain ⟨_, hs⟩ := hall key List.mem_cons_self
        cases hs
      exact .inr ⟨hnone, .inr ⟨hnone, .inr ⟨hnone, rfl⟩⟩⟩

theorem Fits.exists_field? {v : Json} {rule : AffixRule} (h : Fits v rule) :
    (∃ key s, v.field? key = some (.text s)) ∨ v = .object [] ∨ v = .list [] := by
  cases h with
  | substitute hp => exact .inl ⟨_, _, hp⟩
  | conditional _ hp => exact .inl ⟨_, _, hp⟩
  | plain _ _ ha => exact .inl ⟨_, _, ha⟩
  | empty h => exact .inr h

theorem fits_list_nil_iff {rule : AffixRule} : Fits (.list []) rule ↔ rule = .empty := by
  constructor
  · intro h
    cases h with
    | empty => rfl
    | substitute hp => cases hp
    | conditional _ hp => cases hp
    | plain _ _ ha => cases ha
  · rintro rfl
    exact .empty (.inr rfl)

/-- A rule is read from the values that have its shape, if they can be held. -/
theorem decode_eq_ok_iff {v : Json} (h : v.KeysDistinct) {rule : AffixRule} :
    decode v = .ok rule ↔ v.isReadable = true ∧ Fits v rule := by
  have hother (hfield : ∀ key, v.field? key = none) (hempty : v ≠ .object [] ∧ v ≠ .list [])
      (hdecode : decode v = .error .affixRule) :
      decode v = .ok rule ↔ v.isReadable = true ∧ Fits v rule := by
    refine iff_of_false (by simp [hdecode]) fun hfits ↦ ?_
    rcases hfits.2.exists_field? with ⟨key, s, hkey⟩ | hobject | hlist
    · simp [hfield] at hkey
    · exact hempty.1 hobject
    · exact hempty.2 hlist
  cases v with
  | object fields =>
    rw [← ofFields?_eq_some_iff h, decode]
    cases ofFields? fields with
    | none => simp
    | some r => cases hread : (Json.object fields).isReadable <;> simp
  | list items =>
    cases items with
    | nil =>
      rw [fits_list_nil_iff]
      exact ⟨fun hok ↦ ⟨rfl, (Except.ok.inj hok).symm⟩, fun hrule ↦ congrArg Except.ok hrule.2.symm⟩
    | cons => exact hother (fun _ ↦ rfl) (by simp) rfl
  | null => exact hother (fun _ ↦ rfl) (by simp) rfl
  | bool => exact hother (fun _ ↦ rfl) (by simp) rfl
  | int => exact hother (fun _ ↦ rfl) (by simp) rfl
  | float => exact hother (fun _ ↦ rfl) (by simp) rfl
  | text => exact hother (fun _ ↦ rfl) (by simp) rfl
  | unreadable => exact hother (fun _ ↦ rfl) (by simp) rfl

/-- There is one way to fail. -/
theorem decode_eq_error_iff {v : Json} :
    decode v = .error .affixRule ↔ ∀ rule, decode v ≠ .ok rule := by
  refine ⟨fun h rule hok ↦ absurd (h.symm.trans hok) nofun, fun h ↦ ?_⟩
  have hcases : (∃ rule, decode v = .ok rule) ∨ decode v = .error .affixRule := by
    unfold decode
    dsimp only
    split
    · cases v.isReadable
      · exact .inr rfl
      · exact .inl ⟨_, rfl⟩
    · exact .inr rfl
  exact hcases.resolve_left fun ⟨rule, hok⟩ ↦ h rule hok

end AffixRule

/-! ## Rules beside a type -/

theorem keysDistinct_filter {fields : List (String × Json)} (h : (Json.object fields).KeysDistinct)
    (p : String × Json → Bool) : (Json.object (fields.filter p)).KeysDistinct :=
  h.sublist ((List.filter_sublist ..).map Prod.fst)

/-- A derivational affix is read from an object with a type: its rule is what the other fields
describe. -/
theorem DerivationalAffix.decode_eq_ok_iff {fields : List (String × Json)}
    (h : (Json.object fields).KeysDistinct) {a : DerivationalAffix} :
    decode (.object fields) = .ok a ↔
      (∃ tag, (Json.object fields).field? "type" = some tag ∧ WordEnd.decode tag = .ok a.position) ∧
      AffixRule.decode (.object (fields.filter (·.1 != "type"))) = .ok a.rule := by
  rw [decode, filter_key_eq h, Json.field?]
  cases fields.lookup "type" with
  | none => simp
  | some tag =>
    obtain ⟨position, rule⟩ := a
    dsimp only [Option.map_some, Option.toList_some]
    cases hposition : WordEnd.decode tag with
    | error e => simp [hposition]
    | ok end? =>
      cases hrule : AffixRule.decode (.object (fields.filter (·.1 != "type"))) with
      | error e => simp
      | ok r => simp [hposition]

/-! ## Reading and writing -/

/-- **An affix rule is read by the shape of the value.**  Of a value without repeated keys at most
one rule is read: the one that the value fits; and if it fits none, that is an error.  Beside a type
a rule is read from the other fields.  What is written of a rule, a slot or a derivational affix is
read as the same again. -/
theorem AffixRule.decode_eq_ok_iff_fits :
    (∀ v : Json, v.KeysDistinct →
      (∀ rule, decode v = .ok rule ↔ v.isReadable = true ∧ Fits v rule) ∧
      (decode v = .error .affixRule ↔ ∀ rule, ¬(v.isReadable = true ∧ Fits v rule))) ∧
    (∀ fields : List (String × Json), (Json.object fields).KeysDistinct →
      ∀ a, DerivationalAffix.decode (.object fields) = .ok a ↔
        (∃ tag, (Json.object fields).field? "type" = some tag ∧
          WordEnd.decode tag = .ok a.position) ∧
        (Json.object (fields.filter (·.1 != "type"))).isReadable = true ∧
        Fits (.object (fields.filter (·.1 != "type"))) a.rule) ∧
    (∀ rule : AffixRule, decode rule.toJson = .ok rule) ∧
    (∀ slot : AffixSlot, AffixSlot.decode slot.toJson = .ok slot) ∧
    ∀ a : DerivationalAffix, DerivationalAffix.decode a.toJson = .ok a := by
  refine ⟨fun v hv ↦ ⟨fun rule ↦ decode_eq_ok_iff hv, ?_⟩, fun fields hfields a ↦ ?_,
    decode_toJson, AffixSlot.decode_toJson, DerivationalAffix.decode_toJson⟩
  · rw [decode_eq_error_iff]
    simp only [ne_eq, decode_eq_ok_iff hv]
  · rw [DerivationalAffix.decode_eq_ok_iff hfields,
      decode_eq_ok_iff (keysDistinct_filter hfields _)]

/-- All keys of a conditional rule are there, and those of a replacement but for one that holds
null; a further key is passed over. -/
theorem AffixRule.decode_eq_ok_iff_fits_null :
    (Json.object [("note", .int 1), ("pronunciation_regex", .text "a$"),
      ("spelling_regex", .text "a$"), ("pronunciation_replacement", .text "o"),
      ("spelling_replacement", .null), ("t_pronunciation_add", .text "n"),
      ("t_spelling_add", .text "n"), ("f_pronunciation_add", .text "an"),
      ("f_spelling_add", .text "an")]).KeysDistinct ∧
    decode (.object [("note", .int 1), ("pronunciation_regex", .text "a$"),
      ("spelling_regex", .text "a$"), ("pronunciation_replacement", .text "o"),
      ("spelling_replacement", .null), ("t_pronunciation_add", .text "n"),
      ("t_spelling_add", .text "n"), ("f_pronunciation_add", .text "an"),
      ("f_spelling_add", .text "an")]) = .ok (.conditional "a$" "a$" "n" "n" "an" "an") := by
  have hkeys : (Json.object [("note", .int 1), ("pronunciation_regex", .text "a$"),
      ("spelling_regex", .text "a$"), ("pronunciation_replacement", .text "o"),
      ("spelling_replacement", .null), ("t_pronunciation_add", .text "n"),
      ("t_spelling_add", .text "n"), ("f_pronunciation_add", .text "an"),
      ("f_spelling_add", .text "an")]).KeysDistinct := by
    show List.Nodup _
    decide
  refine ⟨hkeys, ((decode_eq_ok_iff_fits.1 _ hkeys).1 _).2 ⟨rfl, ?_⟩⟩
  refine .conditional (fun hall ↦ ?_) rfl rfl rfl rfl rfl rfl
  obtain ⟨s, hs⟩ := hall "spelling_replacement" (by decide)
  cases hs

end Glossopoeia
