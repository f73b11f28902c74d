import Mathlib.Data.List.Forall2
import Glossopoeia.Proofs.Json.Quoted
import Glossopoeia.Proofs.Json.Reread

/-!
# Values that are written and read again

`ReadsBackAs v w` says that the text of `v` is read as `w`, at whatever depth it stands, whatever
follows it and however much fuel is left beyond twice its length.  Strings, truth values and whole
numbers of 64 bits are read back as themselves, a double as what its numeral is read as; an array or
an object is read back as that of what its parts are read back as (`ReadsBackAs.list`,
`ReadsBackAs.object`).  So a value all of whose numbers are kept is read back as itself
(`Kept.readsBack`).  A whole text is that of a value and a line feed (`parse_pretty`).
-/

set_option autoImplicit false

namespace Glossopoeia.Json

open Text

/-! ## Depth -/

mutual

/-- How deep the arrays and objects of a value nest. -/
def depth : Json → Nat
  | list items => depthItems items + 1
  | object fields => depthFields fields + 1
  | _ => 0

/-- `depth` of the deepest item. -/
def depthItems : List Json → Nat
  | [] => 0
  | v :: rest => max (depth v) (depthItems rest)

/-- `depth` of the deepest field. -/
def depthFields : List (String × Json) → Nat
  | [] => 0
  | (_, v) :: rest => max (depth v) (depthFields rest)

end

/-! ## Blanks -/

/-- The text does not begin with a blank. -/
def Sharp (cs : List Char) : Prop :=
  ∀ c ∈ cs.head?, (c == ' ' || c == '\n' || c == '\t' || c == '\r') = false

theorem skipBlanks_sharp {cs : List Char} (h : Sharp cs) : skipBlanks cs = cs := by
  cases cs with
  | nil => rfl
  | cons c cs => exact List.dropWhile_cons_of_neg (by simp only [h c rfl]; decide)

theorem skipBlanks_newline (d : Nat) (cs : List Char) :
    skipBlanks (newline d ++ cs) = skipBlanks cs := by
  have hspaces : ∀ n, skipBlanks (List.replicate n ' ' ++ cs) = skipBlanks cs := by
    intro n
    induction n with
    | zero => rfl
    | succ n ih => exact ih
  exact hspaces (2 * d)

/-! ## One step of the reader -/

theorem ofFields_map_some (fields : List (String × Json)) :
    ofFields (fields.map fun f ↦ (some f.1, f.2)) = .object fields := by
  have hmap : (fields.map fun f ↦ (some f.1, f.2)).mapM
      (fun f : Option String × Json ↦ f.1.map (·, f.2)) = some fields := by
    rw [List.mapM_map]
    exact (List.mapM_pure (l := fields) (f := id)).trans (by rw [List.map_id]; rfl)
  rw [ofFields, hmap]

section Step

variable {fuel room : Nat} {cs left rest : List Char} {v : Json} {vs : List Json}

theorem readValue_newline (d : Nat) :
    readValue fuel room (newline d ++ cs) = readValue fuel room cs := by
  cases fuel with
  | zero => rfl
  | succ fuel =>
    rw [readValue.eq_def, readValue.eq_def]
    dsimp only
    rw [skipBlanks_newline]

theorem readValue_space : readValue fuel room (' ' :: cs) = readValue fuel room cs := by
  cases fuel with
  | zero => rfl
  | succ fuel => rfl

theorem readItems_newline (d : Nat) :
    readItems fuel room (newline d ++ cs) = readItems fuel room cs := by
  cases fuel with
  | zero => rfl
  | succ fuel =>
    rw [readItems.eq_def, readItems.eq_def]
    dsimp only
    rw [readValue_newline]

theorem readFields_newline (d : Nat) :
    readFields fuel room (newline d ++ cs) = readFields fuel room cs := by
  cases fuel with
  | zero => rfl
  | succ fuel =>
    rw [readFields.eq_def, readFields.eq_def]
    dsimp only
    rw [skipBlanks_newline]

theorem readValue_numeral {c : Char} (hc : c = '-' ∨ isAsciiDigit c = true) {n : Numeral}
    (h : readNumeral (c :: cs) = some (n, rest)) :
    readValue (fuel + 1) room (c :: cs) = some (n.value, rest) := by
  have hne : ∀ d, d ≠ '-' → isAsciiDigit d = false → ∀ ds, c :: cs ≠ d :: ds := by
    rintro d hminus hdigit ds heq
    obtain ⟨rfl, -⟩ := List.cons.inj heq
    rcases hc with rfl | hc
    · exact hminus rfl
    · exact absurd hc (by simp [hdigit])
  have hsharp : Sharp (c :: cs) := by
    rintro d ⟨⟩
    rcases hc with rfl | hc
    · rfl
    · rw [Bool.or_eq_false_iff, Bool.or_eq_false_iff, Bool.or_eq_false_iff]
      refine ⟨⟨⟨?_, ?_⟩, ?_⟩, ?_⟩ <;>
      · rw [beq_eq_false_iff_ne]
        rintro rfl
        cases hc
  rw [readValue.eq_def]
  dsimp only
  rw [skipBlanks_sharp hsharp]
  split
  case h_7 => rw [h]; rfl
  all_goals
    next heq => exact absurd heq (hne _ (by decide) (by decide) _)

theorem quote_append (s : String) (cs : List Char) :
    quote s ++ cs = '"' :: (s.toList.flatMap escape ++ '"' :: cs) := by
  rw [quote, List.cons_append, List.append_assoc]
  rfl

theorem readValue_quote (s : String) :
    readValue (fuel + 1) room (quote s ++ rest) = some (.text s, rest) := by
  rw [quote_append, readValue.eq_def]
  show (readString _).map _ = _
  rw [readString_quote]
  rfl

theorem readValue_list (d : Nat) (hroom : room ≠ 0) (hcs : Sharp cs) (hne : cs.head? ≠ some ']')
    (h : readItems fuel (room - 1) cs = some (vs, rest)) :
    readValue (fuel + 1) room ('[' :: (newline d ++ cs)) = some (.list vs, rest) := by
  have hskip : skipBlanks (newline d ++ cs) = cs := by rw [skipBlanks_newline, skipBlanks_sharp hcs]
  rw [readValue, skipBlanks_sharp (by rintro c ⟨⟩; rfl)]
  split
  case h_5 heq =>
    cases heq
    rw [hskip]
    split
    · exact absurd rfl hne
    · rw [h]
      show some (if room = 0 then _ else _, rest) = _
      rw [if_neg hroom]
  case h_7 heq _ => exact absurd rfl (heq _)
  all_goals next heq => cases heq

theorem readValue_object (d : Nat) (key : String) {fields : List (String × Json)} (hroom : room ≠ 0)
    (h : readFields fuel (room - 1) (quote key ++ cs)
      = some (fields.map fun f ↦ (some f.1, f.2), rest)) :
    readValue (fuel + 1) room ('\x7b' :: (newline d ++ (quote key ++ cs)))
      = some (.object fields, rest) := by
  have hskip : skipBlanks (newline d ++ (quote key ++ cs)) = quote key ++ cs := by
    rw [skipBlanks_newline, skipBlanks_sharp (by rintro c ⟨⟩; rfl)]
  rw [readValue, skipBlanks_sharp (by rintro c ⟨⟩; rfl)]
  split
  case h_6 heq =>
    cases heq
    rw [hskip]
    split
    · next heq => cases heq
    · rw [h]
      show some (if room = 0 then _ else _, rest) = _
      rw [if_neg hroom, ofFields_map_some]
  case h_7 heq => exact absurd rfl (heq _)
  all_goals next heq => cases heq

theorem readItems_last (d : Nat)
    (h : readValue fuel room cs = some (v, newline d ++ ']' :: rest)) :
    readItems (fuel + 1) room cs = some ([v], rest) := by
  rw [readItems, h]
  dsimp only
  rw [skipBlanks_newline]
  rfl

theorem readItems_more (h : readValue fuel room cs = some (v, ',' :: left))
    (hrest : readItems fuel room left = some (vs, rest)) :
    readItems (fuel + 1) room cs = some (v :: vs, rest) := by
  rw [readItems, h]
  show (readItems fuel room left).map _ = _
  rw [hrest]
  rfl

/-- What follows a field: more of them, or the closing brace. -/
def afterField (fuel room : Nat) (field : Option String × Json) :
    List Char → Option (List (Option String × Json) × List Char)
  | ',' :: rest => (readFields fuel room rest).map fun read ↦ (field :: read.1, read.2)
  | '\x7d' :: rest => some ([field], rest)
  | _ => none

theorem readFields_field (key : String) (h : readValue fuel room cs = some (v, left)) :
    readFields (fuel + 1) room (quote key ++ ':' :: ' ' :: cs)
      = afterField fuel room (some key, v) (skipBlanks left) := by
  rw [quote_append, readFields, skipBlanks_sharp (by rintro c ⟨⟩; rfl)]
  split
  · next heq =>
    cases heq
    rw [readString_quote]
    dsimp only
    rw [skipBlanks_sharp (by rintro c ⟨⟩; rfl)]
    split
    · next heq =>
      cases heq
      rw [readValue_space, h]
      rfl
    · next hne => exact absurd rfl (hne _)
  · next hne => exact absurd rfl (hne _)

theorem readFields_last (key : String) (d : Nat)
    (h : readValue fuel room cs = some (v, newline d ++ '\x7d' :: rest)) :
    readFields (fuel + 1) room (quote key ++ ':' :: ' ' :: cs) = some ([(some key, v)], rest) := by
  rw [readFields_field key h, skipBlanks_newline]
  rfl

theorem readFields_more {fields : List (Option String × Json)} (key : String)
    (h : readValue fuel room cs = some (v, ',' :: left))
    (hrest : readFields fuel room left = some (fields, rest)) :
    readFields (fuel + 1) room (quote key ++ ':' :: ' ' :: cs)
      = some ((some key, v) :: fields, rest) := by
  rw [readFields_field key h]
  show (readFields fuel room left).map _ = _
  rw [hrest]
  rfl

end Step

/-! ## Values -/

/-- The text of `v` is read as `w`. -/
structure ReadsBackAs (v w : Json) : Prop where
  /-- It begins neither with a blank nor with a closing bracket. -/
  starts : ∀ d, ∃ c cs, pretty d v = c :: cs ∧ c ∉ [' ', '\n', '\t', '\r', ']']
  /-- It is read, whatever follows it. -/
  reads : ∀ (d fuel room : Nat) (rest : List Char), depth v ≤ room →
    2 * (pretty d v).length ≤ fuel → Stops rest →
      readValue fuel room (pretty d v ++ rest) = some (w, rest)

namespace ReadsBackAs

variable {v w : Json}

theorem sharp (h : ReadsBackAs v w) (d : Nat) (cs : List Char) : Sharp (pretty d v ++ cs) := by
  obtain ⟨c, cs', hcons, hc⟩ := h.starts d
  rw [hcons]
  rintro c ⟨⟩
  simp only [List.mem_cons, List.not_mem_nil, or_false, not_or] at hc
  simp [hc]

theorem head_ne (h : ReadsBackAs v w) (d : Nat) (cs : List Char) :
    (pretty d v ++ cs).head? ≠ some ']' := by
  obtain ⟨c, cs', hcons, hc⟩ := h.starts d
  rw [hcons]
  rintro ⟨⟩
  exact hc (by decide)

/-- A value whose text is the same at every depth and read with any fuel. -/
theorem of_scalar {c : Char} {cs : List Char} (hv : ∀ d, pretty d v = c :: cs)
    (hc : c ∉ [' ', '\n', '\t', '\r', ']'])
    (hread : ∀ {fuel room : Nat} {rest : List Char}, Stops rest →
      readValue (fuel + 1) room (c :: cs ++ rest) = some (w, rest)) : ReadsBackAs v w where
  starts d := ⟨c, cs, hv d, hc⟩
  reads := by
    intro d fuel room rest _ hfuel hrest
    rw [hv, List.length_cons] at hfuel
    obtain ⟨fuel, rfl⟩ : ∃ k, fuel = k + 1 := ⟨fuel - 1, by omega⟩
    rw [hv]
    exact hread hrest

@[simp]
theorem null : ReadsBackAs .null .null := of_scalar (fun _ ↦ rfl) (by decide) fun _ ↦ rfl

@[simp]
theorem bool (b : Bool) : ReadsBackAs (.bool b) (.bool b) := by
  cases b with
  | false => exact of_scalar (fun _ ↦ rfl) (by decide) fun _ ↦ rfl
  | true => exact of_scalar (fun _ ↦ rfl) (by decide) fun _ ↦ rfl

@[simp]
theorem text (s : String) : ReadsBackAs (.text s) (.text s) :=
  of_scalar (fun _ ↦ rfl) (by decide) fun _ ↦ readValue_quote s

/-- A number is read back as the value of its numeral. -/
theorem numeral {cs : List Char} {n : Numeral} (hv : ∀ d, pretty d v = cs)
    (h : readNumeral cs = some (n, [])) : ReadsBackAs v n.value := by
  obtain ⟨c, cs, rfl, hc⟩ := exists_cons_of_readNumeral h
  refine of_scalar hv ?_ fun hrest ↦ readValue_numeral hc (readNumeral_append h hrest)
  rcases hc with rfl | hc
  · decide
  · intro hmem
    fin_cases hmem <;> cases hc

theorem int {n : Int} (hlow : -2 ^ 63 ≤ n) (hhigh : n < 2 ^ 64) :
    ReadsBackAs (.int n) (.int n) := by
  obtain ⟨numeral, hread, hvalue⟩ := readNumeral_renderInt hlow hhigh
  exact hvalue ▸ ReadsBackAs.numeral (v := .int n) (fun _ ↦ rfl) hread

theorem float {x y : Float} (h : ReadsAs x y) : ReadsBackAs (.float x) (.float y) := by
  obtain ⟨numeral, hread, hvalue⟩ := h
  exact hvalue ▸ ReadsBackAs.numeral (v := .float x) (fun _ ↦ rfl) hread

/-! ### Arrays -/

theorem prettyItems_nil_append (d : Nat) (rest : List Char) :
    prettyItems d [] ++ rest = newline d ++ ']' :: rest := by
  rw [prettyItems, List.append_assoc]
  rfl

theorem prettyItems_cons_append (d : Nat) (v : Json) (vs : List Json) (rest : List Char) :
    prettyItems d (v :: vs) ++ rest
      = ',' :: (newline (d + 1) ++ (pretty (d + 1) v ++ (prettyItems d vs ++ rest))) := by
  rw [prettyItems, List.cons_append, List.append_assoc, List.append_assoc]

theorem stops_prettyItems (d : Nat) (vs : List Json) (rest : List Char) :
    Stops (prettyItems d vs ++ rest) := by
  cases vs with
  | nil => exact stops_cons (by decide)
  | cons v vs => exact stops_cons (by decide)

theorem length_prettyItems_pos (d : Nat) (vs : List Json) : 0 < (prettyItems d vs).length := by
  cases vs with
  | nil => exact Nat.succ_pos _
  | cons v vs => exact Nat.succ_pos _

/-- The items of an array, the first of which is `v`, up to its closing bracket. -/
theorem readItems_pretty {vs ws : List Json} (h : List.Forall₂ ReadsBackAs vs ws)
    (hv : ReadsBackAs v w) {d fuel room : Nat} {rest : List Char}
    (hroom : depthItems (v :: vs) ≤ room)
    (hfuel : 2 * (pretty (d + 1) v ++ prettyItems d vs).length ≤ fuel) :
    readItems fuel room (pretty (d + 1) v ++ (prettyItems d vs ++ rest))
      = some (w :: ws, rest) := by
  induction h generalizing v w fuel with
  | nil =>
    have hclose := length_prettyItems_pos d []
    rw [List.length_append] at hfuel
    rw [depthItems] at hroom
    -- The step takes one unit of fuel, which the bracket pays for.
    obtain ⟨fuel, rfl⟩ : ∃ k, fuel = k + 1 := ⟨fuel - 1, by omega⟩
    have hfirst := hv.reads (d + 1) fuel room _ (by omega) (by omega)
      (stops_prettyItems d [] rest)
    rw [prettyItems_nil_append] at hfirst ⊢
    exact readItems_last d hfirst
  | @cons v' w' vs ws hv' _ ih =>
    rw [List.length_append, prettyItems, List.length_cons, List.append_assoc,
      List.length_append] at hfuel
    rw [depthItems] at hroom
    -- Here it is the comma that pays for it.
    obtain ⟨fuel, rfl⟩ : ∃ k, fuel = k + 1 := ⟨fuel - 1, by omega⟩
    have hfirst := hv.reads (d + 1) fuel room _ (by omega) (by omega)
      (stops_prettyItems d (v' :: vs) rest)
    rw [prettyItems_cons_append] at hfirst ⊢
    refine readItems_more hfirst ?_
    rw [readItems_newline]
    exact ih hv' (by omega) (by omega)

/-- **An array is read back as that of what its items are read back as.** -/
theorem list {vs ws : List Json} (h : List.Forall₂ ReadsBackAs vs ws) :
    ReadsBackAs (.list vs) (.list ws) := by
  cases h with
  | nil =>
    refine ⟨fun d ↦ ⟨'[', _, rfl, by decide⟩, ?_⟩
    intro d fuel room rest hroom hfuel _
    rw [depth] at hroom
    rw [pretty, List.length_cons] at hfuel
    obtain ⟨fuel, rfl⟩ : ∃ k, fuel = k + 1 := ⟨fuel - 1, by omega⟩
    show some (if room = 0 then _ else _, rest) = _
    rw [if_neg (by omega)]
  | @cons v w vs ws hv hvs =>
    refine ⟨fun d ↦ ⟨'[', _, rfl, by decide⟩, ?_⟩
    intro d fuel room rest hroom hfuel _
    rw [depth] at hroom
    rw [pretty, List.length_cons, List.append_assoc, List.length_append] at hfuel
    obtain ⟨fuel, rfl⟩ : ∃ k, fuel = k + 1 := ⟨fuel - 1, by omega⟩
    rw [pretty, List.cons_append, List.append_assoc, List.append_assoc]
    refine readValue_list (d + 1) (by omega) (hv.sharp _ _) (hv.head_ne _ _) ?_
    exact readItems_pretty hvs hv (by omega) (by omega)

theorem list_self {items : List Json} (h : ∀ v ∈ items, ReadsBackAs v v) :
    ReadsBackAs (.list items) (.list items) := list (List.forall₂_same.2 h)

@[simp]
theorem texts (items : List String) : ReadsBackAs (.texts items) (.texts items) :=
  list_self (List.forall_mem_map.2 fun s _ ↦ text s)

/-! ### Objects -/

/-- The fields have the same key, and the value of one is read as that of the other. -/
def Field (f g : String × Json) : Prop := f.1 = g.1 ∧ ReadsBackAs f.2 g.2

theorem Field.forall₂_same {fields : List (String × Json)}
    (h : ∀ f ∈ fields, ReadsBackAs f.2 f.2) : List.Forall₂ Field fields fields :=
  List.forall₂_same.2 fun f hf ↦ ⟨rfl, h f hf⟩

theorem prettyFields_nil_append (d : Nat) (rest : List Char) :
    prettyFields d [] ++ rest = newline d ++ '\x7d' :: rest := by
  rw [prettyFields, List.append_assoc]
  rfl

theorem prettyFields_cons_append (d : Nat) (key : String) (v : Json) (fs : List (String × Json))
    (rest : List Char) : prettyFields d ((key, v) :: fs) ++ rest
      = ',' :: (newline (d + 1) ++ (quote key ++ ':' :: ' ' :: (pretty (d + 1) v ++
        (prettyFields d fs ++ rest)))) := by
  rw [prettyFields]
  simp only [List.cons_append, List.append_assoc]

theorem stops_prettyFields (d : Nat) (fs : List (String × Json)) (rest : List Char) :
    Stops (prettyFields d fs ++ rest) := by
  cases fs with
  | nil => exact stops_cons (by decide)
  | cons f fs => exact stops_cons (by decide)

theorem length_prettyFields_pos (d : Nat) (fs : List (String × Json)) :
    0 < (prettyFields d fs).length := by
  cases fs with
  | nil => exact Nat.succ_pos _
  | cons f fs => exact Nat.succ_pos _

/-- The fields of an object, the first of which is `v` under `key`, up to its closing brace. -/
theorem readFields_pretty {fs gs : List (String × Json)} (h : List.Forall₂ Field fs gs)
    {key : String} (hv : ReadsBackAs v w) {d fuel room : Nat} {rest : List Char}
    (hroom : depthFields ((key, v) :: fs) ≤ room)
    (hfuel : 2 * (pretty (d + 1) v ++ prettyFields d fs).length ≤ fuel) :
    readFields fuel room (quote key ++ ':' :: ' ' :: (pretty (d + 1) v ++
      (prettyFields d fs ++ rest)))
      = some (((key, w) :: gs).map fun g ↦ (some g.1, g.2), rest) := by
  induction h generalizing key v w fuel with
  | nil =>
    have hclose := length_prettyFields_pos d []
    rw [List.length_append] at hfuel
    rw [depthFields] at hroom
    obtain ⟨fuel, rfl⟩ : ∃ k, fuel = k + 1 := ⟨fuel - 1, by omega⟩
    have hfirst := hv.reads (d + 1) fuel room _ (by omega) (by omega)
      (stops_prettyFields d [] rest)
    rw [prettyFields_nil_append] at hfirst ⊢
    exact readFields_last key d hfirst
  | @cons f g fs gs hf _ ih =>
    obtain ⟨key', v'⟩ := f
    obtain ⟨key'', w'⟩ := g
    obtain ⟨rfl, hv'⟩ : key' = key'' ∧ ReadsBackAs v' w' := hf
    rw [List.length_append, prettyFields, List.length_cons, List.append_assoc, List.length_append,
      List.length_append, List.length_cons, List.length_cons] at hfuel
    rw [depthFields] at hroom
    obtain ⟨fuel, rfl⟩ : ∃ k, fuel = k + 1 := ⟨fuel - 1, by omega⟩
    have hfirst := hv.reads (d + 1) fuel room _ (by omega) (by omega)
      (stops_prettyFields d ((key', v') :: fs) rest)
    rw [prettyFields_cons_append] at hfirst ⊢
    refine readFields_more key hfirst ?_
    rw [readFields_newline]
    exact ih hv' (by omega) (by omega)

/-- **An object is read back as that of what its fields are read back as.** -/
theorem object {fs gs : List (String × Json)} (h : List.Forall₂ Field fs gs) :
    ReadsBackAs (.object fs) (.object gs) := by
  cases h with
  | nil =>
    refine ⟨fun d ↦ ⟨'\x7b', _, rfl, by decide⟩, ?_⟩
    intro d fuel room rest hroom hfuel _
    rw [depth] at hroom
    rw [pretty, List.length_cons] at hfuel
    obtain ⟨fuel, rfl⟩ : ∃ k, fuel = k + 1 := ⟨fuel - 1, by omega⟩
    show some (if room = 0 then _ else _, rest) = _
    rw [if_neg (by omega)]
  | @cons f g fs gs hf hfs =>
    obtain ⟨key, v⟩ := f
    obtain ⟨key', w⟩ := g
    obtain ⟨rfl, hv⟩ : key = key' ∧ ReadsBackAs v w := hf
    refine ⟨fun d ↦ ⟨'\x7b', _, rfl, by decide⟩, ?_⟩
    intro d fuel room rest hroom hfuel _
    rw [depth] at hroom
    rw [pretty, List.length_cons, List.append_assoc, List.length_append, List.length_append,
      List.length_cons, List.length_cons] at hfuel
    obtain ⟨fuel, rfl⟩ : ∃ k, fuel = k + 1 := ⟨fuel - 1, by omega⟩
    rw [pretty]
    simp only [List.cons_append, List.append_assoc]
    exact readValue_object (d + 1) key (by omega) (readFields_pretty hfs hv (by omega) (by omega))

theorem object_self {fields : List (String × Json)} (h : ∀ f ∈ fields, ReadsBackAs f.2 f.2) :
    ReadsBackAs (.object fields) (.object fields) :=
  object (Field.forall₂_same h)

/-- The bindings of a dictionary, each encoded. -/
theorem bindings {α : Type} (encode : α → Json) (h : ∀ a, ReadsBackAs (encode a) (encode a))
    (entries : List (String × α)) : ReadsBackAs (.object (entries.map fun e ↦ (e.1, encode e.2)))
      (.object (entries.map fun e ↦ (e.1, encode e.2))) :=
  object_self (List.forall_mem_map.2 fun e _ ↦ h e.2)

end ReadsBackAs

/-! ## Values that can be held -/

/-- A value as it is held: the keys of every object ascend, the whole numbers have 64 bits, and the
doubles are finite. -/
inductive Storable : Json → Prop where
  | null : Storable .null
  | bool (b : Bool) : Storable (.bool b)
  | int {n : Int} (hlow : -2 ^ 63 ≤ n) (hhigh : n < 2 ^ 64) : Storable (.int n)
  | float {x : Float} (h : x.isFinite = true) : Storable (.float x)
  | text (s : String) : Storable (.text s)
  | list {items : List Json} (h : ∀ v ∈ items, Storable v) : Storable (.list items)
  | object {fields : List (String × Json)} (hkeys : fields.Pairwise fun a b ↦ a.1 < b.1)
      (h : ∀ f ∈ fields, Storable f.2) : Storable (.object fields)

mutual

/-- The value with every double as its decimal is read. -/
def reread : Json → Json
  | float x => float (rereadFloat x)
  | list items => list (rereadItems items)
  | object fields => object (rereadFields fields)
  | v => v

/-- `reread` on the items of an array. -/
def rereadItems : List Json → List Json
  | [] => []
  | v :: rest => reread v :: rereadItems rest

/-- `reread` on the fields of an object. -/
def rereadFields : List (String × Json) → List (String × Json)
  | [] => []
  | (k, v) :: rest => (k, reread v) :: rereadFields rest

end

mutual

/-- The doubles of a value. -/
def floats : Json → List Float
  | float x => [x]
  | list items => floatsOfItems items
  | object fields => floatsOfFields fields
  | _ => []

/-- `floats` of all items of an array. -/
def floatsOfItems : List Json → List Float
  | [] => []
  | v :: rest => floats v ++ floatsOfItems rest

/-- `floats` of all fields of an object. -/
def floatsOfFields : List (String × Json) → List Float
  | [] => []
  | (_, v) :: rest => floats v ++ floatsOfFields rest

end

theorem rereadItems_eq_map (items : List Json) : rereadItems items = items.map reread := by
  induction items with
  | nil => rfl
  | cons v rest ih => rw [rereadItems, ih, List.map_cons]

theorem rereadFields_eq_map (fields : List (String × Json)) :
    rereadFields fields = fields.map fun f ↦ (f.1, f.2.reread) := by
  induction fields with
  | nil => rfl
  | cons f rest ih => rw [rereadFields, ih, List.map_cons]

theorem floatsOfItems_eq_flatMap (items : List Json) :
    floatsOfItems items = items.flatMap floats := by
  induction items with
  | nil => rfl
  | cons v rest ih => rw [floatsOfItems, ih, List.flatMap_cons]

theorem floatsOfFields_eq_flatMap (fields : List (String × Json)) :
    floatsOfFields fields = fields.flatMap fun f ↦ f.2.floats := by
  induction fields with
  | nil => rfl
  | cons f rest ih => rw [floatsOfFields, ih, List.flatMap_cons]

/-- The value is held as it is read. -/
structure Held (v : Json) : Prop where
  /-- All of it can be held. -/
  isReadable : v.isReadable = true
  /-- Its keys ascend already. -/
  normalize_eq : v.normalize = v

theorem areReadable_iff {items : List Json} :
    areReadable items = true ↔ ∀ v ∈ items, v.isReadable = true := by
  induction items with
  | nil => simp [areReadable]
  | cons v rest ih => rw [areReadable, Bool.and_eq_true, ih, List.forall_mem_cons]

theorem fieldsReadable_iff {fields : List (String × Json)} :
    fieldsReadable fields = true ↔ ∀ f ∈ fields, f.2.isReadable = true := by
  induction fields with
  | nil => simp [fieldsReadable]
  | cons f rest ih => rw [fieldsReadable, Bool.and_eq_true, ih, List.forall_mem_cons]

theorem normalizeItems_eq {items : List Json} (h : ∀ v ∈ items, v.normalize = v) :
    normalizeItems items = items := by
  induction items with
  | nil => rfl
  | cons v rest ih =>
    obtain ⟨hv, hrest⟩ := List.forall_mem_cons.1 h
    rw [normalizeItems, hv, ih hrest]

/-- A key below all others is put in front of them. -/
theorem insertField_of_lt {key : String} {v : Json} {fields : List (String × Json)}
    (h : ∀ f ∈ fields, key < f.1) : insertField key v fields = (key, v) :: fields := by
  cases fields with
  | nil => rfl
  | cons f rest => rw [insertField, if_pos (h f List.mem_cons_self)]

theorem normalizeFields_eq {fields : List (String × Json)}
    (hkeys : fields.Pairwise fun a b ↦ a.1 < b.1) (h : ∀ f ∈ fields, f.2.normalize = f.2) :
    normalizeFields fields = fields := by
  induction hkeys with
  | nil => rfl
  | cons hkey _ ih =>
    obtain ⟨hv, hrest⟩ := List.forall_mem_cons.1 h
    rw [normalizeFields, hv, ih hrest, insertField_of_lt hkey]

namespace Held

theorem list {items : List Json} (h : ∀ v ∈ items, v.Held) : Held (.list items) :=
  ⟨areReadable_iff.2 fun v hv ↦ (h v hv).isReadable,
    congrArg Json.list (normalizeItems_eq fun v hv ↦ (h v hv).normalize_eq)⟩

theorem object {fields : List (String × Json)} (hkeys : fields.Pairwise fun a b ↦ a.1 < b.1)
    (h : ∀ f ∈ fields, f.2.Held) : Held (.object fields) :=
  ⟨fieldsReadable_iff.2 fun f hf ↦ (h f hf).isReadable,
    congrArg Json.object (normalizeFields_eq hkeys fun f hf ↦ (h f hf).normalize_eq)⟩

end Held

namespace Storable

variable {v : Json}

/-- **A value is read back as itself**, but for its doubles. -/
theorem readsBack (h : Storable v) : ReadsBackAs v v.reread := by
  induction h with
  | null => exact .null
  | bool b => exact .bool b
  | int hlow hhigh => exact .int hlow hhigh
  | float h => exact .float (readsAs_rereadFloat h)
  | text s => exact .text s
  | list _ ih =>
    rw [reread, rereadItems_eq_map]
    exact .list (List.forall₂_map_right_iff.2 (List.forall₂_same.2 ih))
  | object _ _ ih =>
    rw [reread, rereadFields_eq_map]
    exact .object (List.forall₂_map_right_iff.2 (List.forall₂_same.2 fun f hf ↦ ⟨rfl, ih f hf⟩))

/-- What is read back is held as it is. -/
theorem held_reread (h : Storable v) : v.reread.Held := by
  induction h with
  | null | bool | int | float | text => exact ⟨rfl, rfl⟩
  | list _ ih =>
    rw [reread, rereadItems_eq_map]
    exact .list (List.forall_mem_map.2 ih)
  | object hkeys _ ih =>
    rw [reread, rereadFields_eq_map]
    exact .object (List.pairwise_map.2 hkeys) (List.forall_mem_map.2 ih)

/-- If its doubles are read as themselves, so is the value. -/
theorem reread_eq (h : Storable v) (hfloats : ∀ x ∈ v.floats, rereadFloat x = x) :
    v.reread = v := by
  induction h with
  | null | bool | int | text => rfl
  | float => exact congrArg Json.float (hfloats _ (List.mem_singleton_self _))
  | @list items _ ih =>
    rw [floats, floatsOfItems_eq_flatMap] at hfloats
    have hitems : ∀ v ∈ items, v.reread = v := fun v hv ↦
      ih v hv fun x hx ↦ hfloats x (List.mem_flatMap.2 ⟨v, hv, hx⟩)
    rw [reread, rereadItems_eq_map, List.map_congr_left hitems, List.map_id']
  | @object fields _ _ ih =>
    rw [floats, floatsOfFields_eq_flatMap] at hfloats
    have hfields : ∀ f ∈ fields, (f.1, f.2.reread) = f := fun f hf ↦
      Prod.ext rfl (ih f hf fun x hx ↦ hfloats x (List.mem_flatMap.2 ⟨f, hf, hx⟩))
    rw [reread, rereadFields_eq_map, List.map_congr_left hfields, List.map_id']

end Storable

/-! ## Documents -/

/-- **A text is read as what its value is read back as**, if it nests no deeper than the limit. -/
theorem parse_pretty {v w : Json} (h : ReadsBackAs v w) (hdepth : depth v ≤ depthLimit) :
    parse (pretty 0 v ++ ['\n']) = some w := by
  have hend : Stops ['\n'] := stops_cons (by decide)
  have hread := h.reads 0 (2 * (pretty 0 v ++ ['\n']).length + 2) depthLimit _ hdepth
    (by rw [List.length_append]; omega) hend
  rw [parse, hread]
  rfl

end Glossopoeia.Json
