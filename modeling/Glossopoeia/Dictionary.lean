/-!
# Dictionaries

A finite map from strings, kept as an association list in ascending order of keys.  Two dictionaries
with the same bindings are the same value, and their order is the order they are written in.  A set
of strings is a dictionary that binds nothing.
-/

set_option autoImplicit false

namespace Glossopoeia

/-- A finite map from strings to `β`, with its bindings in ascending order of keys. -/
structure Dictionary (β : Type) where
  /-- The bindings. -/
  entries : List (String × β)
  /-- Their keys ascend. -/
  ascending : entries.Pairwise fun a b ↦ a.1 < b.1

namespace Dictionary

variable {β γ : Type}

/-- The dictionary without a binding. -/
def empty : Dictionary β := ⟨[], .nil⟩

instance : EmptyCollection (Dictionary β) := ⟨empty⟩

instance : Inhabited (Dictionary β) := ⟨empty⟩

instance [DecidableEq β] : DecidableEq (Dictionary β) := fun a b ↦
  decidable_of_iff (a.entries = b.entries)
    ⟨fun h ↦ by cases a; cases b; cases h; rfl, fun h ↦ h ▸ rfl⟩

@[ext]
theorem ext {a b : Dictionary β} (h : a.entries = b.entries) : a = b := by
  cases a; cases b; cases h; rfl

/-- What `key` is bound to. -/
def get? (d : Dictionary β) (key : String) : Option β := d.entries.lookup key

/-- Is `key` bound? -/
def contains (d : Dictionary β) (key : String) : Bool := d.entries.any (·.1 == key)

/-- The keys, in ascending order. -/
def keys (d : Dictionary β) : List String := d.entries.map Prod.fst

/-- The bound values, in the order of their keys. -/
def values (d : Dictionary β) : List β := d.entries.map Prod.snd

/-- The number of bindings. -/
def size (d : Dictionary β) : Nat := d.entries.length

/-! ## Changing a binding -/

/-- Put `key` in its place among ascending bindings; `f` makes the new value from the old one. -/
def alterEntries (key : String) (f : Option β → β) : List (String × β) → List (String × β)
  | [] => [(key, f none)]
  | (k, v) :: rest =>
    if key < k then (key, f none) :: (k, v) :: rest
    else if key = k then (k, f (some v)) :: rest
    else (k, v) :: alterEntries key f rest

theorem lt_of_mem_alterEntries {key low : String} {f : Option β → β} {es : List (String × β)}
    (hkey : low < key) (hes : ∀ e ∈ es, low < e.1) : ∀ e ∈ alterEntries key f es, low < e.1 := by
  induction es with
  | nil =>
    intro e he
    rcases List.mem_singleton.1 he with rfl
    exact hkey
  | cons head rest ih =>
    obtain ⟨k, v⟩ := head
    have hrest : ∀ e ∈ rest, low < e.1 := fun e he ↦ hes e (List.mem_cons_of_mem _ he)
    have hk : low < k := hes (k, v) (List.mem_cons_self ..)
    intro e he
    unfold alterEntries at he
    split at he
    · rcases List.mem_cons.1 he with rfl | he
      · exact hkey
      · exact hes e he
    · split at he
      · rcases List.mem_cons.1 he with rfl | he
        · exact hk
        · exact hrest e he
      · rcases List.mem_cons.1 he with rfl | he
        · exact hk
        · exact ih hrest e he

theorem pairwise_alterEntries (key : String) (f : Option β → β) {es : List (String × β)}
    (h : es.Pairwise fun a b ↦ a.1 < b.1) :
    (alterEntries key f es).Pairwise fun a b ↦ a.1 < b.1 := by
  induction es with
  | nil => simp [alterEntries]
  | cons head rest ih =>
    obtain ⟨k, v⟩ := head
    obtain ⟨hk, hrest⟩ := List.pairwise_cons.1 h
    unfold alterEntries
    split
    · next hlt =>
      refine List.pairwise_cons.2 ⟨fun e he ↦ ?_, h⟩
      rcases List.mem_cons.1 he with rfl | he
      · exact hlt
      · exact String.lt_trans hlt (hk e he)
    · split
      · exact List.pairwise_cons.2 ⟨hk, hrest⟩
      · next hlt hne =>
        refine List.pairwise_cons.2 ⟨?_, ih hrest⟩
        have hgt : k < key := by
          rcases String.le_total key k with hle | hle
          · exact absurd (String.le_antisymm hle (String.not_lt.1 hlt)) hne
          · exact Decidable.byContradiction fun hn ↦
              hne (String.le_antisymm (String.not_lt.1 hn) hle)
        exact lt_of_mem_alterEntries hgt hk

/-- Bind `key` to what `f` makes of its old value. -/
def alter (d : Dictionary β) (key : String) (f : Option β → β) : Dictionary β :=
  ⟨alterEntries key f d.entries, pairwise_alterEntries key f d.ascending⟩

/-- Bind `key` to `value`, in place of what it was bound to. -/
def insert (d : Dictionary β) (key : String) (value : β) : Dictionary β :=
  d.alter key fun _ ↦ value

/-- The dictionary of a list of bindings; of two for one key the later holds. -/
def ofList (bindings : List (String × β)) : Dictionary β :=
  bindings.foldl (fun d (key, value) ↦ d.insert key value) empty

/-- The same keys, each bound to the image of its value. -/
def map (f : β → γ) (d : Dictionary β) : Dictionary γ :=
  ⟨d.entries.map fun (key, value) ↦ (key, f value), by
    rw [List.pairwise_map]
    exact d.ascending⟩

end Dictionary

/-! ## Sets of strings -/

/-- A finite set of strings, in ascending order. -/
abbrev StringSet := Dictionary Unit

namespace StringSet

/-- The set with one more member. -/
def insert (s : StringSet) (member : String) : StringSet := Dictionary.insert s member ()

/-- The members of a list. -/
def ofList (members : List String) : StringSet := members.foldl insert Dictionary.empty

/-- The members, in ascending order. -/
def toList (s : StringSet) : List String := Dictionary.keys s

end StringSet

end Glossopoeia
