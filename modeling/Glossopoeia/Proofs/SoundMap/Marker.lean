import Glossopoeia.Proofs.SoundMap.ContextLine

/-!
# Markers that are not supported

Six markers are fixed, and three shapes name a neighbouring text.  A marker is supported if it is
one of the six or begins with one of the three shapes (`Context.IsSupported`), and exactly the
supported ones can be read (`Context.isSome_read?_iff`).  So a line with any other marker is an
error, and with it every list that it stands in; and in a list without errors the rules of a line
are those that its marker makes (`compileSoundMap_of_isContextLine`).

Lines that are taken for the rule of a whole class are excepted.  Behind the arrow such a rule wants
its letter and one more character, and nothing looks at what follows them, so that a marker is
dropped whatever it is (`not_error_classLine`).
-/

set_option autoImplicit false

namespace Glossopoeia

open Outcome Text Phonology

/-! ## Shapes -/

namespace Context

/-- The markers that name no neighbouring text. -/
def fixedMarkers : List (List Char) :=
  ["#_".toList, "_#".toList, "#_#".toList, "C_".toList, "C_#".toList, "VV".toList]

/-- Is the marker one of those that spelling rules may have?  Behind a shape that names a neighbour
anything may follow. -/
inductive IsSupported (marker : List Char) : Prop where
  /-- It is a fixed one. -/
  | fixed (h : marker ∈ fixedMarkers)
  /-- It begins with `_x`. -/
  | followedBy (next : Char) (hsolid : isBlank next = false) (h : ['_', next] <+: marker)
  /-- It begins with `!_` and a text in braces. -/
  | notFollowedBy (excluded : List Char) (hne : excluded ≠ []) (hsolid : Solid excluded)
    (h : ['!', '_', '{'] ++ excluded ++ ['}'] <+: marker)
  /-- It begins with `x_#`. -/
  | afterFinal (previous : List Char) (hne : previous ≠ []) (hsolid : Solid previous)
    (h : previous ++ ['_', '#'] <+: marker)

/-- A marker that is none of the fixed ones names its neighbour. -/
theorem read?_eq_readNeighbour {marker : List Char} (h : marker ∉ fixedMarkers) :
    read? marker = readNeighbour marker := by
  simp only [fixedMarkers, List.mem_cons, not_or] at h
  rw [read?, if_neg h.1, if_neg h.2.1, if_neg h.2.2.1, if_neg h.2.2.2.1, if_neg h.2.2.2.2.1,
    if_neg h.2.2.2.2.2.1]

theorem isSome_read?_of_mem {marker : List Char} (h : marker ∈ fixedMarkers) :
    (read? marker).isSome := by
  simp only [fixedMarkers, List.mem_cons, List.not_mem_nil, or_false] at h
  rcases h with rfl | rfl | rfl | rfl | rfl | rfl <;> rfl

/-- What a solid text is a start of does not matter beyond the first blank. -/
theorem prefix_takeWhile_iff {start cs : List Char} (h : Solid start) :
    start <+: cs.takeWhile isSolid ↔ start <+: cs := by
  refine ⟨fun hstart ↦ hstart.trans (List.takeWhile_prefix _), ?_⟩
  rintro ⟨rest, rfl⟩
  rw [List.takeWhile_append_of_pos fun c hc ↦ by simp [isSolid, h c hc]]
  exact List.prefix_append ..

/-- The last `_#` has something before it if any has. -/
theorem isSome_beforeFinalMark_iff {run : List Char} :
    (beforeFinalMark run).isSome ↔ ∃ previous, previous ≠ [] ∧ previous ++ ['_', '#'] <+: run := by
  fun_induction beforeFinalMark run with
  | case1 c rest previous _ _ =>
    exact iff_of_true rfl ⟨[c], List.cons_ne_nil _ _, rest, rfl⟩
  | case2 c rest _ _ => exact iff_of_true rfl ⟨[c], List.cons_ne_nil _ _, rest, rfl⟩
  | case3 c rest hmark ih =>
    rw [Option.isSome_map, ih]
    constructor
    · rintro ⟨previous, hne, hstart⟩
      exact ⟨c :: previous, List.cons_ne_nil _ _, by simpa using hstart⟩
    · rintro ⟨previous, hne, hstart⟩
      obtain ⟨d, previous, rfl⟩ := List.exists_cons_of_ne_nil hne
      rw [List.cons_append, List.cons_prefix_cons] at hstart
      refine ⟨previous, ?_, hstart.2⟩
      rintro rfl
      obtain ⟨after, hafter⟩ := hstart.2
      exact hmark after hafter.symm
  | case4 =>
    refine iff_of_false Bool.false_ne_true ?_
    rintro ⟨previous, hne, hstart⟩
    simp at hstart

/-- The last closing brace has something before it if any has. -/
theorem isSome_excludedBy_iff {run : List Char} :
    (excludedBy run).isSome ↔ ∃ excluded, excluded ≠ [] ∧ excluded ++ ['}'] <+: run := by
  constructor
  · intro h
    rw [excludedBy] at h
    split at h
    · next c inner after hcut =>
      obtain ⟨rfl, -⟩ := cutLast_eq_some_iff.1 hcut
      exact ⟨c :: inner, List.cons_ne_nil _ _, after, by simp⟩
    · cases h
  · rintro ⟨excluded, hne, after, rfl⟩
    obtain ⟨⟨inner, rest⟩, hcut⟩ : ∃ sides, cutLast '}' (excluded ++ ['}'] ++ after) = some sides :=
      exists_cutLast_eq_some (by simp)
    obtain ⟨heq, hrest⟩ := cutLast_eq_some_iff.1 hcut
    rw [excludedBy, hcut]
    cases inner with
    | cons c inner => rfl
    | nil =>
      -- The brace that is cut at would be the first character, and not the last brace.
      obtain ⟨c, excluded, rfl⟩ := List.exists_cons_of_ne_nil hne
      rw [List.append_assoc, List.cons_append, List.nil_append] at heq
      exact absurd ((List.cons.inj heq).2 ▸ by simp) hrest

theorem isSome_readNeighbour_next {marker : List Char} {next : Char} (hnext : isBlank next = false)
    (h : ['_', next] <+: marker) : (readNeighbour marker).isSome := by
  have hsolid : Solid ['_', next] := by simpa [Solid] using ⟨by decide, hnext⟩
  obtain ⟨rest, hrest⟩ := (prefix_takeWhile_iff hsolid).2 h
  rw [readNeighbour, ← hrest]
  rfl

theorem isSome_readNeighbour_excluded {marker excluded : List Char} (hne : excluded ≠ [])
    (hexcluded : Solid excluded) (h : ['!', '_', '{'] ++ excluded ++ ['}'] <+: marker) :
    (readNeighbour marker).isSome := by
  have hsolid : Solid (['!', '_', '{'] ++ excluded ++ ['}']) :=
    (Solid.append (by decide) hexcluded).append (by decide)
  obtain ⟨rest, hrest⟩ := (prefix_takeWhile_iff hsolid).2 h
  obtain ⟨listed, hlisted⟩ : ∃ listed, excludedBy (excluded ++ ['}'] ++ rest) = some listed :=
    Option.isSome_iff_exists.1 (isSome_excludedBy_iff.2 ⟨excluded, hne, List.prefix_append ..⟩)
  have hrun : marker.takeWhile isSolid = '!' :: '_' :: '{' :: (excluded ++ ['}'] ++ rest) := by
    rw [← hrest]
    simp
  simp only [readNeighbour, hrun, hlisted]
  rfl

theorem isSome_readNeighbour_previous {marker previous : List Char} (hne : previous ≠ [])
    (hprevious : Solid previous) (h : previous ++ ['_', '#'] <+: marker) :
    (readNeighbour marker).isSome := by
  have hsolid : Solid (previous ++ ['_', '#']) := hprevious.append (by decide)
  have hfinal : (beforeFinalMark (marker.takeWhile isSolid)).isSome :=
    isSome_beforeFinalMark_iff.2 ⟨previous, hne, (prefix_takeWhile_iff hsolid).2 h⟩
  rw [readNeighbour]
  split
  · rfl
  · split
    · rfl
    · rwa [Option.isSome_map]
  · rwa [Option.isSome_map]

/-- Exactly the shapes that name a neighbour are read as one. -/
theorem isSome_readNeighbour_iff {marker : List Char} :
    (readNeighbour marker).isSome ↔
      (∃ next, isBlank next = false ∧ ['_', next] <+: marker) ∨
      (∃ excluded, excluded ≠ [] ∧ Solid excluded ∧
        ['!', '_', '{'] ++ excluded ++ ['}'] <+: marker) ∨
      ∃ previous, previous ≠ [] ∧ Solid previous ∧ previous ++ ['_', '#'] <+: marker := by
  constructor
  · -- Each branch of the reader finds its shape at the start of the run.
    have hrun : marker.takeWhile isSolid <+: marker := List.takeWhile_prefix _
    have hsolid {start : List Char} (h : start <+: marker.takeWhile isSolid) : Solid start :=
      fun c hc ↦ by simpa [isSolid] using List.mem_takeWhile_imp (h.subset hc)
    have hfinal (h : ((beforeFinalMark (marker.takeWhile isSolid)).map Context.afterFinal).isSome) :
        ∃ previous, previous ≠ [] ∧ Solid previous ∧ previous ++ ['_', '#'] <+: marker := by
      rw [Option.isSome_map] at h
      obtain ⟨previous, hne, hstart⟩ := isSome_beforeFinalMark_iff.1 h
      exact ⟨previous, hne, (hsolid hstart).subset (by simp), hstart.trans hrun⟩
    intro h
    rw [readNeighbour] at h
    split at h
    · next next rest heq =>
      have hstart : ['_', next] <+: marker.takeWhile isSolid := heq ▸ by simp
      exact .inl ⟨next, hsolid hstart next (by simp), hstart.trans hrun⟩
    · next rest heq =>
      split at h
      · next excluded hexcluded =>
        obtain ⟨listed, hne, after, rfl⟩ :=
          isSome_excludedBy_iff.1 (Option.isSome_of_eq_some hexcluded)
        have hstart : ['!', '_', '{'] ++ listed ++ ['}'] <+: marker.takeWhile isSolid :=
          heq ▸ ⟨after, by simp⟩
        refine .inr (.inl ⟨listed, hne, (hsolid hstart).subset fun c hc ↦ ?_, hstart.trans hrun⟩)
        exact List.mem_append_left _ (List.mem_append_right _ hc)
      · exact .inr (.inr (hfinal h))
    · exact .inr (.inr (hfinal h))
  · rintro (⟨next, hnext, hstart⟩ | ⟨excluded, hne, hexcluded, hstart⟩ |
      ⟨previous, hne, hprevious, hstart⟩)
    · exact isSome_readNeighbour_next hnext hstart
    · exact isSome_readNeighbour_excluded hne hexcluded hstart
    · exact isSome_readNeighbour_previous hne hprevious hstart

/-- **Exactly the supported markers can be read.** -/
theorem isSome_read?_iff {marker : List Char} : (read? marker).isSome ↔ IsSupported marker := by
  by_cases hfixed : marker ∈ fixedMarkers
  · exact iff_of_true (isSome_read?_of_mem hfixed) (.fixed hfixed)
  · rw [read?_eq_readNeighbour hfixed, isSome_readNeighbour_iff]
    constructor
    · rintro (⟨next, hsolid, h⟩ | ⟨excluded, hne, hsolid, h⟩ | ⟨previous, hne, hsolid, h⟩)
      · exact .followedBy next hsolid h
      · exact .notFollowedBy excluded hne hsolid h
      · exact .afterFinal previous hne hsolid h
    · rintro (h | ⟨next, hsolid, h⟩ | ⟨excluded, hne, hsolid, h⟩ | ⟨previous, hne, hsolid, h⟩)
      · exact absurd h hfixed
      · exact .inl ⟨next, hsolid, h⟩
      · exact .inr (.inl ⟨excluded, hne, hsolid, h⟩)
      · exact .inr (.inr ⟨previous, hne, hsolid, h⟩)

instance (marker : List Char) : Decidable (IsSupported marker) :=
  decidable_of_iff _ isSome_read?_iff

end Context

/-- A rule can be made for a marker exactly if it is supported. -/
theorem SoundRule.isSome_inContext?_iff {phoneme roman marker : List Char} :
    (inContext? phoneme roman marker).isSome ↔ Context.IsSupported marker := by
  rw [← Context.isSome_read?_iff, inContext?]
  split
  · next hfinal =>
    have hread : (Context.read? marker).isSome := hfinal ▸ rfl
    rw [Option.isSome_or, Option.isSome_map, hread, Bool.or_true]
  · rw [Option.isSome_map]

/-! ## Lists of lines -/

/-- What is collected from a list holds what each item contributes. -/
theorem exists_part_of_concatM {α : Type} {f : α → Except Error SpellingLines} {list : List α}
    {all : SpellingLines} (h : concatM f list = .ok all) {a : α} (ha : a ∈ list) :
    ∃ part, f a = .ok part ∧ part.rules ⊆ all.rules := by
  induction list generalizing all with
  | nil => exact absurd ha List.not_mem_nil
  | cons head rest ih =>
    rw [concatM, bind_eq_ok] at h
    obtain ⟨first, hfirst, h⟩ := h
    obtain ⟨others, hothers, h⟩ := bind_eq_ok.1 h
    obtain rfl := pure_eq_ok.1 h
    rcases List.mem_cons.1 ha with rfl | ha
    · exact ⟨first, hfirst, List.subset_append_left ..⟩
    · obtain ⟨part, hpart, hsubset⟩ := ih hothers ha
      exact ⟨part, hpart, fun r hr ↦ List.mem_append_right _ (hsubset hr)⟩

/-- A left side stands for one phoneme at least. -/
theorem Phonemes.expand_ne_nil (left : List Char) : expand left ≠ [] := by
  have hsplit (cs : List Char) : split ',' cs ≠ [] := List.splitOnP_ne_nil _ _
  rw [expand]
  split
  · exact fun h ↦ hsplit _ (List.map_eq_nil_iff.1 h)
  · split
    · exact hsplit _
    · split <;> exact List.cons_ne_nil _ _

variable {phoneme roman marker : List Char}

/-- In a list that can be compiled, the rules of a line with a context are those of its context. -/
theorem exists_rule_of_compileSoundMap {phonetic : SoundClass} {lines : List String}
    {line : String} (hmem : line ∈ lines)
    (hline : IsContextLine line.toList phoneme roman marker) (hcomment : phoneme.head? ≠ some '/')
    (hclass : phoneme.head? = some 'V' ∨ phoneme.head? = some 'C' → roman.head? ≠ phoneme.head?)
    {all : CompiledSpelling} (h : compileSoundMap lines phonetic = .ok all) {p : List Char}
    (hp : p ∈ Phonemes.expand phoneme) :
    ∃ rule, SoundRule.inContext? p roman marker = some rule ∧
      rule.substitute phonetic all.spelled ∈ all.soundMap := by
  rw [compileSoundMap_eq] at h
  obtain ⟨parts, hparts, rfl⟩ := map_eq_ok.1 h
  obtain ⟨ofLine, hofLine, hrules⟩ := exists_part_of_concatM hparts hmem
  rw [hline.compileLine_eq phonetic hcomment hclass] at hofLine
  obtain ⟨part, hpart, hrules'⟩ := exists_part_of_concatM hofLine hp
  rw [compileInContext] at hpart
  split at hpart
  · next rule hrule =>
    cases hpart
    refine ⟨rule, hrule, List.mem_append_right _ (List.mem_map_of_mem ?_)⟩
    exact hrules (hrules' (List.mem_singleton_self rule))
  · cases hpart

/-- **A marker that is not supported is an error, and no marker is dropped**: where a list of lines
can be compiled, each phoneme of a line with a context has the rule of that context in the map.
This is so unless both sides of the line begin with the same class letter. -/
theorem compileSoundMap_of_isContextLine (phonetic : SoundClass) {lines : List String}
    {line : String} (hmem : line ∈ lines)
    (hline : IsContextLine line.toList phoneme roman marker) (hcomment : phoneme.head? ≠ some '/')
    (hclass : phoneme.head? = some 'V' ∨ phoneme.head? = some 'C' →
      roman.head? ≠ phoneme.head?) :
    (¬Context.IsSupported marker → ∃ e, compileSoundMap lines phonetic = .error e) ∧
    ∀ all, compileSoundMap lines phonetic = .ok all → ∀ p ∈ Phonemes.expand phoneme,
      ∃ rule, SoundRule.inContext? p roman marker = some rule ∧
        rule.substitute phonetic all.spelled ∈ all.soundMap := by
  refine ⟨fun hmarker ↦ ?_, fun all h p hp ↦
    exists_rule_of_compileSoundMap hmem hline hcomment hclass h hp⟩
  cases h : compileSoundMap lines phonetic with
  | error e => exact ⟨e, rfl⟩
  | ok all =>
    obtain ⟨p, hp⟩ := List.exists_mem_of_ne_nil _ (Phonemes.expand_ne_nil phoneme)
    obtain ⟨rule, hrule, -⟩ := exists_rule_of_compileSoundMap hmem hline hcomment hclass h hp
    exact absurd (SoundRule.isSome_inContext?_iff.1 (Option.isSome_of_eq_some hrule)) hmarker

/-- A marker with question marks around its place is an error wherever its line stands. -/
theorem compileSoundMap_unknownMarker :
    "ak > b / ?_?" ∈ ["Vː > VV", "ak > b / ?_?", "t > d"] ∧
      IsContextLine "ak > b / ?_?".toList "ak".toList "b".toList "?_?".toList ∧
      ¬Context.IsSupported "?_?".toList ∧
      ∃ e, compileSoundMap ["Vː > VV", "ak > b / ?_?", "t > d"] (.ofSymbols ["a"]) = .error e := by
  have hmem : "ak > b / ?_?" ∈ ["Vː > VV", "ak > b / ?_?", "t > d"] := by simp
  have hline : IsContextLine "ak > b / ?_?".toList "ak".toList "b".toList "?_?".toList :=
    ⟨"ak ".toList, " b ".toList, " ?_?".toList, rfl, by decide, rfl, rfl, rfl⟩
  have hmarker : ¬Context.IsSupported "?_?".toList := by decide
  have hfails := compileSoundMap_of_isContextLine (.ofSymbols ["a"]) hmem hline (by decide)
    (by decide)
  exact ⟨hmem, hline, hmarker, hfails.1 hmarker⟩

/-- The rule of a whole class drops the same marker: `Vː > VV / ?_?` is compiled as `Vː > VV` is. -/
theorem not_error_classLine :
    IsContextLine "Vː > VV / ?_?".toList "Vː".toList "VV".toList "?_?".toList ∧
      ¬Context.IsSupported "?_?".toList ∧
      ∃ all, compileSoundMap ["Vː > VV / ?_?"] (.ofSymbols ["a"]) = .ok all ∧
        compileSoundMap ["Vː > VV"] (.ofSymbols ["a"]) = .ok all :=
  ⟨⟨"Vː ".toList, " VV ".toList, " ?_?".toList, rfl, by decide, rfl, rfl, rfl⟩, by decide,
    _, rfl, by decide +kernel⟩

end Glossopoeia
