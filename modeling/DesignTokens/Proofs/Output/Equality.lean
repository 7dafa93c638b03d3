/-
Equal themes are written alike.

Equal maps differ in the order of their names and in the signs of their zeros.
JSON and TOML order the names at every level and write a zero without its sign.
A style sheet orders its variables, and when no two leaves of a map have one name
the variables are the leaves, which equal maps have in common.
-/
import DesignTokens.Output.Render
import DesignTokens.Proofs.Output.Block
import DesignTokens.Proofs.Output.Formats
import DesignTokens.Proofs.Value.Canonical

namespace DesignTokens

/-! ### Equal maps -/

namespace TokenMap

theorem slotMembers_matches {slots others : TokenCategory} (distinct : DistinctNames slots)
    (same : SameMembers (Option.Rel Value.Matches) slots others) :
    (Value.object (slotMembers slots)).Matches (.object (slotMembers others)) := by
  let filled (content : Option Value) : Value := content.getD .null
  refine Value.matches_object_iff.mpr ⟨distinct.map_items filled, same.map_items filled filled ?_⟩
  intro content other both
  cases both with
  | none => exact Value.matches_iff_sameShape.mpr .null
  | some matched => exact matched

/-- What equality of maps asks of the content of a slot and of what is found under its key. -/
theorem exists_matching_content {content : Option Value} {there : Option (Option Value)}
    (same : (match content, there with
      | none, some none => true
      | some value, some (some other) => value.equals other
      | _, _ => false) = true)
    (wellFormed : ∀ value, content = some value → value.WellFormed) :
    ∃ other, there = some other ∧ Option.Rel Value.Matches content other := by
  cases there with
  | none => cases content <;> cases same
  | some other =>
      refine ⟨other, rfl, ?_⟩
      cases content with
      | none =>
          cases other with
          | none => exact .none
          | some => cases same
      | some value =>
          cases other with
          | none => cases same
          | some another => exact .some ⟨wellFormed value rfl, same⟩

/-- Equal maps match as objects of objects. -/
theorem toValue_matches_of_equals {map other : TokenMap} (wellFormed : map.WellFormed)
    (same : map.equals other = true) : map.toValue.Matches other.toValue := by
  obtain ⟨distinct, each⟩ := wellFormed_iff.mp wellFormed
  unfold equals at same
  rw [Bool.and_eq_true, beq_iff_eq, List.all_eq_true] at same
  obtain ⟨count, within⟩ := same
  have categories : SameMembers (fun slots others =>
      (Value.object (slotMembers slots)).Matches (.object (slotMembers others)))
      map.categories other.categories := by
    refine .of_lookup distinct count ?_
    intro category slots present
    obtain ⟨distinctKeys, values⟩ := each category slots present
    have atCategory := within _ present
    dsimp only at atCategory
    cases found : other.category? category with
    | none =>
        rw [found] at atCategory
        cases atCategory
    | some others =>
        rw [found] at atCategory
        dsimp only at atCategory
        rw [Bool.and_eq_true, beq_iff_eq, List.all_eq_true] at atCategory
        obtain ⟨keyCount, withinSlots⟩ := atCategory
        refine ⟨others, found, slotMembers_matches distinctKeys ?_⟩
        refine .of_lookup distinctKeys keyCount ?_
        intro key content inside
        refine exists_matching_content (withinSlots _ inside) ?_
        rintro value rfl
        exact values key value inside
  let object (slots : TokenCategory) : Value := .object (slotMembers slots)
  exact Value.matches_object_iff.mpr
    ⟨distinct.map_items object, categories.map_items object object fun _ _ => id⟩

end TokenMap

/-! ### JSON -/

theorem Number.jsonText_plain (number : Number) : number.plain.jsonText = number.jsonText := by
  rcases number.plain_cases with same | ⟨negative, rfl, plain⟩
  · rw [same]
  · rw [plain, jsonText_of_whole (whole?_zero false), jsonText_of_whole (whole?_zero negative)]

namespace Json

mutual

theorem prettyAt_plain : (value : Value) → (depth : Nat) →
    prettyAt depth value.plain = prettyAt depth value
  | .null, _ => rfl
  | .bool _, _ => rfl
  | .number value, _ => value.jsonText_plain
  | .string _, _ => rfl
  | .array [], _ => rfl
  | .array (item :: rest), depth => by
      rw [Value.plain, Value.plainItems, prettyAt, prettyAt, prettyAt_plain item,
        prettyItems_plain rest]
  | .object [], _ => rfl
  | .object ((_, value) :: rest), depth => by
      rw [Value.plain, Value.plainMembers, prettyAt, prettyAt, prettyAt_plain value,
        prettyMembers_plain rest]

theorem prettyItems_plain : (items : List Value) → (depth : Nat) →
    prettyItems depth (Value.plainItems items) = prettyItems depth items
  | [], _ => rfl
  | item :: rest, depth => by
      rw [Value.plainItems, prettyItems, prettyItems, prettyAt_plain item, prettyItems_plain rest]

theorem prettyMembers_plain : (members : List (String × Value)) → (depth : Nat) →
    prettyMembers depth (Value.plainMembers members) = prettyMembers depth members
  | [], _ => rfl
  | (_, value) :: rest, depth => by
      rw [Value.plainMembers, prettyMembers, prettyMembers, prettyAt_plain value,
        prettyMembers_plain rest]

end

/-- Text with the members in order does not show the signs of zeros. -/
theorem writePretty_sorted (value : Value) :
    writePretty value.sorted = writePretty value.canonical := by
  rw [writePretty, writePretty, ← Value.plain_sorted, prettyAt_plain]

end Json

/-! ### TOML -/

theorem tomlNumber_eq_of_equals {left right : Number} (same : left.equals right = true) :
    tomlNumber left = tomlNumber right := by
  rcases Number.eq_or_zeros_of_equals same with rfl | ⟨leftSign, rightSign, rfl, rfl⟩
  · rfl
  · unfold tomlNumber
    rw [Number.integer?_zero, Number.integer?_zero]
    rfl

theorem sortMembers_tomlEntries_perm {members others : List (String × Value)}
    (distinct : DistinctNames members) (reordered : members.Perm others) :
    sortMembers (tomlEntries members) = sortMembers (tomlEntries others) := by
  rw [tomlEntries_eq, tomlEntries_eq]
  exact sortMembers_eq_of_perm (distinct.sublist (memberNames_filterItems tomlValue? members))
    (reordered.filterMap _)

mutual

theorem tomlValue?_eq_of_matches :
    (value other : Value) → value.Matches other → tomlValue? value = tomlValue? other
  | .null, _, matched => by
      cases matched.shape
      rfl
  | .bool _, _, matched => by
      cases matched.shape
      rfl
  | .number _, _, matched => by
      cases matched.shape with
      | number same => exact congrArg some (tomlNumber_eq_of_equals same)
  | .string _, _, matched => by
      cases matched.shape
      rfl
  | .array items, _, matched => by
      cases matched.shape with
      | array each => rw [tomlValue?, tomlValue?, tomlItems_eq_of_matches items _ each]
  | .object members, _, matched => by
      cases matched.shape with
      | object distinct same =>
          have othersDistinct := same.distinct_right distinct
          obtain ⟨arranged, reordered, each⟩ := same
          rw [tomlValue?, tomlValue?, sortMembers_tomlEntries_perm othersDistinct reordered,
            tomlEntries_eq_of_matches members arranged each]

theorem tomlItems_eq_of_matches :
    (items others : List Value) → List.Forall₂ Value.Matches items others →
      tomlItems items = tomlItems others
  | [], _, .nil => rfl
  | item :: rest, _, .cons first later => by
      rw [tomlItems, tomlItems, tomlValue?_eq_of_matches item _ first,
        tomlItems_eq_of_matches rest _ later]

theorem tomlEntries_eq_of_matches :
    (members others : List (String × Value)) →
      List.Forall₂ (SameNamed Value.Matches) members others →
      tomlEntries members = tomlEntries others
  | [], _, .nil => rfl
  | (name, value) :: rest, (other, another) :: others, .cons first later => by
      have sameName : name = other := first.1
      rw [tomlEntries, tomlEntries, sameName, tomlValue?_eq_of_matches value another first.2,
        tomlEntries_eq_of_matches rest others later]

end

/-! ### Style sheets -/

namespace Value.Matches

variable {value other : Value}

theorem within?_rel (matched : value.Matches other) (names : List String) :
    Option.Rel Matches (value.within? names) (other.within? names) := by
  induction names generalizing value other with
  | nil => exact .some matched
  | cons name rest ih =>
      rw [within?, within?]
      refine rel_bind (rel_bind matched.members?_rel ?_) fun _ _ inner => ih inner
      intro members others same
      exact same name

theorem isScalar_eq (matched : value.Matches other) : value.isScalar = other.isScalar := by
  cases matched.shape <;> rfl

theorem displayText_eq (matched : value.Matches other) (scalar : value.isScalar = true) :
    value.displayText = other.displayText := by
  cases matched.shape with
  | number same => exact congrArg String.ofList (Number.displayText_eq_of_equals same)
  | bool => rfl
  | string => rfl
  | null => cases scalar
  | array => cases scalar
  | object => cases scalar

end Value.Matches

namespace TokenMap

variable {map other : TokenMap}

theorem hasLeaf_iff_of_matches (matched : map.toValue.Matches other.toValue) (leaf : Leaf) :
    map.HasLeaf leaf ↔ other.HasLeaf leaf := by
  rw [hasLeaf_iff_within?, hasLeaf_iff_within?]
  have there := matched.within?_rel (leaf.category :: leaf.key :: leaf.members)
  generalize map.toValue.within? _ = here at there ⊢
  generalize other.toValue.within? _ = another at there ⊢
  cases there with
  | none => simp
  | some both =>
      simp only [Option.some.injEq, exists_eq_left']
      rw [← both.isScalar_eq]
      exact and_congr_right fun scalar => by rw [both.displayText_eq scalar]

theorem leaves_perm_of_matches (wellFormed : map.WellFormed) (otherWellFormed : other.WellFormed)
    (matched : map.toValue.Matches other.toValue) : map.leaves.Perm other.leaves := by
  refine (List.perm_ext_iff_of_nodup (nodup_leaves wellFormed)
    (nodup_leaves otherWellFormed)).mpr fun leaf => ?_
  rw [mem_leaves_iff wellFormed, mem_leaves_iff otherWellFormed]
  exact hasLeaf_iff_of_matches matched leaf

theorem NamesApart.perm (apart : map.NamesApart) (reordered : map.leaves.Perm other.leaves) :
    other.NamesApart := by
  intro one present another among
  exact apart one (reordered.mem_iff.mpr present) another (reordered.mem_iff.mpr among)

theorem NamesApart.styleText_eq (apart : map.NamesApart) (wellFormed : map.WellFormed)
    (otherWellFormed : other.WellFormed) (matched : map.toValue.Matches other.toValue)
    (selector : String) : map.styleText selector = other.styleText selector := by
  have reordered := leaves_perm_of_matches wellFormed otherWellFormed matched
  rw [styleText, styleText, apart.styleVariables_eq wellFormed,
    (apart.perm reordered).styleVariables_eq otherWellFormed]
  exact styleBlock_eq_of_perm selector (reordered.map _)

end TokenMap

/-! ### Themes -/

/-- The same variants in order, with equal maps. -/
def SameThemes (left right : List RenderedTheme) : Prop :=
  List.Forall₂ (fun one other => one.1 = other.1 ∧ one.2.equals other.2 = true) left right

/-- The same variants in order, with well-formed maps that match as objects. -/
structure MatchingTheme (one other : RenderedTheme) : Prop where
  variant : one.1 = other.1
  wellFormed : one.2.WellFormed
  otherWellFormed : other.2.WellFormed
  values : one.2.toValue.Matches other.2.toValue

theorem SameThemes.matching {left right : List RenderedTheme} (same : SameThemes left right)
    (wellFormed : ∀ theme ∈ left, theme.2.WellFormed)
    (otherWellFormed : ∀ theme ∈ right, theme.2.WellFormed) :
    List.Forall₂ MatchingTheme left right := by
  induction same with
  | nil => exact .nil
  | cons first _ ih =>
      obtain ⟨here, later⟩ := List.forall_mem_cons.mp wellFormed
      obtain ⟨there, after⟩ := List.forall_mem_cons.mp otherWellFormed
      have values := TokenMap.toValue_matches_of_equals here first.2
      exact .cons ⟨first.1, here, there, values⟩ (ih later after)

namespace MatchingTheme

variable {one other : RenderedTheme}

theorem canonical_eq (matching : MatchingTheme one other) :
    one.2.toValue.canonical = other.2.toValue.canonical :=
  Value.canonical_eq_of_matches _ _ matching.values

theorem mapTable_eq (matching : MatchingTheme one other) : mapTable one.2 = mapTable other.2 := by
  have same := tomlValue?_eq_of_matches _ _ matching.values
  rw [tomlValue?_toValue, tomlValue?_toValue] at same
  exact Toml.Value.table.inj (Option.some.inj same)

theorem name_eq (matching : MatchingTheme one other) : one.1.name = other.1.name := by
  rw [matching.variant]

theorem styleText_eq (matching : MatchingTheme one other) (apart : one.2.NamesApart) :
    one.2.styleText one.1.selector = other.2.styleText other.1.selector := by
  rw [matching.variant]
  exact apart.styleText_eq matching.wellFormed matching.otherWellFormed matching.values _

end MatchingTheme

section Themes

variable {left right : List RenderedTheme}

/-- A variant may come twice, so the members here need not have distinct names. -/
theorem canonical_namedValues_eq (matching : List.Forall₂ MatchingTheme left right) :
    (Value.object (left.map fun (variant, map) => (variant.name, map.toValue))).canonical =
      (Value.object (right.map fun (variant, map) => (variant.name, map.toValue))).canonical := by
  rw [Value.canonical_object, Value.canonical_object, Value.canonicalMembers_eq_map,
    Value.canonicalMembers_eq_map, List.map_map, List.map_map]
  refine congrArg (fun members => Value.object (sortMembers members)) ?_
  exact map_eq_of_forall₂ matching fun one other both =>
    congrArg₂ Prod.mk both.name_eq both.canonical_eq

theorem canonical_themesValue_eq (matching : List.Forall₂ MatchingTheme left right) :
    (themesValue left).canonical = (themesValue right).canonical := by
  have named := canonical_namedValues_eq matching
  cases matching with
  | nil => exact named
  | cons first later =>
      cases later with
      | nil => exact first.canonical_eq
      | cons => exact named

theorem namedTables_eq (matching : List.Forall₂ MatchingTheme left right) :
    sortMembers (left.map fun (variant, map) =>
        (variant.name, Toml.Value.table (mapTable map))) =
      sortMembers (right.map fun (variant, map) => (variant.name, .table (mapTable map))) := by
  refine congrArg sortMembers (map_eq_of_forall₂ matching fun one other both => ?_)
  exact congrArg₂ Prod.mk both.name_eq (congrArg Toml.Value.table both.mapTable_eq)

theorem themesTable_eq (matching : List.Forall₂ MatchingTheme left right) :
    themesTable left = themesTable right := by
  have named := namedTables_eq matching
  cases matching with
  | nil => exact named
  | cons first later =>
      cases later with
      | nil => exact first.mapTable_eq
      | cons => exact named

theorem styleTexts_eq (matching : List.Forall₂ MatchingTheme left right)
    (apart : ∀ theme ∈ left, theme.2.NamesApart) :
    left.map (fun (variant, map) => map.styleText variant.selector) =
      right.map fun (variant, map) => map.styleText variant.selector := by
  induction matching with
  | nil => rfl
  | cons first _ ih =>
      obtain ⟨here, later⟩ := List.forall_mem_cons.mp apart
      exact congrArg₂ List.cons (first.styleText_eq here) (ih later)

theorem themesStyle_eq (matching : List.Forall₂ MatchingTheme left right)
    (apart : ∀ theme ∈ left, theme.2.NamesApart) : themesStyle left = themesStyle right := by
  rw [themesStyle, themesStyle, styleTexts_eq matching apart]

/-- Themes with the same variants in order and equal maps have the same JSON text and the same TOML
text, and the same style sheet when no two leaves of one map have one name. -/
theorem render_eq_of_sameThemes (wellFormed : ∀ theme ∈ left, theme.2.WellFormed)
    (otherWellFormed : ∀ theme ∈ right, theme.2.WellFormed) (same : SameThemes left right) :
    render left .json = render right .json ∧ render left .toml = render right .toml ∧
      ((∀ theme ∈ left, theme.2.NamesApart) → render left .css = render right .css) := by
  have matching := same.matching wellFormed otherWellFormed
  refine ⟨?_, ?_, themesStyle_eq matching⟩
  · rw [render, render, Json.writePretty_sorted, Json.writePretty_sorted,
      canonical_themesValue_eq matching]
  · rw [render, render, themesTable_eq matching]

end Themes

/-- An object inside an array, a zero, a null and an undefined slot. -/
def layeredMap : TokenMap :=
  ((TokenMap.empty.insert "shadow" "soft" (some (.array [.object
    [("x", .number (.zero false)), ("y", .null)]]))).insert
    "size" "none" (some (.object [("w", .number (.zero false)), ("h", .string "0")]))).insert
    "size" "wide" none

/-- The same with the categories, the keys and the members the other way round, and with negative
zeros. -/
def turnedMap : TokenMap :=
  ((TokenMap.empty.insert "size" "wide" none).insert
    "size" "none" (some (.object [("h", .string "0"), ("w", .number (.zero true))]))).insert
    "shadow" "soft" (some (.array [.object [("y", .null), ("x", .number (.zero true))]]))

theorem render_eq_of_turnedMap :
    let left : List RenderedTheme := [(.dark, layeredMap), (.light, .empty), (.dark, turnedMap)]
    let right : List RenderedTheme := [(.dark, turnedMap), (.light, .empty), (.dark, layeredMap)]
    (∀ theme ∈ left, theme.2.WellFormed) ∧ (∀ theme ∈ right, theme.2.WellFormed) ∧
      SameThemes left right ∧ (∀ theme ∈ left, theme.2.NamesApart) ∧
      render left .json = render right .json ∧ render left .toml = render right .toml ∧
      render left .css = render right .css := by
  intro left right
  have wellFormed : ∀ theme ∈ left, theme.2.WellFormed := by decide
  have otherWellFormed : ∀ theme ∈ right, theme.2.WellFormed := by decide
  have same : SameThemes left right :=
    .cons ⟨rfl, by decide⟩ (.cons ⟨rfl, by decide⟩ (.cons ⟨rfl, by decide⟩ .nil))
  have apart : ∀ theme ∈ left, theme.2.NamesApart := by decide +kernel
  obtain ⟨json, toml, css⟩ := render_eq_of_sameThemes wellFormed otherWellFormed same
  exact ⟨wellFormed, otherWellFormed, same, apart, json, toml, css apart⟩

end DesignTokens
