/-
Arrays in normal form.

The normal form of an array is decided by the normal forms of its items, each by
itself: all of them are layers, and it is the text of the shadow, or it is the
array of them.
-/
import Mathlib.Data.List.Basic
import DesignTokens.Proofs.Resolution.Settled
import DesignTokens.Proofs.Value.Layer

namespace DesignTokens

theorem Value.result_normalItems (follow : String → Traced (Option Value)) (items : List Value) :
    (normalItems follow items).result =
      items.map fun item => (item.normalWith follow).result.getD .null := by
  induction items with
  | nil => rfl
  | cons item rest ih =>
      rw [normalItems, List.map_cons, ← ih]
      rfl

namespace Resolver

variable {registry : SourceRegistry} {resolver : Resolver registry}

/-- The items of an array, each in normal form, with null for an undefined one. -/
def normalizeItems (resolver : Resolver registry) (trail : Trail) (items : List Value) : List Value :=
  items.map fun item => (resolver.normalizeIn trail item).result.1.getD .null

theorem result_normalizeIn_array (reachable : resolver.Reachable) (trail : Trail)
    (items : List Value) :
    (resolver.normalizeIn trail (.array items)).result.1 =
      some (collapse (resolver.normalizeItems trail items)) := by
  simp only [normalizeItems, result_normalizeIn reachable]
  rw [SourceRegistry.normalizeIn, Value.normalWith]
  exact congrArg (fun normal => some (collapse normal)) (Value.result_normalItems _ items)

/-- An array has the text of its layers as its normal form exactly when it has items and each of
them has a layer as its own; otherwise its items are kept, each in its place and as it is. That
only the first of them is looked at before all are read makes no difference. -/
theorem array_all_or_nothing (reachable : resolver.Reachable) (trail : Trail)
    (items : List Value) :
    let normal := resolver.normalizeItems trail items
    let result := (resolver.normalizeIn trail (.array items)).result.1
    ((∃ layers : List ShadowLayer, normal.map ShadowLayer.ofValue? = layers.map some ∧
        result = some (.string (shadowText layers))) ↔
      normal ≠ [] ∧ ∀ item ∈ normal, (ShadowLayer.ofValue? item).isSome = true) ∧
    (¬(normal ≠ [] ∧ ∀ item ∈ normal, (ShadowLayer.ofValue? item).isSome = true) →
      result = some (.array normal)) ∧
    normal.length = items.length ∧
    ∀ item, (ShadowLayer.ofValue? item).isSome = true → ShadowLayer.isDescriptor item = true := by
  intro normal result
  have collapsed : result = some (collapse normal) :=
    result_normalizeIn_array reachable trail items
  refine ⟨⟨?_, ?_⟩, ?_, List.length_map _, ?_⟩
  · rintro ⟨layers, each, text⟩
    have isText := Option.some.inj (collapsed.symm.trans text)
    refine ⟨(collapse_eq_string_iff.mp isText).1, fun item present => ?_⟩
    exact isSome_of_layers each present
  · rintro ⟨nonempty, all⟩
    obtain ⟨layers, each⟩ := exists_layers all
    exact ⟨layers, each, by rw [collapsed, collapse_of_layers nonempty each]⟩
  · intro other
    rw [collapsed, collapse_of_not_layers other]
  · intro item read
    obtain ⟨layer, isLayer⟩ := Option.isSome_iff_exists.mp read
    exact ShadowLayer.isDescriptor_of_ofValue? isLayer

def zeroLayer (color : String) : ShadowLayer :=
  ⟨.zero false, .zero false, .zero false, .zero false, color, .outer⟩

theorem ofValue?_plainLayer (color : String) :
    ShadowLayer.ofValue? (plainLayer color) = some (zeroLayer color) := rfl

/-- Two layers, one with a color to look up, and the same with a layer that is not defined. -/
theorem shadow_of_plainLayers :
    let resolver := ((fresh palette).walk [] "ink").2
    let whole := [plainLayer "{ink}", plainLayer "red"]
    let broken := [plainLayer "{ink}", .string "{gone}"]
    resolver.Reachable ∧
      (resolver.normalizeIn [] (.array whole)).result.1 =
        some (.string "0px 0px 0px 0px #000000, 0px 0px 0px 0px red") ∧
      (resolver.normalizeIn [] (.array broken)).result.1 =
        some (.array [plainLayer "#000000", .null]) := by
  intro resolver whole broken
  have reachable : resolver.Reachable := .walk .fresh [] "ink"
  have color : palette.Expands (.string "{ink}") (some (.string "#000000")) :=
    .reference rfl (.onward rfl rfl (.literal rfl rfl)) (.text rfl)
  have ink : (resolver.normalizeIn [] (plainLayer "{ink}")).result.1 =
      some (plainLayer "#000000") :=
    (normalize_of_expands reachable (plainLayer_expands color)).1
  have red : (resolver.normalizeIn [] (plainLayer "red")).result.1 = some (plainLayer "red") :=
    (normalize_of_expands reachable (plainLayer_expands (.text rfl))).1
  have gone : (resolver.normalizeIn [] (.string "{gone}")).result.1 = none :=
    (normalize_of_expands reachable (.dangling rfl (.undefined rfl))).1
  have normalWhole : resolver.normalizeItems [] whole =
      [plainLayer "#000000", plainLayer "red"] := by
    simp only [normalizeItems, whole, List.map_cons, List.map_nil, ink, red, Option.getD_some]
  have normalBroken : resolver.normalizeItems [] broken = [plainLayer "#000000", .null] := by
    simp only [normalizeItems, broken, List.map_cons, List.map_nil, ink, gone, Option.getD_some,
      Option.getD_none]
  have collapses := (array_all_or_nothing reachable [] whole).1
  have stays := (array_all_or_nothing reachable [] broken).2.1
  rw [normalWhole] at collapses
  rw [normalBroken] at stays
  obtain ⟨layers, each, text⟩ := collapses.mpr (by decide)
  rw [List.map_cons, List.map_cons, ofValue?_plainLayer, ofValue?_plainLayer] at each
  have isLayers : layers = [zeroLayer "#000000", zeroLayer "red"] :=
    List.map_injective_iff.mpr (fun _ _ => Option.some.inj) each.symm
  have written : shadowText layers = "0px 0px 0px 0px #000000, 0px 0px 0px 0px red" := by
    rw [isLayers]
    decide +kernel
  exact ⟨reachable, text.trans (by rw [written]), stays (by decide)⟩

end Resolver

end DesignTokens
