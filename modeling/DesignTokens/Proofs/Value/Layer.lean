/-
Shadow layers, all or none.

A value is a layer when each of its lengths and its color can be read, and then
it has all the fields that a descriptor has. So the look at the first item
decides nothing by itself: an array that has items collapses exactly when every
item is a layer, to the texts of its layers in order, and any other array is
kept as it is.
-/
import DesignTokens.Shadow

namespace DesignTokens

/-- The member of a value under a name. -/
def Value.member? (value : Value) (name : String) : Option Value :=
  value.members?.bind (·.lookup name)

namespace ShadowLayer

/-- The lengths of a layer, with the names of the members that they are read from. -/
def lengths (layer : ShadowLayer) : List (String × Number) :=
  [("x", layer.x), ("y", layer.y), ("blur", layer.blur), ("spread", layer.spread)]

/-- The names of the members that lengths are read from. -/
def lengthNames : List String := ["x", "y", "blur", "spread"]

variable {value : Value} {layer : ShadowLayer}

theorem map_lengths (layer : ShadowLayer) : layer.lengths.map Prod.fst = lengthNames := rfl

/-- What the members of a layer are. -/
theorem members_of_ofValue? (read : ofValue? value = some layer) :
    (∀ named ∈ layer.lengths, (value.member? named.1).bind shadowLength? = some named.2) ∧
      (value.member? "color").bind Value.string? = some layer.color := by
  unfold ofValue? at read
  obtain ⟨members, isObject, read⟩ := Option.bind_eq_some_iff.mp read
  obtain ⟨x, isX, read⟩ := Option.bind_eq_some_iff.mp read
  obtain ⟨y, isY, read⟩ := Option.bind_eq_some_iff.mp read
  obtain ⟨blur, isBlur, read⟩ := Option.bind_eq_some_iff.mp read
  obtain ⟨spread, isSpread, read⟩ := Option.bind_eq_some_iff.mp read
  obtain ⟨color, isColor, read⟩ := Option.bind_eq_some_iff.mp read
  cases read
  have under (name : String) : value.member? name = members.lookup name := by
    rw [Value.member?, isObject]
    rfl
  simp only [lengths, List.forall_mem_cons, under]
  exact ⟨⟨isX, isY, isBlur, isSpread, by simp⟩, isColor⟩

theorem isDescriptor_iff :
    isDescriptor value = true ↔ ∀ field ∈ shadowFields, (value.member? field).isSome = true := by
  rw [isDescriptor]
  cases isObject : value.members? with
  | none =>
      refine iff_of_false Bool.false_ne_true fun each => ?_
      have first := each "x" List.mem_cons_self
      rw [Value.member?, isObject] at first
      cases first
  | some members =>
      simp only [Value.member?, isObject, Option.bind_some]
      exact List.all_eq_true

/-- The look at the fields refuses no layer. -/
theorem isDescriptor_of_ofValue? (read : ofValue? value = some layer) :
    isDescriptor value = true := by
  obtain ⟨lengths, color⟩ := members_of_ofValue? read
  have present {α : Type} {name : String} {reads : Value → Option α} {result : α}
      (field : (value.member? name).bind reads = some result) :
      (value.member? name).isSome = true := by
    obtain ⟨item, found, -⟩ := Option.bind_eq_some_iff.mp field
    rw [found]
    rfl
  simp only [ShadowLayer.lengths, List.forall_mem_cons] at lengths
  obtain ⟨x, y, blur, spread, -⟩ := lengths
  rw [isDescriptor_iff, shadowFields]
  simp only [List.forall_mem_cons]
  exact ⟨present x, present y, present blur, present spread, present color, by simp⟩

end ShadowLayer

/-! ### Arrays -/

theorem shadowLayers?_eq_some_iff {items : List Value} {layers : List ShadowLayer} :
    shadowLayers? items = some layers ↔ items.map ShadowLayer.ofValue? = layers.map some := by
  induction items generalizing layers with
  | nil => cases layers <;> simp [shadowLayers?]
  | cons item rest ih =>
      rw [shadowLayers?, List.map_cons]
      cases layers with
      | nil =>
          cases ShadowLayer.ofValue? item <;> cases shadowLayers? rest <;> simp
      | cons layer others =>
          rw [List.map_cons, List.cons.injEq, ← ih]
          cases ShadowLayer.ofValue? item <;> cases shadowLayers? rest <;> simp

/-- Items of which each is a layer have a list of layers. -/
theorem exists_layers {items : List Value}
    (each : ∀ item ∈ items, (ShadowLayer.ofValue? item).isSome = true) :
    ∃ layers : List ShadowLayer, items.map ShadowLayer.ofValue? = layers.map some := by
  induction items with
  | nil => exact ⟨[], rfl⟩
  | cons item rest ih =>
      obtain ⟨first, later⟩ := List.forall_mem_cons.mp each
      obtain ⟨layer, read⟩ := Option.isSome_iff_exists.mp first
      obtain ⟨layers, others⟩ := ih later
      exact ⟨layer :: layers, by rw [List.map_cons, read, others, List.map_cons]⟩

/-- A list of layers has one for each item. -/
theorem isSome_of_layers {items : List Value} {layers : List ShadowLayer}
    (each : items.map ShadowLayer.ofValue? = layers.map some) {item : Value}
    (present : item ∈ items) : (ShadowLayer.ofValue? item).isSome = true := by
  have among : ShadowLayer.ofValue? item ∈ layers.map some := by
    rw [← each]
    exact List.mem_map_of_mem present
  obtain ⟨layer, -, same⟩ := List.mem_map.mp among
  rw [← same]
  rfl

theorem collapse_of_layers {items : List Value} {layers : List ShadowLayer}
    (nonempty : items ≠ []) (each : items.map ShadowLayer.ofValue? = layers.map some) :
    collapse items = .string (shadowText layers) := by
  have read := shadowLayers?_eq_some_iff.mpr each
  cases items with
  | nil => exact absurd rfl nonempty
  | cons first rest =>
      cases layers with
      | nil => cases each
      | cons layer others =>
          rw [List.map_cons, List.map_cons, List.cons.injEq] at each
          rw [collapse, if_pos (ShadowLayer.isDescriptor_of_ofValue? each.1), read]

theorem collapse_of_not_layers {items : List Value}
    (other : ¬(items ≠ [] ∧ ∀ item ∈ items, (ShadowLayer.ofValue? item).isSome = true)) :
    collapse items = .array items := by
  cases items with
  | nil => rfl
  | cons first rest =>
      rw [collapse]
      cases read : shadowLayers? (first :: rest) with
      | none => split <;> rfl
      | some layers =>
          have each := shadowLayers?_eq_some_iff.mp read
          exact absurd ⟨List.cons_ne_nil first rest, fun _ => isSome_of_layers each⟩ other

/-- An array collapses when it has items and all of them are layers, and to their texts. -/
theorem collapse_eq_string_iff {items : List Value} {text : String} :
    collapse items = .string text ↔
      items ≠ [] ∧ ∃ layers : List ShadowLayer,
        items.map ShadowLayer.ofValue? = layers.map some ∧ text = shadowText layers := by
  constructor
  · intro collapsed
    by_cases all : items ≠ [] ∧ ∀ item ∈ items, (ShadowLayer.ofValue? item).isSome = true
    · obtain ⟨layers, each⟩ := exists_layers all.2
      rw [collapse_of_layers all.1 each] at collapsed
      exact ⟨all.1, layers, each, (Value.string.inj collapsed).symm⟩
    · rw [collapse_of_not_layers all] at collapsed
      cases collapsed
  · rintro ⟨nonempty, layers, each, rfl⟩
    exact collapse_of_layers nonempty each

end DesignTokens
