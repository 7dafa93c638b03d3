/-
Shadows of matching layers.

Whether a value is a shadow layer, and the text of the layer, depend on the
members of the value by their names and on its numbers by their texts. So arrays
whose items match collapse to values that match.
-/
import DesignTokens.Proofs.Number.Equality
import DesignTokens.Proofs.Value.Equality
import DesignTokens.Shadow

namespace DesignTokens

/-! ### Layers -/

/-- Numbers that are written alike, as equal ones are, and also a NaN and itself. -/
def Number.WrittenAlike (left right : Number) : Prop := left.displayText = right.displayText

theorem Number.WrittenAlike.refl (number : Number) : number.WrittenAlike number :=
  Eq.refl number.displayText

def ShadowLayer.WrittenAlike (left right : ShadowLayer) : Prop := left.text = right.text

theorem ShadowLayer.pixels_eq {left right : Number} (same : left.WrittenAlike right) :
    pixels left = pixels right := by
  rw [pixels, pixels, show left.displayText = right.displayText from same]

namespace Value.Matches

variable {value other : Value}

theorem shadowLength?_rel (matched : value.Matches other) :
    Option.Rel Number.WrittenAlike (shadowLength? value) (shadowLength? other) := by
  cases matched.shape with
  | number same => exact .some (Number.displayText_eq_of_equals same)
  | string text => exact rel_of_eq (fun _ => .refl _) rfl
  | null => exact .none
  | bool => exact .none
  | array => exact .none
  | object => exact .none

theorem isDescriptor_eq (matched : value.Matches other) :
    ShadowLayer.isDescriptor value = ShadowLayer.isDescriptor other := by
  cases matched.shape with
  | @object members others distinct same =>
      have fields (field : String) :
          (members.lookup field).isSome = (others.lookup field).isSome :=
        rel_isSome (same.lookup distinct field)
      simp only [ShadowLayer.isDescriptor, members?, fields]
  | null => rfl
  | bool => rfl
  | number => rfl
  | string => rfl
  | array => rfl

theorem layer?_rel (matched : value.Matches other) :
    Option.Rel ShadowLayer.WrittenAlike (ShadowLayer.ofValue? value)
      (ShadowLayer.ofValue? other) := by
  unfold ShadowLayer.ofValue?
  refine rel_bind matched.members?_rel ?_
  intro members others each
  have length (name : String) : Option.Rel Number.WrittenAlike
      ((members.lookup name).bind shadowLength?) ((others.lookup name).bind shadowLength?) :=
    rel_bind (each name) fun _ _ both => both.shadowLength?_rel
  have text (name : String) :
      (members.lookup name).bind string? = (others.lookup name).bind string? :=
    bind_eq_of_rel (each name) fun _ _ both => both.string?_eq
  refine rel_bind (length "x") fun x _ sameX => ?_
  refine rel_bind (length "y") fun y _ sameY => ?_
  refine rel_bind (length "blur") fun blur _ sameBlur => ?_
  refine rel_bind (length "spread") fun spread _ sameSpread => ?_
  refine rel_bind (rel_of_eq Eq.refl (text "color")) fun color _ sameColor => .some ?_
  have sameKind : ShadowLayer.kindOf members = ShadowLayer.kindOf others := by
    unfold ShadowLayer.kindOf
    rw [text "type"]
  rw [ShadowLayer.WrittenAlike, ShadowLayer.text, ShadowLayer.text]
  dsimp only
  rw [ShadowLayer.pixels_eq sameX, ShadowLayer.pixels_eq sameY, ShadowLayer.pixels_eq sameBlur,
    ShadowLayer.pixels_eq sameSpread, sameColor, sameKind]

end Value.Matches

/-! ### Arrays -/

theorem shadowLayers?_rel {items others : List Value}
    (each : List.Forall₂ Value.Matches items others) :
    Option.Rel (List.Forall₂ ShadowLayer.WrittenAlike) (shadowLayers? items)
      (shadowLayers? others) := by
  induction each with
  | nil => exact .some .nil
  | @cons item other rest remaining first _ ih =>
      have layer := first.layer?_rel
      rw [shadowLayers?, shadowLayers?]
      generalize ShadowLayer.ofValue? item = left at layer ⊢
      generalize ShadowLayer.ofValue? other = right at layer ⊢
      generalize shadowLayers? rest = leftLayers at ih ⊢
      generalize shadowLayers? remaining = rightLayers at ih ⊢
      cases layer with
      | none => exact .none
      | some both =>
          cases ih with
          | none => exact .none
          | some later => exact .some (.cons both later)

theorem shadowText_eq {left right : List ShadowLayer}
    (each : List.Forall₂ ShadowLayer.WrittenAlike left right) :
    shadowText left = shadowText right := by
  have texts : left.map ShadowLayer.text = right.map ShadowLayer.text := by
    induction each with
    | nil => rfl
    | cons first _ ih => exact congrArg₂ List.cons first ih
  rw [shadowText, shadowText, texts]

theorem collapse_matches {items others : List Value}
    (each : List.Forall₂ Value.Matches items others) :
    (collapse items).Matches (collapse others) := by
  have kept : (Value.array items).Matches (.array others) := Value.matches_array_iff.mpr each
  have layers := shadowLayers?_rel each
  cases each with
  | nil => exact kept
  | @cons item other rest remaining first later =>
      rw [collapse, collapse, first.isDescriptor_eq]
      cases ShadowLayer.isDescriptor other with
      | false => exact kept
      | true =>
          simp only [↓reduceIte]
          generalize shadowLayers? (item :: rest) = left at layers ⊢
          generalize shadowLayers? (other :: remaining) = right at layers ⊢
          cases layers with
          | none => exact kept
          | some both =>
              dsimp only
              rw [shadowText_eq both]
              exact Value.matches_iff_sameShape.mpr (.string _)

end DesignTokens
