/-
Equality of values.

Equality does not see the order of members and compares numbers as numbers, so
two values can be equal without being the same. A value that matches another is
well-formed and equal to it: `Matches` opens, constructor by constructor, into
the same shape on both sides, and the members match in some order.
-/
import DesignTokens.Proofs.Value.WellFormed

namespace DesignTokens

namespace Value

/-! ### Equality of items and members -/

theorem itemsEqual_iff {left right : List Value} :
    itemsEqual left right = true ↔
      List.Forall₂ (fun item other => item.equals other = true) left right := by
  induction left generalizing right with
  | nil =>
      cases right with
      | nil => simp [itemsEqual]
      | cons other others => simp [itemsEqual]
  | cons item rest ih =>
      cases right with
      | nil => simp [itemsEqual]
      | cons other others => simp [itemsEqual, ih]

theorem membersWithin_iff {left right : List (String × Value)} :
    membersWithin left right = true ↔ ∀ name value, (name, value) ∈ left →
      ∃ other, right.lookup name = some other ∧ value.equals other = true := by
  induction left with
  | nil => simp [membersWithin]
  | cons head tail ih =>
      obtain ⟨name, value⟩ := head
      rw [membersWithin, Bool.and_eq_true, ih, forall_mem_members_cons]
      refine and_congr_left fun _ => ?_
      cases right.lookup name <;> simp

/-! ### Matching values -/

/-- The value is well-formed and equal to the other. -/
def Matches (value other : Value) : Prop := value.WellFormed ∧ value.equals other = true

theorem matches_array_iff {items others : List Value} :
    (array items).Matches (.array others) ↔ List.Forall₂ Matches items others := by
  rw [Matches, WellFormed, equals, itemsEqual_iff]
  constructor
  · rintro ⟨wellFormed, same⟩
    induction same with
    | nil => exact .nil
    | cons first _ ih =>
        rw [ItemsWellFormed] at wellFormed
        exact .cons ⟨wellFormed.1, first⟩ (ih wellFormed.2)
  · intro each
    induction each with
    | nil => exact ⟨trivial, .nil⟩
    | cons first _ ih => exact ⟨⟨first.1, ih.1⟩, .cons first.2 ih.2⟩

theorem matches_object_iff {members others : List (String × Value)} :
    (object members).Matches (.object others) ↔
      DistinctNames members ∧ SameMembers Matches members others := by
  rw [Matches, WellFormed, equals, Bool.and_eq_true, beq_iff_eq, membersWithin_iff,
    membersWellFormed_iff]
  constructor
  · rintro ⟨⟨distinct, wellFormed⟩, count, within⟩
    refine ⟨distinct, .of_lookup distinct count ?_⟩
    intro name value present
    obtain ⟨other, found, same⟩ := within name value present
    exact ⟨other, found, wellFormed name value present, same⟩
  · rintro ⟨distinct, same⟩
    have each (name : String) (value : Value) (present : (name, value) ∈ members) :=
      same.exists_of_mem distinct present
    refine ⟨⟨distinct, ?_⟩, same.length_eq, ?_⟩
    · intro name value present
      obtain ⟨other, -, matched⟩ := each name value present
      exact matched.1
    · intro name value present
      obtain ⟨other, found, matched⟩ := each name value present
      exact ⟨other, found, matched.2⟩

/-- The shapes of two values that match. -/
inductive SameShape : Value → Value → Prop
  | null : SameShape .null .null
  | bool (flag : Bool) : SameShape (.bool flag) (.bool flag)
  | number {number other : Number} (same : number.equals other = true) :
      SameShape (.number number) (.number other)
  | string (text : String) : SameShape (.string text) (.string text)
  | array {items others : List Value} (each : List.Forall₂ Matches items others) :
      SameShape (.array items) (.array others)
  | object {members others : List (String × Value)} (distinct : DistinctNames members)
      (same : SameMembers Matches members others) : SameShape (.object members) (.object others)

theorem matches_iff_sameShape {value other : Value} :
    value.Matches other ↔ SameShape value other := by
  constructor
  · intro matched
    cases value with
    | null =>
        cases other with
        | null => exact .null
        | _ => cases matched.2
    | bool flag =>
        cases other with
        | bool another =>
            rw [← (eq_of_beq matched.2 : flag = another)]
            exact .bool flag
        | _ => cases matched.2
    | number number =>
        cases other with
        | number another => exact .number matched.2
        | _ => cases matched.2
    | string text =>
        cases other with
        | string another =>
            rw [← (eq_of_beq matched.2 : text = another)]
            exact .string text
        | _ => cases matched.2
    | array items =>
        cases other with
        | array others => exact .array (matches_array_iff.mp matched)
        | _ => cases matched.2
    | object members =>
        cases other with
        | object others =>
            obtain ⟨distinct, same⟩ := matches_object_iff.mp matched
            exact .object distinct same
        | _ => cases matched.2
  · intro shape
    cases shape with
    | null => exact ⟨trivial, rfl⟩
    | bool flag => exact ⟨trivial, beq_self_eq_true flag⟩
    | number same => exact ⟨trivial, same⟩
    | string text => exact ⟨trivial, beq_self_eq_true text⟩
    | array each => exact matches_array_iff.mpr each
    | object distinct same => exact matches_object_iff.mpr ⟨distinct, same⟩

namespace Matches

variable {value other : Value}

theorem shape (matched : value.Matches other) : SameShape value other :=
  matches_iff_sameShape.mp matched

theorem reference?_eq (matched : value.Matches other) : value.reference? = other.reference? := by
  cases matched.shape <;> rfl

theorem string?_eq (matched : value.Matches other) : value.string? = other.string? := by
  cases matched.shape <;> rfl

/-- Matching objects have matching members under every name. -/
theorem members?_rel (matched : value.Matches other) :
    Option.Rel (fun members others => ∀ name,
      Option.Rel Matches (members.lookup name) (others.lookup name))
      value.members? other.members? := by
  cases matched.shape with
  | object distinct same => exact .some (same.lookup distinct)
  | null => exact .none
  | bool => exact .none
  | number => exact .none
  | string => exact .none
  | array => exact .none

end Matches

end Value

end DesignTokens
