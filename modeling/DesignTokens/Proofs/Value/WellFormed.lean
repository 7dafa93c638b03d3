/-
Well-formed values.

A value is well-formed when each name occurs once in every object in it. Whether
that holds of a value can be computed.
-/
import DesignTokens.Proofs.Members
import DesignTokens.Value

namespace DesignTokens

instance {α : Type} (members : List (String × α)) : Decidable (DistinctNames members) :=
  inferInstanceAs (Decidable (List.Nodup _))

namespace Value

theorem itemsWellFormed_iff {items : List Value} :
    ItemsWellFormed items ↔ ∀ item ∈ items, item.WellFormed := by
  induction items with
  | nil => simp [ItemsWellFormed]
  | cons item rest ih => simp [ItemsWellFormed, ih]

theorem membersWellFormed_iff {members : List (String × Value)} :
    MembersWellFormed members ↔ ∀ name value, (name, value) ∈ members → value.WellFormed := by
  induction members with
  | nil => simp [MembersWellFormed]
  | cons head tail ih =>
      obtain ⟨name, value⟩ := head
      rw [MembersWellFormed, ih, forall_mem_members_cons]

mutual

def decideWellFormed : (value : Value) → Decidable value.WellFormed
  | .null => .isTrue trivial
  | .bool _ => .isTrue trivial
  | .number _ => .isTrue trivial
  | .string _ => .isTrue trivial
  | .array items => decideItemsWellFormed items
  | .object members => @instDecidableAnd _ _ _ (decideMembersWellFormed members)

def decideItemsWellFormed : (items : List Value) → Decidable (ItemsWellFormed items)
  | [] => .isTrue trivial
  | item :: rest => @instDecidableAnd _ _ item.decideWellFormed (decideItemsWellFormed rest)

def decideMembersWellFormed :
    (members : List (String × Value)) → Decidable (MembersWellFormed members)
  | [] => .isTrue trivial
  | (_, value) :: rest =>
    @instDecidableAnd _ _ value.decideWellFormed (decideMembersWellFormed rest)

end

instance (value : Value) : Decidable value.WellFormed := value.decideWellFormed

end Value

end DesignTokens
