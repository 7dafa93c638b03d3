/-
Well-formed registries.

A document is read into a well-formed value, and the tree of a well-formed value is
well-formed. What a search finds in a well-formed registry is well-formed again.
-/
import DesignTokens.Proofs.Json.Ordered
import DesignTokens.Proofs.Source.Search
import DesignTokens.Proofs.Tree.WellFormed
import DesignTokens.Source.Builtin

namespace DesignTokens

/-! ### Trees of documents -/

theorem memberNames_childrenOfMembers (members : List (String × Value)) :
    (memberNames (childrenOfMembers members)).Sublist (memberNames members) := by
  induction members with
  | nil => exact .slnil
  | cons head tail ih =>
      obtain ⟨name, value⟩ := head
      rw [childrenOfMembers]
      split
      · exact ih.cons name
      · exact ih.cons_cons name

mutual

theorem TokenNode.wellFormed_ofValue :
    (value : Value) → value.WellFormed → (TokenNode.ofValue value).WellFormed
  | .object members, wellFormed => by
      rw [Value.WellFormed] at wellFormed
      rw [TokenNode.ofValue]
      split
      · rename_i inner found
        rw [TokenNode.WellFormed]
        exact Value.membersWellFormed_iff.mp wellFormed.2 valueKey inner (mem_of_lookup found)
      · rw [TokenNode.WellFormed]
        exact ⟨wellFormed.1.sublist (memberNames_childrenOfMembers members),
          wellFormed_childrenOfMembers members wellFormed.2⟩
  | .null, wellFormed => wellFormed
  | .bool _, wellFormed => wellFormed
  | .number _, wellFormed => wellFormed
  | .string _, wellFormed => wellFormed
  | .array _, wellFormed => wellFormed

theorem wellFormed_childrenOfMembers :
    (members : List (String × Value)) → Value.MembersWellFormed members →
      ChildrenWellFormed (childrenOfMembers members)
  | [], _ => trivial
  | (name, value) :: rest, wellFormed => by
      rw [Value.MembersWellFormed] at wellFormed
      have others := wellFormed_childrenOfMembers rest wellFormed.2
      rw [childrenOfMembers]
      split
      · exact others
      · exact ⟨TokenNode.wellFormed_ofValue value wellFormed.1, others⟩

end

theorem TokenTree.wellFormed_ofValue? {value : Value} (wellFormed : value.WellFormed)
    {tree : TokenTree} (isTree : TokenTree.ofValue? value = some tree) : tree.WellFormed := by
  cases value with
  | object members =>
      rw [Value.WellFormed] at wellFormed
      rw [ofValue?] at isTree
      split at isTree
      · cases isTree
      · cases isTree
        exact ⟨wellFormed.1.sublist (memberNames_childrenOfMembers members),
          wellFormed_childrenOfMembers members wellFormed.2⟩
  | _ => cases isTree

theorem TokenTree.exists_read_of_ofJson {name text : String} {tree : TokenTree}
    (read : ofJson name text = .ok tree) :
    ∃ value, Json.read? text = some value ∧ ofValue? value = some tree := by
  unfold ofJson at read
  split at read
  · cases read
  · rename_i value isValue
    split at read
    · cases read
    · rename_i other isTree
      cases read
      exact ⟨value, isValue, isTree⟩

theorem TokenTree.wellFormed_ofJson {name text : String} {tree : TokenTree}
    (read : TokenTree.ofJson name text = .ok tree) : tree.WellFormed := by
  obtain ⟨value, isValue, isTree⟩ := exists_read_of_ofJson read
  exact wellFormed_ofValue? (Json.wellFormed_of_read? isValue) isTree

/-! ### Registries -/

namespace SourceRegistry

variable {registry : SourceRegistry}

/-- In every source each name occurs once, in every group and every object. -/
def WellFormed (registry : SourceRegistry) : Prop :=
  ∀ source ∈ registry.sources, source.tree.WellFormed

theorem WellFormed.of_find? (wellFormed : registry.WellFormed) {path : String} {found : Found}
    (isFound : registry.find? path = some found) : found.node.WellFormed := by
  obtain ⟨source, present, -, looked⟩ := exists_source_of_firstFound? isFound
  exact (wellFormed source present).of_lookup looked

instance (registry : SourceRegistry) : Decidable registry.WellFormed :=
  inferInstanceAs (Decidable (∀ source ∈ registry.sources, source.tree.WellFormed))

theorem builtin_wellFormed : builtin.WellFormed := by decide

end SourceRegistry

end DesignTokens
