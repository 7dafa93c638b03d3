/-
Members in the order of their names.

Sorting gives the members in the order of their names, and when each name occurs
once it is only another order of the same members. There is one such order, so
sorting commutes with whatever keeps the names in place: with changing each item
for itself, and with leaving members out.
-/
import DesignTokens.Proofs.Members

namespace DesignTokens

variable {α β : Type} {members : List (String × α)}

/-! ### The order of names -/

def OrderedNames (members : List (String × α)) : Prop :=
  (memberNames members).Pairwise (· < ·)

theorem OrderedNames.distinct (ordered : OrderedNames members) : DistinctNames members :=
  ordered.imp String.ne_of_lt

theorem OrderedNames.eq_of_perm {others : List (String × α)} (ordered : OrderedNames members)
    (othersOrdered : OrderedNames others) (reordered : members.Perm others) : members = others := by
  refine List.Perm.eq_of_pairwise ?_ (List.pairwise_map.mp ordered)
    (List.pairwise_map.mp othersOrdered) reordered
  intro one other _ _ before behind
  exact absurd behind (String.lt_asymm before)

/-! ### Putting a member in its place -/

theorem mem_putSorted {name : String} {item : α} {entry : String × α}
    (present : entry ∈ putSorted name item members) :
    entry = (name, item) ∨ entry ∈ members := by
  induction members with
  | nil => exact .inl (List.mem_singleton.mp present)
  | cons head tail ih =>
      obtain ⟨other, kept⟩ := head
      rw [putSorted] at present
      split at present
      · exact (List.mem_cons.mp present).imp_right (List.mem_cons_of_mem _)
      · split at present
        · exact List.mem_cons.mp present
        · rcases List.mem_cons.mp present with first | later
          · exact .inr (List.mem_cons.mpr (.inl first))
          · exact (ih later).imp_right (List.mem_cons_of_mem _)

theorem OrderedNames.putSorted (ordered : OrderedNames members) (name : String) (item : α) :
    OrderedNames (putSorted name item members) := by
  induction members with
  | nil => exact List.pairwise_singleton _ _
  | cons head tail ih =>
      obtain ⟨other, kept⟩ := head
      obtain ⟨above, rest⟩ := List.pairwise_cons.mp ordered
      rw [DesignTokens.putSorted]
      by_cases same : other = name
      · rw [if_pos same]
        subst same
        exact List.pairwise_cons.mpr ⟨above, rest⟩
      · rw [if_neg same]
        by_cases before : name < other
        · rw [if_pos before]
          refine List.pairwise_cons.mpr ⟨?_, ordered⟩
          intro later present
          rcases List.mem_cons.mp present with first | inTail
          · exact first ▸ before
          · exact String.lt_trans before (above later inTail)
        · rw [if_neg before]
          refine List.pairwise_cons.mpr ⟨?_, ih rest⟩
          intro later present
          obtain ⟨⟨_, met⟩, among, rfl⟩ := List.mem_map.mp present
          rcases mem_putSorted among with new | old
          · cases new
            exact Std.lt_of_le_of_ne before same
          · exact above _ (mem_memberNames old)

theorem putSorted_perm {name : String} (absent : name ∉ memberNames members) (item : α) :
    (putSorted name item members).Perm ((name, item) :: members) := by
  induction members with
  | nil => exact .refl _
  | cons head tail ih =>
      obtain ⟨other, kept⟩ := head
      have differs : name ≠ other := List.ne_of_not_mem_cons absent
      rw [putSorted, if_neg (Ne.symm differs)]
      split
      · exact .refl _
      · have later := ih (List.not_mem_of_not_mem_cons absent)
        exact (later.cons _).trans (.swap _ _ _)

theorem putSorted_map (image : α → β) (name : String) (item : α) (members : List (String × α)) :
    putSorted name (image item) (members.map fun (other, kept) => (other, image kept)) =
      (putSorted name item members).map fun (other, kept) => (other, image kept) := by
  induction members with
  | nil => rfl
  | cons head tail ih =>
      obtain ⟨other, kept⟩ := head
      rw [List.map_cons, putSorted, putSorted]
      split
      · rfl
      · split
        · rfl
        · rw [ih, List.map_cons]

/-! ### Sorting -/

theorem sortMembers_concat (members : List (String × α)) (last : String × α) :
    sortMembers (members ++ [last]) = putSorted last.1 last.2 (sortMembers members) :=
  List.foldl_append

theorem orderedNames_sortMembers (members : List (String × α)) :
    OrderedNames (sortMembers members) := by
  induction members using List.reverseRecOn with
  | nil => exact List.Pairwise.nil
  | append_singleton members last ih =>
      rw [sortMembers_concat]
      exact ih.putSorted last.1 last.2

theorem sortMembers_perm (distinct : DistinctNames members) :
    (sortMembers members).Perm members := by
  induction members using List.reverseRecOn with
  | nil => exact .refl _
  | append_singleton members last ih =>
      have front : DistinctNames (last :: members) :=
        distinct.perm (List.perm_append_singleton last members)
      obtain ⟨absent, rest⟩ := distinctNames_cons.mp front
      have sorted := ih rest
      have stillAbsent : last.1 ∉ memberNames (sortMembers members) := fun among =>
        absent ((sorted.map Prod.fst).mem_iff.mp among)
      rw [sortMembers_concat]
      calc
        (putSorted last.1 last.2 (sortMembers members)).Perm (last :: sortMembers members) :=
          putSorted_perm stillAbsent last.2
        _ |>.Perm (last :: members) := sorted.cons last
        _ |>.Perm (members ++ [last]) := (List.perm_append_singleton last members).symm

theorem sortMembers_eq_of_perm {others : List (String × α)} (distinct : DistinctNames members)
    (reordered : members.Perm others) : sortMembers members = sortMembers others := by
  refine (orderedNames_sortMembers members).eq_of_perm (orderedNames_sortMembers others) ?_
  calc
    (sortMembers members).Perm members := sortMembers_perm distinct
    _ |>.Perm others := reordered
    _ |>.Perm (sortMembers others) := (sortMembers_perm (distinct.perm reordered)).symm

theorem sortMembers_of_ordered (ordered : OrderedNames members) : sortMembers members = members :=
  (orderedNames_sortMembers members).eq_of_perm ordered (sortMembers_perm ordered.distinct)

theorem mem_of_mem_sortMembers {entry : String × α} (present : entry ∈ sortMembers members) :
    entry ∈ members := by
  induction members using List.reverseRecOn with
  | nil => exact present
  | append_singleton members last ih =>
      rw [sortMembers_concat] at present
      rcases mem_putSorted present with new | old
      · exact List.mem_append_right _ (List.mem_singleton.mpr new)
      · exact List.mem_append_left _ (ih old)

theorem sortMembers_map (image : α → β) (members : List (String × α)) :
    sortMembers (members.map fun (name, item) => (name, image item)) =
      (sortMembers members).map fun (name, item) => (name, image item) := by
  induction members using List.reverseRecOn with
  | nil => rfl
  | append_singleton members last ih =>
      obtain ⟨name, item⟩ := last
      rw [List.map_append, List.map_singleton, sortMembers_concat, sortMembers_concat, ih]
      exact putSorted_map image name item _

/-! ### Leaving members out -/

/-- The members whose items have an image, with the images. -/
def filterItems (image : α → Option β) (members : List (String × α)) : List (String × β) :=
  members.filterMap fun (name, item) => (image item).map (name, ·)

theorem filterItems_cons_none {image : α → Option β} {item : α} (dropped : image item = none)
    (name : String) (rest : List (String × α)) :
    filterItems image ((name, item) :: rest) = filterItems image rest :=
  List.filterMap_cons_none (congrArg (Option.map (name, ·)) dropped)

theorem filterItems_cons_some {image : α → Option β} {item : α} {kept : β}
    (stays : image item = some kept) (name : String) (rest : List (String × α)) :
    filterItems image ((name, item) :: rest) = (name, kept) :: filterItems image rest :=
  List.filterMap_cons_some (congrArg (Option.map (name, ·)) stays)

theorem filterItems_map {γ : Type} {image : β → Option γ} {first : α → β} {second : α → γ}
    (stays : ∀ name item, (name, item) ∈ members → image (first item) = some (second item)) :
    filterItems image (members.map fun (name, item) => (name, first item)) =
      members.map fun (name, item) => (name, second item) := by
  induction members with
  | nil => rfl
  | cons head tail ih =>
      obtain ⟨name, item⟩ := head
      obtain ⟨here, later⟩ := forall_mem_members_cons.mp stays
      rw [List.map_cons, filterItems_cons_some here, ih later, List.map_cons]

theorem memberNames_filterItems (image : α → Option β) (members : List (String × α)) :
    (memberNames (filterItems image members)).Sublist (memberNames members) := by
  induction members with
  | nil => exact .slnil
  | cons head tail ih =>
      obtain ⟨name, item⟩ := head
      cases imaged : image item with
      | none =>
          rw [filterItems_cons_none imaged]
          exact ih.cons name
      | some kept =>
          rw [filterItems_cons_some imaged]
          exact ih.cons_cons name

theorem sortMembers_filterItems (distinct : DistinctNames members) (image : α → Option β) :
    sortMembers (filterItems image members) = filterItems image (sortMembers members) := by
  have still : DistinctNames (filterItems image members) :=
    distinct.sublist (memberNames_filterItems image members)
  have ordered : OrderedNames (filterItems image (sortMembers members)) :=
    (orderedNames_sortMembers members).sublist (memberNames_filterItems image _)
  refine (orderedNames_sortMembers _).eq_of_perm ordered ?_
  calc
    (sortMembers (filterItems image members)).Perm (filterItems image members) :=
      sortMembers_perm still
    _ |>.Perm (filterItems image (sortMembers members)) :=
      ((sortMembers_perm distinct).symm.filterMap _)

/-- Where no member is left out, names may repeat: the later item of a name counts both before and
after. -/
theorem filterItems_sortMembers_map {γ : Type} {image : β → Option γ} (first : α → β)
    (second : α → γ)
    (stays : ∀ name item, (name, item) ∈ members → image (first item) = some (second item)) :
    filterItems image (sortMembers (members.map fun (name, item) => (name, first item))) =
      sortMembers (members.map fun (name, item) => (name, second item)) := by
  rw [sortMembers_map, sortMembers_map]
  exact filterItems_map fun name item present =>
    stays name item (mem_of_mem_sortMembers present)

end DesignTokens
