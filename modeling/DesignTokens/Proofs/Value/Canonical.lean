/-
The canonical form of a value.

Equal values differ in the order of their members and in the signs of their
zeros, and in nothing else. The canonical form has the members in the order of
their names and no sign on a zero, so equal values have one canonical form, and
a value whose numbers are finite is equal to its own.
-/
import DesignTokens.Proofs.MemberOrder
import DesignTokens.Proofs.Number.Whole
import DesignTokens.Proofs.Value.Equality

namespace DesignTokens

namespace Value

/-! ### The numbers in a value -/

mutual

/-- The numbers that occur in a value. -/
def numbers : Value → List Number
  | .number value => [value]
  | .array items => itemNumbers items
  | .object members => memberNumbers members
  | _ => []

def itemNumbers : List Value → List Number
  | [] => []
  | item :: rest => item.numbers ++ itemNumbers rest

def memberNumbers : List (String × Value) → List Number
  | [] => []
  | (_, value) :: rest => value.numbers ++ memberNumbers rest

end

/-- Every number in the value is finite. -/
def Finite (value : Value) : Prop := ∀ number ∈ value.numbers, number.isFinite = true

theorem finite_array_iff {items : List Value} :
    (array items).Finite ↔ ∀ item ∈ items, item.Finite := by
  induction items with
  | nil => simp [Finite, numbers, itemNumbers]
  | cons item rest ih =>
      rw [List.forall_mem_cons, ← ih]
      exact List.forall_mem_append

theorem finite_object_iff {members : List (String × Value)} :
    (object members).Finite ↔ ∀ name value, (name, value) ∈ members → value.Finite := by
  induction members with
  | nil => simp [Finite, numbers, memberNumbers]
  | cons head tail ih =>
      rw [forall_mem_members_cons, ← ih]
      exact List.forall_mem_append

instance (value : Value) : Decidable value.Finite :=
  inferInstanceAs (Decidable (∀ number ∈ value.numbers, _))

/-! ### Unsigned zeros in order -/

mutual

/-- The value with every zero in it unsigned. -/
def plain : Value → Value
  | .number value => .number value.plain
  | .array items => .array (plainItems items)
  | .object members => .object (plainMembers members)
  | value => value

def plainItems : List Value → List Value
  | [] => []
  | item :: rest => item.plain :: plainItems rest

def plainMembers : List (String × Value) → List (String × Value)
  | [] => []
  | (name, value) :: rest => (name, value.plain) :: plainMembers rest

end

/-- The value with unsigned zeros and with the members of every object in the order of their
names. -/
def canonical (value : Value) : Value := value.plain.sorted

def canonicalItems (items : List Value) : List Value := sortedItems (plainItems items)

def canonicalMembers (members : List (String × Value)) : List (String × Value) :=
  sortedMembers (plainMembers members)

theorem sortedMembers_eq_map (members : List (String × Value)) :
    sortedMembers members = members.map fun (name, value) => (name, value.sorted) := by
  induction members with
  | nil => rfl
  | cons head tail ih => rw [sortedMembers, ih, List.map_cons]

theorem plainMembers_eq_map (members : List (String × Value)) :
    plainMembers members = members.map fun (name, value) => (name, value.plain) := by
  induction members with
  | nil => rfl
  | cons head tail ih => rw [plainMembers, ih, List.map_cons]

theorem canonicalMembers_eq_map (members : List (String × Value)) :
    canonicalMembers members = members.map fun (name, value) => (name, value.canonical) := by
  rw [canonicalMembers, sortedMembers_eq_map, plainMembers_eq_map, List.map_map]
  rfl

theorem plainMembers_sortMembers (members : List (String × Value)) :
    plainMembers (sortMembers members) = sortMembers (plainMembers members) := by
  rw [plainMembers_eq_map, plainMembers_eq_map, sortMembers_map]

mutual

/-- It does not matter which of the two is done first. -/
theorem plain_sorted : (value : Value) → value.sorted.plain = value.canonical
  | .null => rfl
  | .bool _ => rfl
  | .number _ => rfl
  | .string _ => rfl
  | .array items => congrArg array (plainItems_sortedItems items)
  | .object members => by
      rw [sorted, plain, plainMembers_sortMembers, plainMembers_sortedMembers members]
      rfl

theorem plainItems_sortedItems :
    (items : List Value) → plainItems (sortedItems items) = canonicalItems items
  | [] => rfl
  | item :: rest => congrArg₂ List.cons (plain_sorted item) (plainItems_sortedItems rest)

theorem plainMembers_sortedMembers :
    (members : List (String × Value)) →
      plainMembers (sortedMembers members) = canonicalMembers members
  | [] => rfl
  | (name, value) :: rest =>
      congrArg₂ List.cons (congrArg (name, ·) (plain_sorted value))
        (plainMembers_sortedMembers rest)

end

/-! ### One form of equal values -/

theorem canonical_object (members : List (String × Value)) :
    (object members).canonical = .object (sortMembers (canonicalMembers members)) := rfl

theorem canonical_object_of_ordered {members : List (String × Value)}
    (ordered : OrderedNames members) (same : canonicalMembers members = members) :
    (object members).canonical = .object members := by
  rw [canonical_object, same, sortMembers_of_ordered ordered]

theorem canonicalMembers_distinct {members : List (String × Value)}
    (distinct : DistinctNames members) : DistinctNames (canonicalMembers members) := by
  rw [canonicalMembers_eq_map]
  exact distinct.map_items _

theorem sortMembers_canonicalMembers_perm {members others : List (String × Value)}
    (distinct : DistinctNames members) (reordered : members.Perm others) :
    sortMembers (canonicalMembers members) = sortMembers (canonicalMembers others) := by
  rw [canonicalMembers_eq_map, canonicalMembers_eq_map]
  exact sortMembers_eq_of_perm (distinct.map_items _) (reordered.map _)

mutual

theorem canonical_eq_of_matches :
    (value other : Value) → value.Matches other → value.canonical = other.canonical
  | .null, _, matched => by
      cases matched.shape
      rfl
  | .bool _, _, matched => by
      cases matched.shape
      rfl
  | .number _, _, matched => by
      cases matched.shape with
      | number same => exact congrArg number (Number.plain_eq_of_equals same)
  | .string _, _, matched => by
      cases matched.shape
      rfl
  | .array items, _, matched => by
      cases matched.shape with
      | array each => exact congrArg array (canonicalItems_eq_of_matches items _ each)
  | .object members, _, matched => by
      cases matched.shape with
      | object distinct same =>
          have othersDistinct := same.distinct_right distinct
          obtain ⟨arranged, reordered, each⟩ := same
          rw [canonical_object, canonical_object,
            sortMembers_canonicalMembers_perm othersDistinct reordered,
            canonicalMembers_eq_of_matches members arranged each]

theorem canonicalItems_eq_of_matches :
    (items others : List Value) → List.Forall₂ Matches items others →
      canonicalItems items = canonicalItems others
  | [], _, .nil => rfl
  | item :: rest, _, .cons first later =>
      congrArg₂ List.cons (canonical_eq_of_matches item _ first)
        (canonicalItems_eq_of_matches rest _ later)

theorem canonicalMembers_eq_of_matches :
    (members others : List (String × Value)) → List.Forall₂ (SameNamed Matches) members others →
      canonicalMembers members = canonicalMembers others
  | [], _, .nil => rfl
  | (_, value) :: rest, _, .cons first later =>
      congrArg₂ List.cons (congrArg₂ Prod.mk first.1 (canonical_eq_of_matches value _ first.2))
        (canonicalMembers_eq_of_matches rest _ later)

end

mutual

theorem matches_canonical :
    (value : Value) → value.WellFormed → value.Finite → value.Matches value.canonical
  | .null, _, _ => matches_iff_sameShape.mpr .null
  | .bool flag, _, _ => matches_iff_sameShape.mpr (.bool flag)
  | .string text, _, _ => matches_iff_sameShape.mpr (.string text)
  | .number value, _, finite =>
      matches_iff_sameShape.mpr (.number (Number.equals_plain (finite value (.head _))))
  | .array items, wellFormed, finite =>
      matches_iff_sameShape.mpr (.array (matches_canonicalItems items wellFormed finite))
  | .object members, wellFormed, finite => by
      rw [WellFormed] at wellFormed
      have sorted := sortMembers_perm (canonicalMembers_distinct wellFormed.1)
      exact matches_iff_sameShape.mpr (.object wellFormed.1
        ⟨canonicalMembers members, sorted, matches_canonicalMembers members wellFormed.2 finite⟩)

theorem matches_canonicalItems :
    (items : List Value) → ItemsWellFormed items →
      (∀ number ∈ itemNumbers items, number.isFinite = true) →
      List.Forall₂ Matches items (canonicalItems items)
  | [], _, _ => .nil
  | item :: rest, wellFormed, finite => by
      rw [ItemsWellFormed] at wellFormed
      rw [itemNumbers, List.forall_mem_append] at finite
      exact .cons (matches_canonical item wellFormed.1 finite.1)
        (matches_canonicalItems rest wellFormed.2 finite.2)

theorem matches_canonicalMembers :
    (members : List (String × Value)) → MembersWellFormed members →
      (∀ number ∈ memberNumbers members, number.isFinite = true) →
      List.Forall₂ (SameNamed Matches) members (canonicalMembers members)
  | [], _, _ => .nil
  | (_, value) :: rest, wellFormed, finite => by
      rw [MembersWellFormed] at wellFormed
      rw [memberNumbers, List.forall_mem_append] at finite
      exact .cons ⟨rfl, matches_canonical value wellFormed.1 finite.1⟩
        (matches_canonicalMembers rest wellFormed.2 finite.2)

end

end Value

end DesignTokens
