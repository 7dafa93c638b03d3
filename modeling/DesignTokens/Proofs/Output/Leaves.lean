/-
The scalar leaves of a map.

A leaf is a text, a number or a truth value that a slot holds or that is reached
from a slot through members of objects. It is given by its place (the category,
the key and the names of the members on the way) and by its text. Every place of
a map has at most one leaf, and the list of leaves has each of them once.
-/
import Mathlib.Data.List.Nodup
import DesignTokens.Proofs.Theme.WellFormed

namespace DesignTokens

/-- A scalar of a map: its slot, the names of the members on the way to it, and its text. -/
structure Leaf where
  category : String
  key : String
  members : List String
  text : String
deriving DecidableEq

/-! ### Scalars below a value -/

namespace Value

def isScalar : Value → Bool
  | .bool _ | .number _ | .string _ => true
  | _ => false

/-- What is reached from a value through members of objects. -/
def within? : Value → List String → Option Value
  | value, [] => some value
  | value, name :: rest =>
    (value.members?.bind fun members => members.lookup name).bind fun inner => inner.within? rest

mutual

/-- The scalars reached from a value through members of objects, each as the names on the way and
its text. -/
def scalarsBelow : Value → List (List String × String)
  | .null => []
  | .array _ => []
  | .object members => memberScalarsBelow members
  | scalar => [([], scalar.displayText)]

def memberScalarsBelow : List (String × Value) → List (List String × String)
  | [] => []
  | (name, value) :: rest =>
    (value.scalarsBelow.map fun (names, text) => (name :: names, text)) ++ memberScalarsBelow rest

end

def scalarsUnder (member : String × Value) : List (List String × String) :=
  member.2.scalarsBelow.map fun (names, text) => (member.1 :: names, text)

theorem memberScalarsBelow_eq (members : List (String × Value)) :
    memberScalarsBelow members = members.flatMap scalarsUnder := by
  induction members with
  | nil => rfl
  | cons head tail ih =>
      obtain ⟨name, value⟩ := head
      rw [memberScalarsBelow, ih, List.flatMap_cons, scalarsUnder]

theorem mem_memberScalarsBelow_iff {members : List (String × Value)} {names : List String}
    {text : String} :
    (names, text) ∈ memberScalarsBelow members ↔ ∃ name value, (name, value) ∈ members ∧
      ∃ rest, names = name :: rest ∧ (rest, text) ∈ value.scalarsBelow := by
  rw [memberScalarsBelow_eq, List.mem_flatMap]
  constructor
  · rintro ⟨⟨name, value⟩, present, among⟩
    obtain ⟨⟨rest, _⟩, below, same⟩ := List.mem_map.mp among
    cases same
    exact ⟨name, value, present, rest, rfl, below⟩
  · rintro ⟨name, value, present, rest, rfl, below⟩
    exact ⟨(name, value), present, List.mem_map.mpr ⟨(rest, text), below, rfl⟩⟩

theorem mem_scalarsBelow_iff {value : Value} (wellFormed : value.WellFormed)
    {names : List String} {text : String} :
    (names, text) ∈ value.scalarsBelow ↔ ∃ scalar, value.within? names = some scalar ∧
      scalar.isScalar = true ∧ scalar.displayText = text := by
  induction names generalizing value with
  | nil =>
      have here : (∃ scalar, value.within? [] = some scalar ∧
          scalar.isScalar = true ∧ scalar.displayText = text) ↔
            value.isScalar = true ∧ value.displayText = text := by
        simp [within?]
      rw [here]
      cases value with
      | null => simp [scalarsBelow, isScalar]
      | array items => simp [scalarsBelow, isScalar]
      | object members => simp [scalarsBelow, isScalar, mem_memberScalarsBelow_iff]
      | _ => simp [scalarsBelow, isScalar, eq_comm]
  | cons name rest ih =>
      cases value with
      | object members =>
          rw [WellFormed, membersWellFormed_iff] at wellFormed
          obtain ⟨distinct, each⟩ := wellFormed
          rw [scalarsBelow, mem_memberScalarsBelow_iff]
          constructor
          · rintro ⟨_, inner, present, _, same, below⟩
            cases same
            rw [within?, members?, Option.bind_some, lookup_of_mem distinct present,
              Option.bind_some]
            exact (ih (each name inner present)).mp below
          · rintro ⟨scalar, reached, isScalar, shown⟩
            rw [within?, members?, Option.bind_some] at reached
            obtain ⟨inner, found, further⟩ := Option.bind_eq_some_iff.mp reached
            have present := mem_of_lookup found
            have below := (ih (each name inner present)).mpr ⟨scalar, further, isScalar, shown⟩
            exact ⟨name, inner, present, rest, rfl, below⟩
      | _ => simp [scalarsBelow, within?, members?]

end Value

/-! ### Each scalar once -/

/-- Lists made from members of different names have nothing in common, when what they hold tells
the name. -/
theorem nodup_flatMap_members {α β : Type} {members : List (String × α)}
    (distinct : DistinctNames members) {found : String × α → List β} (label : β → Option String)
    (each : ∀ entry ∈ members, (found entry).Nodup)
    (labelled : ∀ entry ∈ members, ∀ item ∈ found entry, label item = some entry.1) :
    (members.flatMap found).Nodup := by
  induction members with
  | nil => exact List.nodup_nil
  | cons head tail ih =>
      obtain ⟨absent, rest⟩ := distinctNames_cons.mp distinct
      obtain ⟨eachHead, eachTail⟩ := List.forall_mem_cons.mp each
      obtain ⟨labelledHead, labelledTail⟩ := List.forall_mem_cons.mp labelled
      rw [List.flatMap_cons]
      refine List.nodup_append.mpr ⟨eachHead, ih rest eachTail labelledTail, ?_⟩
      rintro item first _ later rfl
      obtain ⟨entry, present, among⟩ := List.mem_flatMap.mp later
      have sameLabel : some head.1 = some entry.1 :=
        (labelledHead item first).symm.trans (labelledTail entry present item among)
      exact absent (Option.some.inj sameLabel ▸ mem_memberNames present)

namespace Value

theorem nodup_scalarsUnder {member : String × Value} (below : member.2.scalarsBelow.Nodup) :
    (scalarsUnder member).Nodup := by
  refine below.map fun one other same => ?_
  obtain ⟨names, text⟩ := one
  obtain ⟨others, another⟩ := other
  cases same
  rfl

theorem nodup_memberScalarsBelow {members : List (String × Value)}
    (distinct : DistinctNames members)
    (each : ∀ member ∈ members, member.2.scalarsBelow.Nodup) :
    (memberScalarsBelow members).Nodup := by
  rw [memberScalarsBelow_eq]
  refine nodup_flatMap_members distinct (fun scalar => scalar.1.head?)
    (fun member present => nodup_scalarsUnder (each member present)) ?_
  rintro ⟨name, value⟩ _ item among
  obtain ⟨⟨rest, text⟩, -, rfl⟩ := List.mem_map.mp among
  rfl

mutual

theorem nodup_scalarsBelow : (value : Value) → value.WellFormed → value.scalarsBelow.Nodup
  | .null, _ => List.nodup_nil
  | .bool _, _ => List.nodup_singleton _
  | .number _, _ => List.nodup_singleton _
  | .string _, _ => List.nodup_singleton _
  | .array _, _ => List.nodup_nil
  | .object members, wellFormed => by
      rw [WellFormed] at wellFormed
      exact nodup_memberScalarsBelow wellFormed.1 (nodup_each members wellFormed.2)

theorem nodup_each : (members : List (String × Value)) → MembersWellFormed members →
    ∀ member ∈ members, member.2.scalarsBelow.Nodup
  | [], _ => nofun
  | (_, value) :: rest, wellFormed => by
      rw [MembersWellFormed] at wellFormed
      exact List.forall_mem_cons.mpr
        ⟨nodup_scalarsBelow value wellFormed.1, nodup_each rest wellFormed.2⟩

end

end Value

/-! ### Leaves of a map -/

namespace TokenMap

def slotLeaves (category : String) (slot : String × Option Value) : List Leaf :=
  match slot.2 with
  | none => []
  | some value => value.scalarsBelow.map fun (names, text) => ⟨category, slot.1, names, text⟩

/-- The leaves of a map, in the order of its categories, keys and members. -/
def leaves (map : TokenMap) : List Leaf :=
  map.categories.flatMap fun (category, slots) => slots.flatMap (slotLeaves category)

/-- At the place of the leaf the map has a scalar with the text of the leaf. -/
def HasLeaf (map : TokenMap) (leaf : Leaf) : Prop :=
  ∃ value scalar, map.get? leaf.category leaf.key = some value ∧
    value.within? leaf.members = some scalar ∧ scalar.isScalar = true ∧
      scalar.displayText = leaf.text

variable {map : TokenMap} {leaf : Leaf}

theorem mem_slotLeaves_iff {category : String} {slot : String × Option Value} :
    leaf ∈ slotLeaves category slot ↔ leaf.category = category ∧ leaf.key = slot.1 ∧
      ∃ value, slot.2 = some value ∧ (leaf.members, leaf.text) ∈ value.scalarsBelow := by
  obtain ⟨key, content⟩ := slot
  cases content with
  | none => simp [slotLeaves]
  | some value =>
      rw [slotLeaves, List.mem_map]
      constructor
      · rintro ⟨⟨names, text⟩, below, rfl⟩
        exact ⟨rfl, rfl, value, rfl, below⟩
      · obtain ⟨_, _, names, text⟩ := leaf
        rintro ⟨rfl, rfl, _, same, below⟩
        cases same
        exact ⟨(names, text), below, rfl⟩

theorem mem_leaves_iff (wellFormed : map.WellFormed) : leaf ∈ map.leaves ↔ map.HasLeaf leaf := by
  have inner (category : String) (slots : TokenCategory) (key : String) (value : Value)
      (present : (category, slots) ∈ map.categories) (filled : (key, some value) ∈ slots) :
      value.WellFormed :=
    ((wellFormed_iff.mp wellFormed).2 category slots present).2 key value filled
  rw [leaves, List.mem_flatMap]
  constructor
  · rintro ⟨⟨category, slots⟩, present, among⟩
    obtain ⟨⟨key, content⟩, filled, inSlot⟩ := List.mem_flatMap.mp among
    obtain ⟨rfl, rfl, value, rfl, below⟩ := mem_slotLeaves_iff.mp inSlot
    obtain ⟨scalar, reached⟩ :=
      (Value.mem_scalarsBelow_iff (inner _ slots _ value present filled)).mp below
    exact ⟨value, scalar, (get?_eq_some_iff wellFormed).mpr ⟨slots, present, filled⟩, reached⟩
  · rintro ⟨value, scalar, found, reached⟩
    obtain ⟨slots, present, filled⟩ := (get?_eq_some_iff wellFormed).mp found
    have below :=
      (Value.mem_scalarsBelow_iff (inner _ slots _ value present filled)).mpr ⟨scalar, reached⟩
    refine ⟨(leaf.category, slots), present, List.mem_flatMap.mpr ?_⟩
    exact ⟨(leaf.key, some value), filled, mem_slotLeaves_iff.mpr ⟨rfl, rfl, value, rfl, below⟩⟩

theorem nodup_leaves (wellFormed : map.WellFormed) : map.leaves.Nodup := by
  obtain ⟨distinct, each⟩ := wellFormed_iff.mp wellFormed
  refine nodup_flatMap_members distinct (fun leaf => some leaf.category) ?_ ?_
  · rintro ⟨category, slots⟩ present
    obtain ⟨distinctKeys, values⟩ := each category slots present
    refine nodup_flatMap_members distinctKeys (fun leaf => some leaf.key) ?_ ?_
    · rintro ⟨key, content⟩ filled
      cases content with
      | none => exact List.nodup_nil
      | some value =>
          refine (Value.nodup_scalarsBelow value (values key value filled)).map ?_
          rintro ⟨names, text⟩ ⟨others, another⟩ same
          cases same
          rfl
    · rintro slot _ leaf inSlot
      exact congrArg some (mem_slotLeaves_iff.mp inSlot).2.1
  · rintro ⟨category, slots⟩ _ leaf among
    obtain ⟨slot, -, inSlot⟩ := List.mem_flatMap.mp among
    exact congrArg some (mem_slotLeaves_iff.mp inSlot).1

/-- What the map has at a place, read as an object of objects. -/
theorem within?_toValue (map : TokenMap) (category key : String) (names : List String) :
    map.toValue.within? (category :: key :: names) =
      (map.slot? category key).bind fun content => (content.getD .null).within? names := by
  rw [toValue, Value.within?, Value.members?, Option.bind_some,
    lookup_map_items map.categories fun slots => Value.object (slotMembers slots), slot?, category?]
  cases map.categories.lookup category with
  | none => rfl
  | some slots =>
      rw [Option.map_some, Option.bind_some, Option.bind_some, Value.within?, Value.members?,
        Option.bind_some, slotMembers, lookup_map_items slots fun content => content.getD Value.null]
      cases slots.lookup key <;> rfl

theorem hasLeaf_iff_within? :
    map.HasLeaf leaf ↔ ∃ scalar,
      map.toValue.within? (leaf.category :: leaf.key :: leaf.members) = some scalar ∧
        scalar.isScalar = true ∧ scalar.displayText = leaf.text := by
  rw [HasLeaf, within?_toValue]
  unfold get?
  cases map.slot? leaf.category leaf.key with
  | none => simp
  | some content =>
      cases content with
      | some value => simp
      | none =>
          -- An undefined slot is null in the object, and null is no scalar.
          constructor
          · rintro ⟨_, _, found, -⟩
            cases found
          · rintro ⟨scalar, reached, isScalar, -⟩
            generalize leaf.members = names at reached
            cases names with
            | nil =>
                cases reached
                cases isScalar
            | cons name rest => cases reached

/-- A place has one leaf: the text is determined by the rest. -/
theorem HasLeaf.eq_of_place {one other : Leaf} (first : map.HasLeaf one)
    (second : map.HasLeaf other) (category : one.category = other.category)
    (key : one.key = other.key) (members : one.members = other.members) : one = other := by
  obtain ⟨value, scalar, found, reached, -, shown⟩ := first
  obtain ⟨another, scalar', found', reached', -, shown'⟩ := second
  rw [category, key, found'] at found
  cases found
  rw [members, reached'] at reached
  cases reached
  obtain ⟨_, _, _, text⟩ := one
  obtain ⟨_, _, _, text'⟩ := other
  cases category
  cases key
  cases members
  cases shown
  cases shown'
  rfl

end TokenMap

end DesignTokens
