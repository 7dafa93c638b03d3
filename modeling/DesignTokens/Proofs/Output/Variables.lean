/-
Style-sheet variables and the leaves that they show.

The name of a variable joins the parts of a leaf's place by dashes, and a dash
inside a part is not told from a dash between two parts; a dot in a key counts
as a dash as well. So two leaves have one name exactly when their parts, cut at
every dash, give the same pieces. A map keeps every leaf when no two of its
leaves do that, and of leaves with one name the last is kept.
-/
import DesignTokens.Output.StyleSheet
import DesignTokens.Proofs.Output.Leaves

namespace DesignTokens

/-! ### The name of a leaf -/

def memberName (name : String) : List String → String
  | [] => name
  | member :: rest => memberName (name ++ "-" ++ member) rest

/-- The name of the variable of a leaf. -/
def Leaf.name (leaf : Leaf) : String :=
  memberName (leaf.category ++ "-" ++ dashed leaf.key) leaf.members

namespace Value

mutual

theorem namedScalars_eq : (value : Value) → (name : String) →
    value.namedScalars name =
      value.scalarsBelow.map fun (names, text) => (memberName name names, text)
  | .null, _ => rfl
  | .bool _, _ => rfl
  | .number _, _ => rfl
  | .string _, _ => rfl
  | .array _, _ => rfl
  | .object members, name => memberScalars_eq members name

theorem memberScalars_eq : (members : List (String × Value)) → (name : String) →
    memberScalars name members =
      (memberScalarsBelow members).map fun (names, text) => (memberName name names, text)
  | [], _ => rfl
  | (member, value) :: rest, name => by
      rw [memberScalars, memberScalarsBelow, List.map_append, List.map_map,
        namedScalars_eq value, memberScalars_eq rest]
      rfl

end

end Value

theorem TokenMap.scalars_eq (map : TokenMap) :
    map.scalars = map.leaves.map fun leaf => (leaf.name, leaf.text) := by
  rw [scalars, leaves, List.map_flatMap]
  refine List.flatMap_congr fun category _ => ?_
  rw [List.map_flatMap]
  refine List.flatMap_congr fun slot _ => ?_
  obtain ⟨key, content⟩ := slot
  cases content with
  | none => rfl
  | some value =>
      rw [slotScalars, slotLeaves, List.map_map]
      exact value.namedScalars_eq _

/-! ### Cutting names into pieces -/

/-- The pieces of a text between its dashes. -/
def dashPieces (text : String) : List (List Char) := text.toList.splitOn '-'

/-- The pieces of a key between its dashes and its dots. -/
def keyPieces (key : String) : List (List Char) :=
  key.toList.splitOnP fun c => c == '-' || c == '.'

/-- What the name of a leaf keeps of the leaf's place. -/
def Leaf.pieces (leaf : Leaf) : List (List Char) :=
  dashPieces leaf.category ++ keyPieces leaf.key ++ leaf.members.flatMap dashPieces

theorem dashPieces_injective {left right : String} (same : dashPieces left = dashPieces right) :
    left = right := by
  have texts : left.toList = right.toList := by
    calc
      left.toList = ['-'].intercalate (dashPieces left) := (List.intercalate_splitOn '-').symm
      _ = ['-'].intercalate (dashPieces right) := by rw [same]
      _ = right.toList := List.intercalate_splitOn '-'
  exact String.toList_injective texts

theorem dashPieces_join (left right : String) :
    dashPieces (left ++ "-" ++ right) = dashPieces left ++ dashPieces right := by
  have text : (left ++ "-" ++ right).toList = left.toList ++ '-' :: right.toList := by
    simp
  rw [dashPieces, text]
  exact List.splitOnP_append_cons _ _ rfl

theorem dashPieces_dashed (key : String) : dashPieces (dashed key) = keyPieces key := by
  rw [dashPieces, dashed, keyPieces, String.toList_ofList]
  induction key.toList with
  | nil => rfl
  | cons c rest ih =>
      rw [List.map_cons, List.splitOn, List.splitOnP_cons_eq_if_modifyHead,
        List.splitOnP_cons_eq_if_modifyHead, ← ih, List.splitOn]
      by_cases dot : c = '.'
      · simp [dot]
      · simp [dot]

theorem dashPieces_memberName (name : String) (members : List String) :
    dashPieces (memberName name members) = dashPieces name ++ members.flatMap dashPieces := by
  induction members generalizing name with
  | nil => exact (List.append_nil _).symm
  | cons member rest ih =>
      rw [memberName, ih, dashPieces_join, List.flatMap_cons, List.append_assoc]

theorem Leaf.dashPieces_name (leaf : Leaf) : dashPieces leaf.name = leaf.pieces := by
  rw [name, dashPieces_memberName, dashPieces_join, dashPieces_dashed, pieces]

theorem Leaf.name_eq_iff {one other : Leaf} :
    one.name = other.name ↔ one.pieces = other.pieces := by
  rw [← dashPieces_name, ← dashPieces_name]
  exact ⟨congrArg dashPieces, dashPieces_injective⟩

/-- No part of the leaf's place has a dash in it, and the key has no dot either. -/
def Leaf.Plain (leaf : Leaf) : Prop :=
  '-' ∉ leaf.category.toList ∧ ('-' ∉ leaf.key.toList ∧ '.' ∉ leaf.key.toList) ∧
    ∀ member ∈ leaf.members, '-' ∉ member.toList

theorem Leaf.Plain.pieces_eq {leaf : Leaf} (plain : leaf.Plain) :
    leaf.pieces =
      leaf.category.toList :: leaf.key.toList :: leaf.members.map String.toList := by
  obtain ⟨category, ⟨undashed, undotted⟩, members⟩ := plain
  have single {text : String} (absent : '-' ∉ text.toList) : dashPieces text = [text.toList] :=
    List.splitOn_eq_singleton absent
  have key : keyPieces leaf.key = [leaf.key.toList] := by
    refine List.splitOnP_eq_singleton fun c present => ?_
    have noDash : c ≠ '-' := fun same => undashed (same ▸ present)
    have noDot : c ≠ '.' := fun same => undotted (same ▸ present)
    simp [noDash, noDot]
  have others : leaf.members.flatMap dashPieces = leaf.members.map String.toList := by
    rw [List.map_eq_flatMap]
    exact List.flatMap_congr fun member present => single (members member present)
  rw [pieces, single category, key, others]
  rfl

theorem Leaf.Plain.place_eq {one other : Leaf} (plain : one.Plain) (otherPlain : other.Plain)
    (same : one.pieces = other.pieces) :
    one.category = other.category ∧ one.key = other.key ∧ one.members = other.members := by
  rw [plain.pieces_eq, otherPlain.pieces_eq, List.cons_eq_cons, List.cons_eq_cons] at same
  obtain ⟨category, key, members⟩ := same
  exact ⟨String.toList_injective category, String.toList_injective key,
    List.map_injective_iff.mpr (fun _ _ => String.toList_injective) members⟩

/-! ### The variables of a map -/

namespace TokenMap

/-- Different leaves have different variables, there is a variable for each leaf, and the text of
each leaf is the value of its own variable. -/
def KeepsEveryLeaf (map : TokenMap) : Prop :=
  (∀ one ∈ map.leaves, ∀ other ∈ map.leaves, one ≠ other → one.name ≠ other.name) ∧
    map.styleVariables.length = map.leaves.length ∧
    ∀ leaf ∈ map.leaves, map.styleVariables.lookup leaf.name = some leaf.text

instance (map : TokenMap) : Decidable map.KeepsEveryLeaf :=
  inferInstanceAs (Decidable (_ ∧ _))

variable (map : TokenMap)

theorem memberNames_styleVariables :
    memberNames map.styleVariables = (map.leaves.map Leaf.name).eraseDups := by
  rw [styleVariables, memberNames_foldl_putMember, scalars_eq, memberNames, List.map_map]
  rfl

theorem lookup_styleVariables (name : String) :
    map.styleVariables.lookup name =
      (map.leaves.reverse.find? fun leaf => leaf.name = name).map Leaf.text := by
  rw [styleVariables, lookup_foldl_putMember, scalars_eq, ← List.map_reverse]
  induction map.leaves.reverse with
  | nil => rfl
  | cons leaf rest ih =>
      rw [List.map_cons, List.lookup_cons, List.find?_cons, ih]
      by_cases same : leaf.name = name
      · simp [same]
      · rw [beq_eq_false_iff_ne.mpr (Ne.symm same), decide_eq_false same]

variable {map}

/-- No two leaves of the map have one name. -/
def NamesApart (map : TokenMap) : Prop :=
  ∀ one ∈ map.leaves, ∀ other ∈ map.leaves, one ≠ other → one.name ≠ other.name

instance (map : TokenMap) : Decidable map.NamesApart :=
  inferInstanceAs (Decidable (∀ one ∈ map.leaves, _))

theorem NamesApart.distinctNames (apart : map.NamesApart) (wellFormed : map.WellFormed) :
    DistinctNames (map.leaves.map fun leaf => (leaf.name, leaf.text)) := by
  rw [DistinctNames, memberNames, List.map_map]
  refine (nodup_leaves wellFormed).map_on ?_
  intro one present other among same
  by_contra differ
  exact apart one present other among differ same

theorem NamesApart.styleVariables_eq (apart : map.NamesApart) (wellFormed : map.WellFormed) :
    map.styleVariables = map.leaves.map fun leaf => (leaf.name, leaf.text) := by
  rw [styleVariables, scalars_eq]
  exact foldl_putMember_of_distinct (apart.distinctNames wellFormed)

theorem keepsEveryLeaf_iff (wellFormed : map.WellFormed) :
    map.KeepsEveryLeaf ↔
      ∀ one ∈ map.leaves, ∀ other ∈ map.leaves, one ≠ other → one.pieces ≠ other.pieces := by
  constructor
  · rintro ⟨apart, -, -⟩ one present other among differ same
    exact apart one present other among differ (Leaf.name_eq_iff.mpr same)
  · intro pieces
    have apart : map.NamesApart := fun one present other among differ same =>
      pieces one present other among differ (Leaf.name_eq_iff.mp same)
    have shown := apart.styleVariables_eq wellFormed
    refine ⟨apart, ?_, ?_⟩
    · rw [shown, List.length_map]
    · intro leaf present
      rw [shown]
      exact lookup_of_mem (apart.distinctNames wellFormed) (List.mem_map_of_mem present)

/-- The variables of a map show its leaves: each name once, with the text of the last leaf of that
name. No leaf is lost exactly when no two leaves have the same pieces, and leaves without dashes
and without dots in their keys never have. -/
theorem variables_of_leaves (wellFormed : map.WellFormed) :
    (map.leaves.Nodup ∧ ∀ leaf, leaf ∈ map.leaves ↔ map.HasLeaf leaf) ∧
      memberNames map.styleVariables = (map.leaves.map Leaf.name).eraseDups ∧
      (∀ name, map.styleVariables.lookup name =
        (map.leaves.reverse.find? fun leaf => leaf.name = name).map Leaf.text) ∧
      (map.KeepsEveryLeaf ↔
        ∀ one ∈ map.leaves, ∀ other ∈ map.leaves, one ≠ other → one.pieces ≠ other.pieces) ∧
      ∀ one ∈ map.leaves, ∀ other ∈ map.leaves, one ≠ other → one.Plain → other.Plain →
        one.pieces ≠ other.pieces := by
  have isLeaf (leaf : Leaf) : leaf ∈ map.leaves ↔ map.HasLeaf leaf := mem_leaves_iff wellFormed
  refine ⟨⟨nodup_leaves wellFormed, isLeaf⟩, memberNames_styleVariables map,
    lookup_styleVariables map, keepsEveryLeaf_iff wellFormed, ?_⟩
  intro one present other among differ plain otherPlain same
  obtain ⟨category, key, members⟩ := plain.place_eq otherPlain same
  have first : map.HasLeaf one := (isLeaf one).mp present
  have second : map.HasLeaf other := (isLeaf other).mp among
  exact differ (first.eq_of_place second category key members)

/-- Two keys that differ in a dash and a dot. -/
def dashAndDot : TokenMap :=
  (TokenMap.empty.insert "ink" "soft-blue" (some (.string "#88f"))).insert
    "ink" "soft.blue" (some (.string "#99f"))

theorem dashAndDot_loses_leaf :
    dashAndDot.WellFormed ∧
      dashAndDot.leaves =
        [⟨"ink", "soft-blue", [], "#88f"⟩, ⟨"ink", "soft.blue", [], "#99f"⟩] ∧
      dashAndDot.styleVariables = [("ink-soft-blue", "#99f")] ∧ ¬ dashAndDot.KeepsEveryLeaf := by
  refine ⟨by decide, by decide, by decide, by decide⟩

/-- Members of objects beside dotted keys, with an undefined slot, a null and an array. -/
def borderMap : TokenMap :=
  ((TokenMap.empty.insert
    "border" "input.error" (some (.object [("color", .string "#d92"), ("width", .null)]))).insert
    "border" "input" (some (.object [("color", .string "#222"), ("sides", .array [.null])]))).insert
    "border" "none" none

theorem variables_of_borderMap :
    borderMap.WellFormed ∧ borderMap.KeepsEveryLeaf := by
  have wellFormed : borderMap.WellFormed := by decide
  exact ⟨wellFormed, (variables_of_leaves wellFormed).2.2.2.1.mpr (by decide)⟩

end TokenMap

end DesignTokens
