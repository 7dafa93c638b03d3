/-
The lines of a style-sheet block.

Names and texts are compared together, in a linear order. So a block does not
depend on the order in which its variables are given, and since each name occurs
once, the names of its lines are strictly in order. The line of a name shows the
last leaf of that name.
-/
import Mathlib.Data.Prod.Lex
import Mathlib.Data.String.Basic
import DesignTokens.Proofs.MemberOrder
import DesignTokens.Proofs.Output.Variables

namespace DesignTokens

/-! ### The order of variables -/

theorem variableBefore_iff (left right : String × String) :
    variableBefore left right = true ↔ toLex left ≤ toLex right := by
  rw [Prod.Lex.toLex_le_toLex, variableBefore, Bool.or_eq_true, Bool.and_eq_true, beq_iff_eq,
    decide_eq_true_iff, decide_eq_true_iff]

/-- The variables of a block in the order of its lines. -/
def orderedVariables (entries : List (String × String)) : List (String × String) :=
  entries.mergeSort variableBefore

section Order

variable {entries others : List (String × String)}

theorem orderedVariables_perm : (orderedVariables entries).Perm entries :=
  List.mergeSort_perm entries variableBefore

theorem pairwise_orderedVariables :
    (orderedVariables entries).Pairwise fun left right => toLex left ≤ toLex right := by
  have transitive (one two three : String × String) (first : variableBefore one two = true)
      (second : variableBefore two three = true) : variableBefore one three = true := by
    rw [variableBefore_iff] at first second ⊢
    exact first.trans second
  have total (one two : String × String) :
      (variableBefore one two || variableBefore two one) = true := by
    rw [Bool.or_eq_true, variableBefore_iff, variableBefore_iff]
    exact le_total _ _
  exact (List.pairwise_mergeSort transitive total entries).imp (variableBefore_iff _ _).mp

theorem orderedVariables_eq_of_perm (reordered : entries.Perm others) :
    orderedVariables entries = orderedVariables others := by
  have same : (orderedVariables entries).Perm (orderedVariables others) := by
    calc
      (orderedVariables entries).Perm entries := orderedVariables_perm
      _ |>.Perm others := reordered
      _ |>.Perm (orderedVariables others) := orderedVariables_perm.symm
  refine same.eq_of_pairwise ?_ pairwise_orderedVariables pairwise_orderedVariables
  intro one other _ _ before behind
  exact toLex.injective (le_antisymm before behind)

/-- Variables of different names stand in the order of their names alone. -/
theorem orderedNames_orderedVariables (distinct : DistinctNames entries) :
    OrderedNames (orderedVariables entries) := by
  have apart : (orderedVariables entries).Pairwise fun left right => left.1 ≠ right.1 :=
    List.pairwise_map.mp (distinct.perm orderedVariables_perm.symm)
  refine List.pairwise_map.mpr (pairwise_orderedVariables.imp₂ ?_ apart)
  intro left right before differ
  rcases Prod.Lex.toLex_le_toLex.mp before with less | ⟨same, -⟩
  · exact less
  · exact absurd same differ

theorem styleBlock_eq (selector : String) (entries : List (String × String)) :
    styleBlock selector entries = selector ++ " \x7b\n" ++
      String.join ((orderedVariables entries).map variableLine) ++ "\x7d\n" := rfl

theorem styleBlock_eq_of_perm (selector : String) (reordered : entries.Perm others) :
    styleBlock selector entries = styleBlock selector others := by
  rw [styleBlock_eq, styleBlock_eq, orderedVariables_eq_of_perm reordered]

end Order

/-! ### The lines of a map -/

namespace TokenMap

variable {map : TokenMap}

/-- The leaf is the last one of its name. -/
def IsLast (map : TokenMap) (leaf : Leaf) : Prop :=
  ∃ before after, map.leaves = before ++ leaf :: after ∧ ∀ later ∈ after, later.name ≠ leaf.name

theorem lookup_styleVariables_eq_some_iff {name text : String} :
    map.styleVariables.lookup name = some text ↔
      ∃ leaf, map.IsLast leaf ∧ leaf.name = name ∧ leaf.text = text := by
  rw [lookup_styleVariables, Option.map_eq_some_iff]
  constructor
  · rintro ⟨leaf, found, shown⟩
    obtain ⟨named, after, before, split, others⟩ := List.find?_eq_some_iff_append.mp found
    have name := of_decide_eq_true named
    refine ⟨leaf, ⟨before.reverse, after.reverse, ?_, ?_⟩, name, shown⟩
    · rw [← List.reverse_reverse map.leaves, split]
      simp
    · intro later present same
      have other := others later (List.mem_reverse.mp present)
      rw [decide_eq_true (same.trans name)] at other
      cases other
  · rintro ⟨leaf, ⟨before, after, split, others⟩, rfl, shown⟩
    refine ⟨leaf, List.find?_eq_some_iff_append.mpr ?_, shown⟩
    refine ⟨decide_eq_true rfl, after.reverse, before.reverse, by simp [split], ?_⟩
    intro later present
    rw [decide_eq_false (others later (List.mem_reverse.mp present))]
    rfl

theorem mem_memberNames_styleVariables {name : String} :
    name ∈ memberNames map.styleVariables ↔ ∃ leaf ∈ map.leaves, leaf.name = name := by
  rw [memberNames_styleVariables, List.mem_eraseDups, List.mem_map]

/-- The style sheet of a map is a block of lines with one variable each, in the strict order of
their names. A name occurs when it is the name of a scalar that is reached from a slot through
members of objects, and its text is that of the last such scalar. However the variables are listed
before they are ordered, the text is the same. -/
theorem styleText_lines (wellFormed : map.WellFormed) (selector : String) :
    ∃ lines : List (String × String),
      map.styleText selector =
        selector ++ " \x7b\n" ++ String.join (lines.map variableLine) ++ "\x7d\n" ∧
      OrderedNames lines ∧
      (∀ name, name ∈ memberNames lines ↔ ∃ leaf, map.HasLeaf leaf ∧ leaf.name = name) ∧
      (∀ name text, (name, text) ∈ lines ↔
        ∃ leaf, map.IsLast leaf ∧ leaf.name = name ∧ leaf.text = text) ∧
      ((∀ leaf, leaf ∈ map.leaves ↔ map.HasLeaf leaf) ∧ map.leaves.Nodup) ∧
      ∀ entries : List (String × String), entries.Perm map.styleVariables →
        styleBlock selector entries = map.styleText selector := by
  have distinct : DistinctNames map.styleVariables := distinctNames_foldl_putMember _
  have isLeaf (leaf : Leaf) : leaf ∈ map.leaves ↔ map.HasLeaf leaf := mem_leaves_iff wellFormed
  refine ⟨orderedVariables map.styleVariables, styleBlock_eq _ _,
    orderedNames_orderedVariables distinct, ?_, ?_, ⟨isLeaf, nodup_leaves wellFormed⟩, ?_⟩
  · intro name
    rw [memberNames, (orderedVariables_perm.map _).mem_iff]
    refine mem_memberNames_styleVariables.trans (exists_congr fun leaf => ?_)
    rw [isLeaf]
  · intro name text
    rw [orderedVariables_perm.mem_iff, ← lookup_styleVariables_eq_some_iff]
    exact ⟨lookup_of_mem distinct, mem_of_lookup⟩
  · intro entries reordered
    exact styleBlock_eq_of_perm selector reordered

/-- A leaf that a later one hides, an undefined slot, and a null and an array inside an object. -/
def hiddenLeafMap : TokenMap :=
  (((TokenMap.empty.insert "ink" "soft-blue" (some (.string "#88f"))).insert
    "ink" "none" none).insert
    "ink" "soft.blue" (some (.string "#99f"))).insert
    "bg" "x" (some (.object
      [("y", .bool true), ("n", .null), ("a", .array [.string "text"]),
        ("z", .object [("b", .string "5")])]))

theorem styleText_lines_of_hiddenLeafMap :
    hiddenLeafMap.WellFormed ∧ ∃ lines : List (String × String),
      hiddenLeafMap.styleText ":root" =
        ":root" ++ " \x7b\n" ++ String.join (lines.map variableLine) ++ "\x7d\n" ∧
      OrderedNames lines ∧ ("ink-soft-blue", "#99f") ∈ lines ∧
      "ink-none" ∉ memberNames lines := by
  have wellFormed : hiddenLeafMap.WellFormed := by decide
  obtain ⟨lines, text, ordered, occurs, shown, ⟨isLeaf, -⟩, -⟩ :=
    styleText_lines wellFormed ":root"
  refine ⟨wellFormed, lines, text, ordered, (shown _ _).mpr ?_, fun among => ?_⟩
  · refine ⟨⟨"ink", "soft.blue", [], "#99f"⟩, ⟨hiddenLeafMap.leaves.take 1,
      hiddenLeafMap.leaves.drop 2, ?_, ?_⟩, ?_, rfl⟩ <;> decide
  · obtain ⟨leaf, isThere, named⟩ := (occurs _).mp among
    have unnamed : ∀ leaf ∈ hiddenLeafMap.leaves, leaf.name ≠ "ink-none" := by decide
    exact unnamed leaf ((isLeaf leaf).mpr isThere) named

end TokenMap

end DesignTokens
