/-
Matching registries.

Two registries match when they have the same source names in order, and matching
trees under them: the children and members in any order, and any metadata. A walk
in one visits the paths that it visits in the other, and normal forms match. Only
the order of the warnings follows the order of the members.
-/
import DesignTokens.Proofs.Resolution.Group
import DesignTokens.Proofs.Resolution.Invariant
import DesignTokens.Proofs.Tree.Equality
import DesignTokens.Proofs.Value.Collapse

namespace DesignTokens

/-! ### Searching -/

/-- The sources have one name and matching trees. -/
def Source.Matches (source other : Source) : Prop :=
  source.name = other.name ∧ source.tree.Matches other.tree

namespace SourceRegistry

def Matches (left right : SourceRegistry) : Prop :=
  List.Forall₂ Source.Matches left.sources right.sources

namespace Matches

variable {left right : SourceRegistry}

theorem valueAt?_rel (matched : left.Matches right) (path : String) :
    Option.Rel Value.Matches (left.valueAt? path) (right.valueAt? path) := by
  unfold SourceRegistry.Matches at matched
  rw [valueAt?, valueAt?, find?_eq_firstFound?, find?_eq_firstFound?]
  generalize left.sources = sources, right.sources = others at matched ⊢
  induction matched with
  | nil => exact .none
  | @cons source other rest remaining pair _ ih =>
      have there := pair.2.lookup?_rel path
      cases looked : source.tree.lookup? path with
      | none =>
          rw [firstFound?_of_none looked, firstFound?_of_none (eq_none_of_rel there looked)]
          exact ih
      | some node =>
          obtain ⟨another, alsoLooked, same⟩ := exists_of_rel there looked
          rw [firstFound?_of_some looked, firstFound?_of_some alsoLooked]
          exact .some same.toValue

theorem tree?_rel (matched : left.Matches right) (name : String) :
    Option.Rel TokenTree.Matches (left.tree? name) (right.tree? name) := by
  unfold SourceRegistry.Matches at matched
  unfold tree?
  generalize left.sources = sources, right.sources = others at matched ⊢
  induction matched with
  | nil => exact .none
  | @cons source other _ _ pair _ ih =>
      rw [List.find?_cons, List.find?_cons, ← pair.1]
      cases source.name == name with
      | true => exact .some pair.2
      | false => exact ih

end Matches

end SourceRegistry

/-! ### Walks -/

/-- The endings are the same, or literals that match. -/
inductive Ending.Matches : Ending → Ending → Prop
  | literal {value other : Value} (same : value.Matches other) :
      Matches (.literal value) (.literal other)
  | undefined : Matches .undefined .undefined
  | circular (path : String) : Matches (.circular path) (.circular path)

/-- The walks visit the same paths and their endings match. -/
structure Walk.Matches (left right : Walk) : Prop where
  steps : left.steps = right.steps
  ending : left.ending.Matches right.ending

namespace Walk.Matches

variable {left right : Walk}

theorem after (matched : left.Matches right) (path : String) :
    (left.after path).Matches (right.after path) :=
  ⟨congrArg (path :: ·) matched.steps, matched.ending⟩

theorem value?_rel (matched : left.Matches right) :
    Option.Rel Value.Matches left.value? right.value? := by
  obtain ⟨_, leftEnding⟩ := left
  obtain ⟨_, rightEnding⟩ := right
  cases matched.ending with
  | literal same => exact .some same
  | undefined => exact .none
  | circular => exact .none

theorem warnings_eq (matched : left.Matches right) : left.warnings = right.warnings := by
  obtain ⟨_, leftEnding⟩ := left
  obtain ⟨_, rightEnding⟩ := right
  cases matched.ending <;> rfl

end Walk.Matches

theorem SourceRegistry.Matches.walk_matches {left right : SourceRegistry}
    (matched : left.Matches right) (trail : Trail) (path : String) :
    (left.walk trail path).Matches (right.walk trail path) := by
  induction trail, path using SourceRegistry.walk.induct left with
  | case1 trail path onTrail =>
      rw [walk_onTrail onTrail, walk_onTrail onTrail]
      exact ⟨rfl, .circular path⟩
  | case2 trail path fresh missing =>
      have alsoMissing := eq_none_of_rel (matched.valueAt?_rel path) missing
      rw [walk_undefined fresh missing, walk_undefined fresh alsoMissing]
      exact ⟨rfl, .undefined⟩
  | case3 trail path fresh value found plain =>
      obtain ⟨other, alsoFound, same⟩ := exists_of_rel (matched.valueAt?_rel path) found
      have alsoPlain : other.reference? = none := same.reference?_eq.symm.trans plain
      rw [walk_plain fresh found plain, walk_plain fresh alsoFound alsoPlain]
      exact ⟨rfl, .literal same⟩
  | case4 trail path fresh value found target refers ih =>
      obtain ⟨other, alsoFound, same⟩ := exists_of_rel (matched.valueAt?_rel path) found
      have alsoRefers : other.reference? = some target := same.reference?_eq.symm.trans refers
      rw [walk_reference fresh found refers, walk_reference fresh alsoFound alsoRefers]
      exact ih.after path

/-! ### Results with warnings in any order -/

/-- The results are related, and the warnings are the same up to their order. -/
structure Traced.Reordered {α β : Type} (related : α → β → Prop) (left : Traced α)
    (right : Traced β) : Prop where
  result : related left.result right.result
  warnings : left.warnings.Perm right.warnings

namespace Traced.Reordered

variable {α β γ δ : Type} {related : α → β → Prop} {further : γ → δ → Prop}

theorem pure {left : α} {right : β} (same : related left right) :
    Traced.Reordered related (Pure.pure left) (Pure.pure right) :=
  ⟨same, .refl _⟩

theorem bind {left : Traced α} {right : Traced β} {next : α → Traced γ}
    {otherNext : β → Traced δ} (first : left.Reordered related right)
    (later : ∀ one other, related one other →
      (next one).Reordered further (otherNext other)) :
    (left >>= next).Reordered further (right >>= otherNext) := by
  have second := later left.result right.result first.result
  exact ⟨second.result, first.warnings.append second.warnings⟩

end Traced.Reordered

/-! ### Members in another order -/

namespace Value

variable (follow : String → Traced (Option Value))

theorem result_normalMembers (members : List (String × Value)) :
    (normalMembers follow members).result =
      members.filterMap fun (name, value) =>
        (value.normalWith follow).result.map fun normal => (name, normal) := by
  induction members with
  | nil => rfl
  | cons head tail ih =>
      obtain ⟨name, value⟩ := head
      rw [normalMembers, Traced.result_bind, Traced.result_bind, Traced.result_pure, ih,
        List.filterMap_cons]
      dsimp only
      cases (value.normalWith follow).result <;> rfl

theorem warnings_normalMembers (members : List (String × Value)) :
    (normalMembers follow members).warnings =
      members.flatMap fun (_, value) => (value.normalWith follow).warnings := by
  induction members with
  | nil => rfl
  | cons head tail ih =>
      obtain ⟨name, value⟩ := head
      rw [normalMembers, Traced.warnings_bind, Traced.warnings_bind, Traced.warnings_pure, ih,
        List.append_nil, List.flatMap_cons]

theorem normalMembers_perm {members others : List (String × Value)}
    (reordered : members.Perm others) :
    (normalMembers follow members).Reordered List.Perm (normalMembers follow others) where
  result := by
    rw [result_normalMembers, result_normalMembers]
    exact reordered.filterMap _
  warnings := by
    rw [warnings_normalMembers, warnings_normalMembers]
    exact reordered.flatMap_right _

end Value

/-! ### Normal forms -/

section Normal

variable {left right : String → Traced (Option Value)}

mutual

theorem Value.Matches.normalWith_reordered
    (each : ∀ path, (left path).Reordered (Option.Rel Value.Matches) (right path)) :
    (value other : Value) → value.Matches other →
      (value.normalWith left).Reordered (Option.Rel Value.Matches) (other.normalWith right)
  | .string text, other, matched => by
      cases matched.shape with
      | string =>
          rw [Value.normalWith, Value.normalWith]
          cases referencePath? text with
          | some path => exact each path
          | none => exact .pure (.some matched)
  | .array items, other, matched => by
      cases matched.shape with
      | @array _ others same =>
          rw [Value.normalWith, Value.normalWith]
          exact (normalItems_reordered each items others same).bind
            fun _ _ normal => .pure (.some (collapse_matches normal))
  | .object members, other, matched => by
      cases matched.shape with
      | @object _ others distinct same =>
          -- First the members of one name each, then the order in which they stand.
          obtain ⟨arranged, reordered, same⟩ := same
          have paired := normalMembers_reordered each members arranged same
          have moved := Value.normalMembers_perm right reordered
          rw [Value.normalWith, Value.normalWith]
          refine ⟨.some (Value.matches_object_iff.mpr ⟨?_, ?_⟩), ?_⟩
          · exact distinct.sublist (Value.memberNames_normalMembers left members)
          · exact ⟨_, moved.result, paired.result⟩
          · simp only [Traced.warnings_bind, Traced.warnings_pure, List.append_nil]
            exact paired.warnings.trans moved.warnings.symm
  | .null, other, matched => by
      cases matched.shape with
      | null => exact .pure (.some matched)
  | .bool flag, other, matched => by
      cases matched.shape with
      | bool => exact .pure (.some matched)
  | .number number, other, matched => by
      cases matched.shape with
      | number => exact .pure (.some matched)

theorem normalItems_reordered
    (each : ∀ path, (left path).Reordered (Option.Rel Value.Matches) (right path)) :
    (items others : List Value) → List.Forall₂ Value.Matches items others →
      (Value.normalItems left items).Reordered (List.Forall₂ Value.Matches)
        (Value.normalItems right others)
  | [], _, .nil => .pure .nil
  | item :: rest, other :: others, .cons first later => by
      rw [Value.normalItems, Value.normalItems]
      refine (first.normalWith_reordered each item other).bind fun _ _ normal => ?_
      refine (normalItems_reordered each rest others later).bind fun _ _ remaining => ?_
      refine .pure (.cons ?_ remaining)
      cases normal with
      | some same => exact same
      | none => exact Value.matches_iff_sameShape.mpr .null

theorem normalMembers_reordered
    (each : ∀ path, (left path).Reordered (Option.Rel Value.Matches) (right path)) :
    (members others : List (String × Value)) →
      List.Forall₂ (SameNamed Value.Matches) members others →
      (Value.normalMembers left members).Reordered (List.Forall₂ (SameNamed Value.Matches))
        (Value.normalMembers right others)
  | [], _, .nil => .pure .nil
  | (_, value) :: rest, (_, other) :: others, .cons first later => by
      rw [Value.normalMembers, Value.normalMembers]
      refine (first.2.normalWith_reordered each value other).bind fun _ _ normal => ?_
      refine (normalMembers_reordered each rest others later).bind fun _ _ remaining => .pure ?_
      cases normal with
      | some same => exact .cons ⟨first.1, same⟩ remaining
      | none => exact remaining

end

end Normal

namespace SourceRegistry.Matches

variable {left right : SourceRegistry}

theorem follow_reordered (matched : left.Matches right) (trail : Trail) (path : String) :
    (left.follow trail path).Reordered (Option.Rel Value.Matches) (right.follow trail path) := by
  induction trail, path using SourceRegistry.follow.induct left with
  | case1 trail path walk ended =>
      have endings := (matched.walk_matches trail path).ending
      rw [follow_eq, follow_eq, ended]
      rw [ended] at endings
      generalize (right.walk trail path).ending = other at endings ⊢
      cases endings with
      | undefined => exact ⟨.none, .refl _⟩
  | case2 trail path walk again ended =>
      have endings := (matched.walk_matches trail path).ending
      rw [follow_eq, follow_eq, ended]
      rw [ended] at endings
      generalize (right.walk trail path).ending = other at endings ⊢
      cases endings with
      | circular => exact ⟨.none, .refl _⟩
  | case3 trail path walk value ended ih =>
      obtain ⟨steps, endings⟩ := matched.walk_matches trail path
      rw [follow_eq, follow_eq, ended, ← steps]
      rw [ended] at endings
      generalize (right.walk trail path).ending = other at endings ⊢
      cases endings with
      | literal same => exact same.normalWith_reordered ih value _

theorem normalizeIn_reordered (matched : left.Matches right) (trail : Trail) {value other : Value}
    (same : value.Matches other) :
    (left.normalizeIn trail value).Reordered (Option.Rel Value.Matches)
      (right.normalizeIn trail other) :=
  same.normalWith_reordered (matched.follow_reordered trail) value other

end SourceRegistry.Matches

/-- Computations of two resolvers whose plain ones are related are related as well. -/
theorem Resolving.Simulates.reordered {α β : Type} {related : α → β → Prop}
    {left right : SourceRegistry} {first : Resolving left α} {second : Resolving right β}
    {plain : Traced α} {otherPlain : Traced β} (simulates : Simulates first plain)
    (otherSimulates : Simulates second otherPlain) (same : plain.Reordered related otherPlain)
    {resolver : Resolver left} (faithful : resolver.Faithful)
    {other : Resolver right} (otherFaithful : other.Faithful) :
    related (first resolver).result.1 (second other).result.1 ∧
      (first resolver).warnings.Perm (second other).warnings := by
  obtain ⟨result, warnings, -⟩ := simulates resolver faithful
  obtain ⟨otherResult, otherWarnings, -⟩ := otherSimulates other otherFaithful
  rw [result, warnings, otherResult, otherWarnings]
  exact ⟨same.result, same.warnings⟩

end DesignTokens
