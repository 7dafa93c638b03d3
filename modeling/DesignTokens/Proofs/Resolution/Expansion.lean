/-
Expansion of values without a trail.

An expansion replaces every reference by the expansion of the literal that its
chain comes to. It looks at no trail, so it need not be finite: `Expands` holds
of the finite ones. Normalizing is silent exactly on the values whose expansion
is finite, and then comes to it.

The paths on a trail lie above the value that is being normalized. A path of a
finite expansion never lies below itself, so none of them is met again.
-/
import Mathlib.Logic.Relation
import DesignTokens.Proofs.Resolution.Memory

namespace DesignTokens

open Relation (ReflTransGen TransGen)

namespace SourceRegistry

mutual

/-- The expansion of a value without a trail is finite, and is this. -/
inductive Expands (registry : SourceRegistry) : Value → Option Value → Prop
  | null : Expands registry .null (some .null)
  | bool (flag : Bool) : Expands registry (.bool flag) (some (.bool flag))
  | number (number : Number) : Expands registry (.number number) (some (.number number))
  | text {text : String} (plain : referencePath? text = none) :
      Expands registry (.string text) (some (.string text))
  | dangling {text path : String} {steps : List String}
      (refers : referencePath? text = some path) (chain : registry.Chain path steps none) :
      Expands registry (.string text) none
  | reference {text path : String} {steps : List String} {literal : Value}
      {expansion : Option Value} (refers : referencePath? text = some path)
      (chain : registry.Chain path steps (some literal))
      (further : Expands registry literal expansion) : Expands registry (.string text) expansion
  | array {items expansions : List Value} (each : ItemsExpand registry items expansions) :
      Expands registry (.array items) (some (collapse expansions))
  | object {members expansions : List (String × Value)}
      (each : MembersExpand registry members expansions) :
      Expands registry (.object members) (some (.object expansions))

/-- Item by item, with null for an undefined one. -/
inductive ItemsExpand (registry : SourceRegistry) : List Value → List Value → Prop
  | nil : ItemsExpand registry [] []
  | cons {item : Value} {expansion : Option Value} {rest expansions : List Value}
      (first : Expands registry item expansion) (later : ItemsExpand registry rest expansions) :
      ItemsExpand registry (item :: rest) (expansion.getD .null :: expansions)

/-- Member by member, without the undefined ones. -/
inductive MembersExpand (registry : SourceRegistry) :
    List (String × Value) → List (String × Value) → Prop
  | nil : MembersExpand registry [] []
  | kept {name : String} {value expansion : Value} {rest expansions : List (String × Value)}
      (first : Expands registry value (some expansion))
      (later : MembersExpand registry rest expansions) :
      MembersExpand registry ((name, value) :: rest) ((name, expansion) :: expansions)
  | dropped {name : String} {value : Value} {rest expansions : List (String × Value)}
      (first : Expands registry value none) (later : MembersExpand registry rest expansions) :
      MembersExpand registry ((name, value) :: rest) expansions

end

variable {registry : SourceRegistry}

/-! ### Silent normalization is expansion -/

/-- The reference to a path has a finite expansion. -/
def ReferenceExpands (registry : SourceRegistry) (path : String) (expansion : Option Value) :
    Prop :=
  ∀ text, referencePath? text = some path → registry.Expands (.string text) expansion

section Silent

variable {follow : String → Traced (Option Value)}

mutual

theorem expands_of_silent
    (each : ∀ path, (follow path).warnings = [] →
      registry.ReferenceExpands path (follow path).result) :
    (value : Value) → (value.normalWith follow).warnings = [] →
      registry.Expands value (value.normalWith follow).result
  | .string text, silent => by
      rw [Value.normalWith] at silent ⊢
      cases refers : referencePath? text with
      | some path =>
          rw [refers] at silent
          exact each path silent text refers
      | none => exact .text refers
  | .array items, silent => by
      rw [Value.normalWith] at silent ⊢
      simp only [Traced.warnings_bind, Traced.warnings_pure, List.append_nil] at silent
      exact .array (itemsExpand_of_silent each items silent)
  | .object members, silent => by
      rw [Value.normalWith] at silent ⊢
      simp only [Traced.warnings_bind, Traced.warnings_pure, List.append_nil] at silent
      exact .object (membersExpand_of_silent each members silent)
  | .null, _ => .null
  | .bool flag, _ => .bool flag
  | .number number, _ => .number number

theorem itemsExpand_of_silent
    (each : ∀ path, (follow path).warnings = [] →
      registry.ReferenceExpands path (follow path).result) :
    (items : List Value) → (Value.normalItems follow items).warnings = [] →
      registry.ItemsExpand items (Value.normalItems follow items).result
  | [], _ => .nil
  | item :: rest, silent => by
      rw [Value.normalItems] at silent ⊢
      simp only [Traced.warnings_bind, Traced.warnings_pure, List.append_nil,
        List.append_eq_nil_iff] at silent
      exact .cons (expands_of_silent each item silent.1)
        (itemsExpand_of_silent each rest silent.2)

theorem membersExpand_of_silent
    (each : ∀ path, (follow path).warnings = [] →
      registry.ReferenceExpands path (follow path).result) :
    (members : List (String × Value)) → (Value.normalMembers follow members).warnings = [] →
      registry.MembersExpand members (Value.normalMembers follow members).result
  | [], _ => .nil
  | (name, value) :: rest, silent => by
      rw [Value.normalMembers] at silent ⊢
      simp only [Traced.warnings_bind, Traced.warnings_pure, List.append_nil,
        List.append_eq_nil_iff] at silent
      have first := expands_of_silent each value silent.1
      have later := membersExpand_of_silent each rest silent.2
      simp only [Traced.result_bind, Traced.result_pure]
      cases normal : (value.normalWith follow).result with
      | some defined =>
          rw [normal] at first
          exact .kept first later
      | none =>
          rw [normal] at first
          exact .dropped first later

end

end Silent

theorem referenceExpands_of_silent (trail : Trail) (path : String)
    (silent : (registry.follow trail path).warnings = []) :
    registry.ReferenceExpands path (registry.follow trail path).result := by
  induction trail, path using follow.induct registry with
  | case1 trail path walk ended =>
      intro text refers
      rw [follow_eq, ended]
      have dangles : (registry.walk trail path).ending = .ofOutcome none := ended
      exact .dangling refers (chain_of_walk dangles).1
  | case2 trail path walk again ended =>
      rw [follow_eq, ended] at silent
      cases silent
  | case3 trail path walk value ended ih =>
      intro text refers
      rw [follow_eq, ended] at silent ⊢
      have literal : (registry.walk trail path).ending = .ofOutcome (some value) := ended
      exact .reference refers (chain_of_walk literal).1 (expands_of_silent ih value silent)

/-! ### Paths below a path -/

/-- The value at the upper path refers to the lower one, itself or somewhere inside. -/
def Below (registry : SourceRegistry) (lower upper : String) : Prop :=
  ∃ value, registry.valueAt? upper = some value ∧ lower ∈ value.references

theorem below_of_reference {path target : String} {value : Value}
    (found : registry.valueAt? path = some value) (refers : value.reference? = some target) :
    registry.Below target path :=
  ⟨value, found, by simp [Value.references_of_reference refers]⟩

theorem not_below_self {path : String} (grounded : Acc registry.Below path) :
    ¬TransGen registry.Below path path := by
  have descends := grounded.transGen
  clear grounded
  induction descends with
  | intro path _ ih => exact fun loop => ih path loop loop

theorem grounded_below {lower upper : String} (grounded : Acc registry.Below upper)
    (below : ReflTransGen registry.Below lower upper) : Acc registry.Below lower := by
  induction below using ReflTransGen.head_induction_on with
  | refl => exact grounded
  | head step _ ih => exact ih.inv step

namespace Chain

variable {path : String} {steps : List String} {outcome : Option Value}

theorem start_mem (chain : registry.Chain path steps outcome) : path ∈ steps := by
  cases chain <;> exact List.mem_cons_self

theorem step_below (chain : registry.Chain path steps outcome) {step : String}
    (visited : step ∈ steps) : ReflTransGen registry.Below step path := by
  induction chain with
  | undefined => rw [List.mem_singleton.mp visited]
  | literal => rw [List.mem_singleton.mp visited]
  | onward found refers rest ih =>
      rcases List.mem_cons.mp visited with first | later
      · rw [first]
      · exact (ih later).tail (below_of_reference found refers)

/-- What a literal refers to lies below every step of a chain to it. -/
theorem below_step {literal : Value} (chain : registry.Chain path steps (some literal))
    {step lower : String} (visited : step ∈ steps) (inside : lower ∈ literal.references) :
    TransGen registry.Below lower step := by
  generalize ends : some literal = outcome at chain
  induction chain generalizing step with
  | undefined => cases ends
  | literal found plain =>
      cases ends
      rw [List.mem_singleton.mp visited]
      exact .single ⟨literal, found, inside⟩
  | onward found refers rest ih =>
      rcases List.mem_cons.mp visited with first | later
      · rw [first]
        exact (ih rest.start_mem ends).tail (below_of_reference found refers)
      · exact ih later ends

theorem grounded (chain : registry.Chain path steps outcome)
    (inside : ∀ literal, outcome = some literal →
      ∀ lower ∈ literal.references, Acc registry.Below lower) : Acc registry.Below path := by
  induction chain with
  | undefined missing =>
      refine .intro _ ?_
      rintro lower ⟨value, found, -⟩
      rw [missing] at found
      cases found
  | literal found plain =>
      refine .intro _ ?_
      rintro lower ⟨value, again, refers⟩
      rw [found] at again
      cases again
      exact inside _ rfl lower refers
  | onward found refers rest ih =>
      refine .intro _ ?_
      rintro lower ⟨value, again, lowerRefers⟩
      rw [found] at again
      cases again
      rw [Value.references_of_reference refers, List.mem_singleton] at lowerRefers
      rw [lowerRefers]
      exact ih inside

end Chain

/-! ### Finite expansions -/

mutual

/-- No descent from a finite expansion goes on for ever. -/
theorem Expands.grounded {value : Value} {expansion : Option Value} :
    registry.Expands value expansion → ∀ path ∈ value.references, Acc registry.Below path
  | .null => by simp [Value.references]
  | .bool _ => by simp [Value.references]
  | .number _ => by simp [Value.references]
  | .text plain => by simp [Value.references, plain]
  | .dangling refers chain => by
      intro path inside
      simp only [Value.references, refers, Option.toList_some, List.mem_singleton] at inside
      rw [inside]
      exact chain.grounded (fun literal never => nomatch never)
  | .reference refers chain further => by
      intro path inside
      simp only [Value.references, refers, Option.toList_some, List.mem_singleton] at inside
      rw [inside]
      refine chain.grounded ?_
      intro literal same
      cases same
      exact further.grounded
  | .array each => by
      rw [Value.references]
      exact each.grounded
  | .object each => by
      rw [Value.references]
      exact each.grounded

theorem ItemsExpand.grounded {items expansions : List Value} :
    registry.ItemsExpand items expansions →
      ∀ path ∈ Value.itemReferences items, Acc registry.Below path
  | .nil => by simp [Value.itemReferences]
  | .cons first later => by
      intro path inside
      rw [Value.itemReferences] at inside
      exact (List.mem_append.mp inside).elim (first.grounded path) (later.grounded path)

theorem MembersExpand.grounded {members expansions : List (String × Value)} :
    registry.MembersExpand members expansions →
      ∀ path ∈ Value.memberReferences members, Acc registry.Below path
  | .nil => by simp [Value.memberReferences]
  | .kept first later => by
      intro path inside
      rw [Value.memberReferences] at inside
      exact (List.mem_append.mp inside).elim (first.grounded path) (later.grounded path)
  | .dropped first later => by
      intro path inside
      rw [Value.memberReferences] at inside
      exact (List.mem_append.mp inside).elim (first.grounded path) (later.grounded path)

end

/-- Every path lies below every path of the trail. -/
def AllBelow (registry : SourceRegistry) (trail : Trail) (paths : List String) : Prop :=
  ∀ upper ∈ trail, ∀ lower ∈ paths, TransGen registry.Below lower upper

theorem AllBelow.left {trail : Trail} {first later : List String}
    (below : registry.AllBelow trail (first ++ later)) : registry.AllBelow trail first :=
  fun upper onTrail lower inside =>
    below upper onTrail lower (List.mem_append_left later inside)

theorem AllBelow.right {trail : Trail} {first later : List String}
    (below : registry.AllBelow trail (first ++ later)) : registry.AllBelow trail later :=
  fun upper onTrail lower inside =>
    below upper onTrail lower (List.mem_append_right first inside)

/-- A chain of a grounded path meets no trail that the path lies below. -/
theorem Chain.apart {path : String} {steps : List String} {outcome : Option Value}
    (chain : registry.Chain path steps outcome) (grounded : Acc registry.Below path)
    {trail : Trail} (below : registry.AllBelow trail [path]) :
    ∀ step ∈ steps, step ∉ trail := by
  intro step visited onTrail
  -- A step on the trail has `path` below it and lies below `path` itself.
  have down := chain.step_below visited
  have loop : TransGen registry.Below step step :=
    .trans_right down (below step onTrail path List.mem_cons_self)
  exact not_below_self (grounded_below grounded down) loop

theorem Chain.allBelow {path : String} {steps : List String} {literal : Value}
    (chain : registry.Chain path steps (some literal)) {trail : Trail}
    (below : registry.AllBelow trail [path]) :
    registry.AllBelow (trail ++ steps) literal.references := by
  intro upper onTrail lower inside
  rcases List.mem_append.mp onTrail with old | visited
  · exact (chain.below_step chain.start_mem inside).trans
      (below upper old path List.mem_cons_self)
  · exact chain.below_step visited inside

theorem normalizeIn_text {trail : Trail} {text path : String}
    (refers : referencePath? text = some path) :
    registry.normalizeIn trail (.string text) = registry.follow trail path := by
  rw [normalizeIn, Value.normalWith, refers]

theorem follow_of_chain {trail : Trail} {path : String} {steps : List String}
    {outcome : Option Value} (chain : registry.Chain path steps outcome)
    (apart : ∀ step ∈ steps, step ∉ trail) :
    registry.follow trail path =
      match outcome with
      | some literal => registry.normalizeIn (trail ++ steps) literal
      | none => ⟨none, []⟩ := by
  rw [follow_eq, walk_of_chain chain apart]
  cases outcome <;> rfl

mutual

/-- Below its trail a value with a finite expansion is normalized to it in silence. -/
theorem Expands.normalizeIn_eq {value : Value} {expansion : Option Value} {trail : Trail} :
    registry.Expands value expansion → registry.AllBelow trail value.references →
      registry.normalizeIn trail value = ⟨expansion, []⟩
  | .null, _ => rfl
  | .bool _, _ => rfl
  | .number _, _ => rfl
  | .text plain, _ => by
      rw [normalizeIn, Value.normalWith, plain]
      rfl
  | .dangling refers chain, below => by
      have grounded := (Expands.dangling refers chain).grounded
      rw [Value.references, refers] at grounded below
      have apart := chain.apart (grounded _ List.mem_cons_self) below
      rw [normalizeIn_text refers, follow_of_chain chain apart]
  | .reference refers chain further, below => by
      have grounded := (Expands.reference refers chain further).grounded
      rw [Value.references, refers] at grounded below
      have apart := chain.apart (grounded _ List.mem_cons_self) below
      rw [normalizeIn_text refers, follow_of_chain chain apart]
      exact further.normalizeIn_eq (chain.allBelow below)
  | .array each, below => by
      rw [normalizeIn, Value.normalWith, each.normalItems_eq below]
      rfl
  | .object each, below => by
      rw [normalizeIn, Value.normalWith, each.normalMembers_eq below]
      rfl

theorem ItemsExpand.normalItems_eq {items expansions : List Value} {trail : Trail} :
    registry.ItemsExpand items expansions →
      registry.AllBelow trail (Value.itemReferences items) →
      Value.normalItems (registry.follow trail) items = ⟨expansions, []⟩
  | .nil, _ => rfl
  | .cons first later, below => by
      have here := first.normalizeIn_eq below.left
      rw [normalizeIn] at here
      rw [Value.normalItems, here, later.normalItems_eq below.right]
      rfl

theorem MembersExpand.normalMembers_eq {members expansions : List (String × Value)}
    {trail : Trail} :
    registry.MembersExpand members expansions →
      registry.AllBelow trail (Value.memberReferences members) →
      Value.normalMembers (registry.follow trail) members = ⟨expansions, []⟩
  | .nil, _ => rfl
  | .kept first later, below => by
      have here := first.normalizeIn_eq below.left
      rw [normalizeIn] at here
      rw [Value.normalMembers, here, later.normalMembers_eq below.right]
      rfl
  | .dropped first later, below => by
      have here := first.normalizeIn_eq below.left
      rw [normalizeIn] at here
      rw [Value.normalMembers, here, later.normalMembers_eq below.right]
      rfl

end

theorem Expands.normalize_eq {value : Value} {expansion : Option Value}
    (expands : registry.Expands value expansion) : registry.normalize value = ⟨expansion, []⟩ :=
  expands.normalizeIn_eq (fun _ onTrail => absurd onTrail List.not_mem_nil)

end SourceRegistry

namespace Resolver

variable {registry : SourceRegistry}

/-- Normalizing warns of a circle exactly when the expansion without a trail is infinite, and
gives the expansion when it is finite. -/
theorem normalize_silent_iff_expands {resolver : Resolver registry}
    (reachable : resolver.Reachable) (value : Value) :
    ((resolver.normalize value).warnings = [] ↔ ∃ expansion, registry.Expands value expansion) ∧
      ∀ expansion, registry.Expands value expansion →
        (resolver.normalize value).result.1 = expansion := by
  obtain ⟨sameResult, sameWarnings, -⟩ :=
    normalizeIn_simulates [] value resolver reachable.faithful
  have result : (resolver.normalize value).result.1 = (registry.normalize value).result :=
    sameResult
  have warnings : (resolver.normalize value).warnings = (registry.normalize value).warnings :=
    sameWarnings
  rw [warnings, result]
  constructor
  · constructor
    · intro silent
      exact ⟨_, SourceRegistry.expands_of_silent (SourceRegistry.referenceExpands_of_silent [])
        value silent⟩
    · rintro ⟨expansion, expands⟩
      rw [expands.normalize_eq]
  · intro expansion expands
    rw [expands.normalize_eq]

theorem normalize_of_expands {resolver : Resolver registry} (reachable : resolver.Reachable)
    {value : Value} {expansion : Option Value} (expands : registry.Expands value expansion) :
    (resolver.normalize value).result.1 = expansion ∧ (resolver.normalize value).warnings = [] := by
  have plain : registry.normalizeIn [] value = ⟨expansion, []⟩ := expands.normalize_eq
  rw [normalize, result_normalizeIn reachable, warnings_normalizeIn reachable, plain]
  exact ⟨rfl, rfl⟩

/-- A color under two names. -/
def palette : SourceRegistry :=
  .ofTokens [("ink", .string "{black}"), ("black", .string "#000000")]

/-- A token that is used twice, the second time behind its own alias, is not a circle. -/
theorem repeated_reference_is_silent :
    let value := Value.array [.string "{black}", .string "{ink}"]
    let resolver := ((fresh palette).walk [] "ink").2
    resolver.Reachable ∧ (resolver.normalize value).warnings = [] ∧
      (resolver.normalize value).result.1 =
        some (.array [.string "#000000", .string "#000000"]) := by
  intro value resolver
  have reachable : resolver.Reachable := .walk .fresh [] "ink"
  have black : palette.Expands (.string "{black}") (some (.string "#000000")) :=
    .reference rfl (.literal rfl rfl) (.text rfl)
  have ink : palette.Expands (.string "{ink}") (some (.string "#000000")) :=
    .reference rfl (.onward rfl rfl (.literal rfl rfl)) (.text rfl)
  have expands : palette.Expands value
      (some (.array [.string "#000000", .string "#000000"])) :=
    .array (.cons black (.cons ink .nil))
  have described := normalize_silent_iff_expands reachable value
  exact ⟨reachable, described.1.mpr ⟨_, expands⟩, described.2 _ expands⟩

end Resolver

end DesignTokens
