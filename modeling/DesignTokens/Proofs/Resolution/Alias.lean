/-
Aliases are transparent.

An alias is a path whose value is nothing but a reference. What the alias stands
for is what its target stands for, for walks and for normalizing, whatever
circles the definitions have. Going through the alias puts one more path on the
trail, which may end a circle at another path, but at no other value: a trail
with the target on it stops every walk that comes to the alias anyway, one step
later.
-/
import DesignTokens.Proofs.Resolution.Expansion
import DesignTokens.Proofs.Resolution.Halting

namespace DesignTokens

/-! ### Results up to the paths that warnings name -/

namespace Traced

/-- The results are the same, and there are as many warnings. -/
def Alike {α : Type} (left right : Traced α) : Prop :=
  left.result = right.result ∧ left.warnings.length = right.warnings.length

variable {α β : Type}

theorem Alike.refl (traced : Traced α) : traced.Alike traced := ⟨rfl, rfl⟩

theorem Alike.bind {left right : Traced α} {leftNext rightNext : α → Traced β}
    (first : left.Alike right) (later : ∀ result, (leftNext result).Alike (rightNext result)) :
    (left >>= leftNext).Alike (right >>= rightNext) := by
  obtain ⟨sameResult, sameCount⟩ := first
  obtain ⟨result, count⟩ := later right.result
  rw [Alike, result_bind, result_bind, warnings_bind, warnings_bind, sameResult]
  refine ⟨result, ?_⟩
  rw [List.length_append, List.length_append, sameCount, count]

/-- Results that are alike. -/
def likeness : Correspondence Traced Traced where
  Related := Alike
  returning result := .refl (pure result)
  sequencing := Alike.bind

end Traced

theorem referencePath?_referenceText (path : String) :
    referencePath? (referenceText path) = some path := by
  simp [referencePath?, referenceText]

namespace SourceRegistry

variable {registry : SourceRegistry}

/-! ### How walks end -/

theorem chain_or_circular (registry : SourceRegistry) (trail : Trail) (path : String) :
    (∃ steps outcome, registry.Chain path steps outcome ∧ ∀ step ∈ steps, step ∉ trail) ∨
      ∃ again, (registry.walk trail path).ending = .circular again := by
  cases ended : (registry.walk trail path).ending with
  | literal value =>
      have literal : (registry.walk trail path).ending = .ofOutcome (some value) := ended
      exact .inl ⟨_, _, chain_of_walk literal⟩
  | undefined =>
      have dangles : (registry.walk trail path).ending = .ofOutcome none := ended
      exact .inl ⟨_, _, chain_of_walk dangles⟩
  | circular again => exact .inr ⟨again, rfl⟩

theorem not_circular_of_chain {trail : Trail} {path again : String} {steps : List String}
    {outcome : Option Value} (chain : registry.Chain path steps outcome)
    (apart : ∀ step ∈ steps, step ∉ trail) :
    (registry.walk trail path).ending ≠ .circular again := by
  rw [walk_of_chain chain apart]
  cases outcome <;> simp [Ending.ofOutcome]

theorem follow_of_circular {trail : Trail} {path again : String}
    (ended : (registry.walk trail path).ending = .circular again) :
    registry.follow trail path = ⟨none, [⟨again⟩]⟩ := by
  rw [follow_eq, ended]

/-! ### One more path on the trail -/

variable {name target : String}

theorem Chain.of_alias (leads : registry.target? name = some target) {steps : List String}
    {outcome : Option Value} (chain : registry.Chain target steps outcome) :
    registry.Chain name (name :: steps) outcome := by
  obtain ⟨value, found, refers⟩ := Option.bind_eq_some_iff.mp leads
  exact .onward found refers chain

theorem Chain.behind_alias (leads : registry.target? name = some target) {steps : List String}
    {outcome : Option Value} (chain : registry.Chain name steps outcome) :
    ∃ rest, steps = name :: rest ∧ registry.Chain target rest outcome := by
  cases chain with
  | undefined missing => simp [target?_eq_none missing] at leads
  | literal found plain => simp [target?_eq_some found, plain] at leads
  | onward found refers rest =>
      rw [target?_eq_some found, refers] at leads
      cases leads
      exact ⟨_, rfl, rest⟩

theorem Chain.target_mem (leads : registry.target? name = some target) {path : String}
    {steps : List String} {outcome : Option Value} (chain : registry.Chain path steps outcome)
    (visited : name ∈ steps) : target ∈ steps := by
  obtain ⟨before, after, split, suffix⟩ := chain.exists_suffix visited
  obtain ⟨rest, same, behind⟩ := suffix.behind_alias leads
  rw [split, same]
  exact List.mem_append_right before (List.mem_cons_of_mem _ behind.start_mem)

/-- The wider trail has the alias besides the paths of the other one. -/
def WidenedBy (name : String) (trail wider : Trail) : Prop :=
  ∀ step, step ∈ wider ↔ step = name ∨ step ∈ trail

theorem WidenedBy.append {trail wider : Trail} (widened : WidenedBy name trail wider)
    (steps : List String) : WidenedBy name (trail ++ steps) (wider ++ steps) := by
  intro step
  rw [List.mem_append, List.mem_append, widened step, or_assoc]

/-- A chain apart from a trail with the target on it does not come to the alias. -/
theorem WidenedBy.apart (leads : registry.target? name = some target) {trail wider : Trail}
    (widened : WidenedBy name trail wider) (known : target ∈ trail) {path : String}
    {steps : List String} {outcome : Option Value} (chain : registry.Chain path steps outcome)
    (apart : ∀ step ∈ steps, step ∉ trail) : ∀ step ∈ steps, step ∉ wider := by
  intro step visited onWider
  rcases (widened step).mp onWider with same | onTrail
  · rw [same] at visited
    exact apart target (chain.target_mem leads visited) known
  · exact apart step visited onTrail

theorem follow_alike_of_widened (leads : registry.target? name = some target) (trail : Trail)
    (path : String) (known : target ∈ trail) (wider : Trail)
    (widened : WidenedBy name trail wider) :
    (registry.follow wider path).Alike (registry.follow trail path) := by
  induction trail, path using follow.induct registry generalizing wider with
  | case1 trail path walk ended =>
      have dangles : (registry.walk trail path).ending = .ofOutcome none := ended
      obtain ⟨chain, apart⟩ := chain_of_walk dangles
      rw [follow_of_chain chain (widened.apart leads known chain apart),
        follow_of_chain chain apart]
      exact .refl _
  | case2 trail path walk again ended =>
      -- The wider trail stops the walk as well, perhaps at the alias.
      rcases registry.chain_or_circular wider path with ⟨steps, outcome, chain, apart⟩ | ⟨_, early⟩
      · have narrower : ∀ step ∈ steps, step ∉ trail := fun step visited onTrail =>
          apart step visited ((widened step).mpr (.inr onTrail))
        exact absurd ended (not_circular_of_chain chain narrower)
      · rw [follow_of_circular early, follow_of_circular ended]
        exact ⟨rfl, rfl⟩
  | case3 trail path walk value ended ih =>
      have literal : (registry.walk trail path).ending = .ofOutcome (some value) := ended
      obtain ⟨chain, apart⟩ := chain_of_walk literal
      rw [follow_of_chain chain (widened.apart leads known chain apart),
        follow_of_chain chain apart]
      exact Value.normalWith_related Traced.likeness value (fun lower _ =>
        ih lower (List.mem_append_left _ known) _ (widened.append _))

/-! ### From an alias on -/

theorem chain_or_both_circular (leads : registry.target? name = some target) :
    (∃ steps outcome, registry.Chain target steps outcome) ∨
      ∃ early late, (registry.walk [] name).ending = .circular early ∧
        (registry.walk [] target).ending = .circular late := by
  rcases registry.chain_or_circular [] target with ⟨steps, outcome, chain, -⟩ | ⟨late, ended⟩
  · exact .inl ⟨steps, outcome, chain⟩
  · rcases registry.chain_or_circular [] name with ⟨steps, outcome, chain, -⟩ | ⟨early, before⟩
    · obtain ⟨rest, -, behind⟩ := chain.behind_alias leads
      exact absurd ended (not_circular_of_chain behind (fun _ _ => List.not_mem_nil))
    · exact .inr ⟨early, late, before, ended⟩

theorem walk_of_alias (leads : registry.target? name = some target) :
    (registry.walk [] name).value? = (registry.walk [] target).value? ∧
      (registry.walk [] name).warnings.length = (registry.walk [] target).warnings.length := by
  rcases chain_or_both_circular leads with ⟨steps, outcome, chain⟩ | ⟨early, late, before, ended⟩
  · rw [walk_of_chain (.of_alias leads chain) (fun _ _ => List.not_mem_nil),
      walk_of_chain chain (fun _ _ => List.not_mem_nil)]
    exact ⟨rfl, rfl⟩
  · rw [Walk.value?, Walk.value?, Walk.warnings, Walk.warnings, before, ended]
    exact ⟨rfl, rfl⟩

theorem follow_of_alias (leads : registry.target? name = some target) :
    (registry.follow [] name).Alike (registry.follow [] target) := by
  rcases chain_or_both_circular leads with ⟨steps, outcome, chain⟩ | ⟨early, late, before, ended⟩
  · rw [follow_of_chain (.of_alias leads chain) (fun _ _ => List.not_mem_nil),
      follow_of_chain chain (fun _ _ => List.not_mem_nil)]
    cases outcome with
    | none => exact .refl _
    | some literal =>
        have widened : WidenedBy name steps (name :: steps) := fun _ => List.mem_cons
        exact Value.normalWith_related Traced.likeness literal (fun lower _ =>
          follow_alike_of_widened leads steps lower chain.start_mem _ widened)
  · rw [follow_of_circular before, follow_of_circular ended]
    exact ⟨rfl, rfl⟩

end SourceRegistry

namespace Resolver

variable {registry : SourceRegistry} {resolver other : Resolver registry}

/-- A path whose value is a reference stands for what its target stands for, to resolving and to
normalizing, in any two states of the memory. There are as many warnings either way. -/
theorem alias_stands_for_target (reachable : resolver.Reachable) (otherReachable : other.Reachable)
    {name target : String} (leads : registry.target? name = some target) :
    (resolver.walk [] name).1.value? = (other.walk [] target).1.value? ∧
      (resolver.walk [] name).1.warnings.length = (other.walk [] target).1.warnings.length ∧
      (resolver.normalize (.string (referenceText name))).result.1 =
        (other.normalize (.string (referenceText target))).result.1 ∧
      (resolver.normalize (.string (referenceText name))).warnings.length =
        (other.normalize (.string (referenceText target))).warnings.length := by
  have walks := SourceRegistry.walk_of_alias leads
  have follows := SourceRegistry.follow_of_alias leads
  rw [← SourceRegistry.normalizeIn_text (referencePath?_referenceText name),
    ← SourceRegistry.normalizeIn_text (referencePath?_referenceText target)] at follows
  obtain ⟨nameResult, nameWarnings, -⟩ :=
    normalizeIn_simulates [] (.string (referenceText name)) resolver reachable.faithful
  obtain ⟨targetResult, targetWarnings, -⟩ :=
    normalizeIn_simulates [] (.string (referenceText target)) other otherReachable.faithful
  rw [(walk_faithful reachable.faithful [] name).1,
    (walk_faithful otherReachable.faithful [] target).1]
  refine ⟨walks.1, walks.2, ?_, ?_⟩
  · rw [normalize, normalize, nameResult, targetResult]
    exact follows.1
  · rw [normalize, normalize, nameWarnings, targetWarnings]
    exact follows.2

/-- An object that holds its own alias. -/
def selfHolding : SourceRegistry :=
  .ofTokens [("short", .string "{whole}"), ("whole", .object [("part", .string "{short}")])]

theorem alias_of_selfHolding :
    let resolver := ((fresh selfHolding).walk [] "short").2
    resolver.Reachable ∧ selfHolding.target? "short" = some "whole" ∧
      (resolver.walk [] "short").1.value? = ((fresh selfHolding).walk [] "whole").1.value? ∧
      (resolver.normalize (.string (referenceText "short"))).result.1 =
        ((fresh selfHolding).normalize (.string (referenceText "whole"))).result.1 := by
  intro resolver
  have reachable : resolver.Reachable := .walk .fresh [] "short"
  have leads : selfHolding.target? "short" = some "whole" := by rfl
  obtain ⟨walks, -, normal, -⟩ := alias_stands_for_target reachable .fresh leads
  exact ⟨reachable, leads, walks, normal⟩

end Resolver

end DesignTokens
