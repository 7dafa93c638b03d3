/-
What a resolver remembers never shows in its answers.

A remembered entry is the whole chain of its path (`Resolver.Faithful`), so
taking it instead of walking again comes to the same walk. Every operation on a
resolver keeps this, whatever trail it starts with and however it ends.
-/
import DesignTokens.Proofs.Resolution.Chain
import DesignTokens.Proofs.Resolution.Traversal

namespace DesignTokens

namespace Resolver

variable {registry : SourceRegistry} {resolver : Resolver registry}

/-! ### The cases of a walk that remembers -/

theorem walk_onTrail {trail : Trail} {path : String} (onTrail : path ∈ trail) :
    resolver.walk trail path = (⟨[], .circular path⟩, resolver) := by
  rw [walk, dif_pos onTrail]

theorem walk_remembered {trail : Trail} {path : String} {entry : Remembered}
    (fresh : path ∉ trail) (recalled : resolver.remembered? trail path = some entry) :
    resolver.walk trail path = (⟨entry.chain, .literal entry.value⟩, resolver) := by
  rw [walk, dif_neg fresh, recalled]

theorem walk_undefined {trail : Trail} {path : String} (fresh : path ∉ trail)
    (forgotten : resolver.remembered? trail path = none)
    (missing : registry.valueAt? path = none) :
    resolver.walk trail path = (⟨[path], .undefined⟩, resolver) := by
  rw [walk, dif_neg fresh, forgotten]
  dsimp only
  split
  · rfl
  · rename_i found
    rw [missing] at found
    cases found

theorem walk_plain {trail : Trail} {path : String} {value : Value} (fresh : path ∉ trail)
    (forgotten : resolver.remembered? trail path = none)
    (found : registry.valueAt? path = some value) (plain : value.reference? = none) :
    ∃ defined visited, resolver.walk trail path =
      (⟨[path], .literal value⟩,
        resolver.remember path ⟨[path], .literal value⟩ defined visited) := by
  refine ⟨SourceRegistry.mem_definedPaths_of_valueAt found, List.mem_singleton_self _, ?_⟩
  rw [walk, dif_neg fresh, forgotten]
  dsimp only
  split
  · rename_i missing
    rw [found] at missing
    cases missing
  · rename_i other again
    obtain rfl := Option.some.inj (found.symm.trans again)
    rw [plain]

theorem walk_reference {trail : Trail} {path target : String} {value : Value}
    (fresh : path ∉ trail) (forgotten : resolver.remembered? trail path = none)
    (found : registry.valueAt? path = some value) (refers : value.reference? = some target) :
    let onward := resolver.walk (trail ++ [path]) target
    ∃ defined visited, resolver.walk trail path =
      (onward.1.after path, onward.2.remember path (onward.1.after path) defined visited) := by
  refine ⟨SourceRegistry.mem_definedPaths_of_valueAt found, List.mem_cons_self, ?_⟩
  rw [walk, dif_neg fresh, forgotten]
  dsimp only
  split
  · rename_i missing
    rw [found] at missing
    cases missing
  · rename_i other again
    obtain rfl := Option.some.inj (found.symm.trans again)
    rw [refers]

/-! ### Faithful resolvers -/

/-- Every entry is the chain of its path, to a literal. -/
def Faithful (resolver : Resolver registry) : Prop :=
  ∀ path entry, resolver.cached? path = some entry →
    registry.Chain path entry.chain (some entry.value)

theorem fresh_faithful : (fresh registry).Faithful := by
  intro path entry cached
  cases cached

theorem remember_faithful (faithful : resolver.Faithful) {path : String} {walk : Walk}
    (chain : ∀ value, walk.ending = .literal value →
      registry.Chain path walk.steps (some value))
    (defined : path ∈ registry.definedPaths) (visited : path ∈ walk.steps) :
    (resolver.remember path walk defined visited).Faithful := by
  unfold remember
  split
  · rename_i value ended
    intro other entry cached
    by_cases same : other = path
    · subst same
      rw [cached?, lookup_putMember_self] at cached
      cases cached
      exact chain value ended
    · rw [cached?, lookup_putMember_of_ne same] at cached
      exact faithful other entry cached
  · exact faithful

/-- An entry stands in for a walk only when the walk would meet nothing on the trail. -/
theorem remembered_eq_walk (faithful : resolver.Faithful) {trail : Trail} {path : String}
    {entry : Remembered} (recalled : resolver.remembered? trail path = some entry) :
    registry.walk trail path = ⟨entry.chain, .literal entry.value⟩ := by
  obtain ⟨cached, apart⟩ := Option.filter_eq_some_iff.mp recalled
  apply SourceRegistry.walk_of_chain (faithful path entry cached)
  intro step visited
  exact of_decide_eq_true (List.all_eq_true.mp apart step visited)

/-- A walk that remembers is the plain walk, and leaves a faithful resolver. -/
theorem walk_faithful (faithful : resolver.Faithful) (trail : Trail) (path : String) :
    (resolver.walk trail path).1 = registry.walk trail path ∧
      (resolver.walk trail path).2.Faithful := by
  induction trail, path using walk.induct resolver with
  | case1 trail path onTrail =>
      rw [walk_onTrail onTrail, SourceRegistry.walk_onTrail onTrail]
      exact ⟨rfl, faithful⟩
  | case2 trail path fresh entry recalled =>
      rw [walk_remembered fresh recalled, remembered_eq_walk faithful recalled]
      exact ⟨rfl, faithful⟩
  | case3 trail path fresh forgotten missing =>
      rw [walk_undefined fresh forgotten missing, SourceRegistry.walk_undefined fresh missing]
      exact ⟨rfl, faithful⟩
  | case4 trail path fresh forgotten value found plain =>
      obtain ⟨defined, visited, same⟩ := walk_plain fresh forgotten found plain
      rw [same, SourceRegistry.walk_plain fresh found plain]
      refine ⟨rfl, remember_faithful faithful ?_ defined visited⟩
      intro other ended
      cases ended
      exact .literal found plain
  | case5 trail path fresh forgotten value found target refers ih =>
      -- The rest may have come from an entry; that it is the plain walk makes it a chain.
      obtain ⟨onwardSame, onwardFaithful⟩ := ih
      obtain ⟨defined, visited, same⟩ := walk_reference fresh forgotten found refers
      rw [same, SourceRegistry.walk_reference fresh found refers, ← onwardSame]
      refine ⟨rfl, remember_faithful onwardFaithful ?_ defined visited⟩
      intro other ended
      rw [onwardSame] at ended ⊢
      have toLiteral : (registry.walk (trail ++ [path]) target).ending =
          .ofOutcome (some other) := ended
      exact .onward found refers (SourceRegistry.chain_of_walk toLiteral).1

end Resolver

/-! ### Computations with a resolver -/

namespace Resolving

variable {registry : SourceRegistry} {α β : Type}

/-- From a faithful resolver the computation comes to the result and the warnings of the plain
one, and leaves a faithful resolver. -/
def Simulates (remembering : Resolving registry α) (plain : Traced α) : Prop :=
  ∀ resolver : Resolver registry, resolver.Faithful →
    (remembering resolver).result.1 = plain.result ∧
      (remembering resolver).warnings = plain.warnings ∧
      (remembering resolver).result.2.Faithful

theorem simulates_pure (result : α) :
    Simulates (pure result : Resolving registry α) (pure result) := by
  intro resolver faithful
  exact ⟨rfl, rfl, faithful⟩

theorem Simulates.bind {first : Resolving registry α} {plainFirst : Traced α}
    {next : α → Resolving registry β} {plainNext : α → Traced β}
    (start : Simulates first plainFirst)
    (later : ∀ result, Simulates (next result) (plainNext result)) :
    Simulates (first >>= next) (plainFirst >>= plainNext) := by
  intro resolver faithful
  obtain ⟨sameResult, sameWarnings, between⟩ := start resolver faithful
  obtain ⟨result, warnings, after⟩ := later (first resolver).result.1 _ between
  change _ = (plainNext plainFirst.result).result ∧
    _ = plainFirst.warnings ++ (plainNext plainFirst.result).warnings ∧ _
  rw [← sameResult, ← sameWarnings, ← warnings]
  exact ⟨result, rfl, after⟩

/-- Simulation, from any faithful resolver on. -/
def simulation (registry : SourceRegistry) : Correspondence (Resolving registry) Traced where
  Related := Simulates
  returning := simulates_pure
  sequencing := Simulates.bind

end Resolving

/-! ### Following references and normalizing -/

/-- What a reference comes to, from how its walk ended. -/
theorem SourceRegistry.follow_eq (registry : SourceRegistry) (trail : Trail) (path : String) :
    registry.follow trail path =
      match (registry.walk trail path).ending with
      | .undefined => ⟨none, []⟩
      | .circular again => ⟨none, [⟨again⟩]⟩
      | .literal value =>
        value.normalWith (registry.follow (trail ++ (registry.walk trail path).steps)) := by
  rw [follow]
  split <;> rename_i ended <;> rw [ended]

namespace Resolver

variable {registry : SourceRegistry}

theorem follow_eq (resolver : Resolver registry) (trail : Trail) (path : String) :
    resolver.follow trail path =
      match (resolver.walk trail path).1.ending with
      | .undefined => ⟨(none, (resolver.walk trail path).2), []⟩
      | .circular again => ⟨(none, (resolver.walk trail path).2), [⟨again⟩]⟩
      | .literal value =>
        value.normalWith (m := Resolving registry)
          (fun target later => later.follow (trail ++ (resolver.walk trail path).1.steps) target)
          (resolver.walk trail path).2 := by
  rw [follow]
  split <;> rename_i ended <;> rw [ended]
  rfl

theorem follow_simulates (trail : Trail) (path : String) :
    Resolving.Simulates (fun resolver : Resolver registry => resolver.follow trail path)
      (registry.follow trail path) := by
  induction trail, path using SourceRegistry.follow.induct registry with
  | case1 trail path walk ended =>
      intro resolver faithful
      obtain ⟨same, kept⟩ := walk_faithful faithful trail path
      dsimp only
      rw [follow_eq, SourceRegistry.follow_eq, same, ended]
      exact ⟨rfl, rfl, kept⟩
  | case2 trail path walk again ended =>
      intro resolver faithful
      obtain ⟨same, kept⟩ := walk_faithful faithful trail path
      dsimp only
      rw [follow_eq, SourceRegistry.follow_eq, same, ended]
      exact ⟨rfl, rfl, kept⟩
  | case3 trail path walk value ended ih =>
      intro resolver faithful
      obtain ⟨same, kept⟩ := walk_faithful faithful trail path
      dsimp only
      rw [follow_eq, SourceRegistry.follow_eq, same, ended]
      exact Value.normalWith_related (Resolving.simulation registry) value
        (fun lower _ => ih lower) _ kept

theorem normalizeIn_simulates (trail : Trail) (value : Value) :
    Resolving.Simulates (fun resolver : Resolver registry => resolver.normalizeIn trail value)
      (registry.normalizeIn trail value) :=
  Value.normalWith_related (Resolving.simulation registry) value
    (fun path _ => follow_simulates trail path)

/-! ### Reachable resolvers -/

/-- The resolvers that come from a fresh one by any calls in any order. -/
inductive Reachable : Resolver registry → Prop
  | fresh : Reachable (fresh registry)
  | walk {resolver : Resolver registry} (before : Reachable resolver) (trail : Trail)
      (path : String) : Reachable (resolver.walk trail path).2
  | normalize {resolver : Resolver registry} (before : Reachable resolver) (value : Value) :
      Reachable (resolver.normalize value).result.2
  | clear {resolver : Resolver registry} (before : Reachable resolver) : Reachable resolver.clear

theorem Reachable.faithful {resolver : Resolver registry} (reachable : resolver.Reachable) :
    resolver.Faithful := by
  induction reachable with
  | fresh => exact fresh_faithful
  | walk before trail path ih => exact (walk_faithful ih trail path).2
  | normalize before value ih => exact (normalizeIn_simulates [] value _ ih).2.2
  | clear before ih => exact fresh_faithful

/-- Remembering does not show in what normalizing comes to. -/
theorem result_normalizeIn {resolver : Resolver registry} (reachable : resolver.Reachable)
    (trail : Trail) (value : Value) :
    (resolver.normalizeIn trail value).result.1 = (registry.normalizeIn trail value).result :=
  (normalizeIn_simulates trail value resolver reachable.faithful).1

theorem warnings_normalizeIn {resolver : Resolver registry} (reachable : resolver.Reachable)
    (trail : Trail) (value : Value) :
    (resolver.normalizeIn trail value).warnings = (registry.normalizeIn trail value).warnings :=
  (normalizeIn_simulates trail value resolver reachable.faithful).2.1

end Resolver

end DesignTokens
