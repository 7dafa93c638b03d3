/-
Where a walk halts.

The references from a path on are followed step by step. The walk with a trail
behind it halts at the first step that is on the trail or was taken before, that
no source defines, or whose value is a literal, and which of these it is decides
its value, its trail and its warning. What the resolver remembers plays no part.
-/
import DesignTokens.Proofs.Resolution.Calls

namespace DesignTokens

namespace SourceRegistry

/-- The path that the value at a path refers to. -/
def target? (registry : SourceRegistry) (path : String) : Option String :=
  (registry.valueAt? path).bind Value.reference?

/-- The path that so many references lead to. -/
def stepAt? (registry : SourceRegistry) (path : String) : Nat → Option String
  | 0 => some path
  | count + 1 => (registry.stepAt? path count).bind registry.target?

/-- The paths of the steps before that one. -/
def stepsBefore (registry : SourceRegistry) (path : String) (count : Nat) : List String :=
  (List.range count).filterMap (registry.stepAt? path)

/-- The path of a step is on the trail or was taken before. -/
def Met (registry : SourceRegistry) (trail : Trail) (path : String) (count : Nat)
    (here : String) : Prop :=
  here ∈ trail ∨ here ∈ registry.stepsBefore path count

/-- At this path and no earlier one the walk cannot go on: it was met before, or it does not
refer to another. -/
structure FirstHalt (registry : SourceRegistry) (trail : Trail) (path : String) (count : Nat)
    (last : String) : Prop where
  reached : registry.stepAt? path count = some last
  halts : registry.Met trail path count last ∨ registry.target? last = none
  first : ∀ earlier < count, ∀ here, registry.stepAt? path earlier = some here →
    ¬registry.Met trail path earlier here ∧ registry.target? here ≠ none

variable {registry : SourceRegistry} {trail : Trail} {path target : String}

/-! ### Steps after the first -/

theorem target?_eq_some {value : Value} (found : registry.valueAt? path = some value) :
    registry.target? path = value.reference? := by
  rw [target?, found]
  rfl

theorem target?_eq_none (missing : registry.valueAt? path = none) :
    registry.target? path = none := by
  rw [target?, missing]
  rfl

theorem stepAt?_succ (refers : registry.target? path = some target) (count : Nat) :
    registry.stepAt? path (count + 1) = registry.stepAt? target count := by
  induction count with
  | zero => exact refers
  | succ count ih => rw [stepAt?, ih, stepAt?]

theorem stepAt?_succ_none (ends : registry.target? path = none) (count : Nat) :
    registry.stepAt? path (count + 1) = none := by
  induction count with
  | zero => exact ends
  | succ count ih =>
      rw [stepAt?, ih]
      rfl

theorem stepsBefore_zero : registry.stepsBefore path 0 = [] := rfl

theorem stepsBefore_succ (refers : registry.target? path = some target) (count : Nat) :
    registry.stepsBefore path (count + 1) = path :: registry.stepsBefore target count := by
  have shifted : registry.stepAt? path ∘ Nat.succ = registry.stepAt? target :=
    funext (stepAt?_succ refers)
  rw [stepsBefore, List.range_succ_eq_map, List.filterMap_cons, List.filterMap_map, shifted]
  rfl

theorem stepsBefore_one : registry.stepsBefore path 1 = [path] := rfl

theorem met_succ (refers : registry.target? path = some target) (count : Nat) (here : String) :
    registry.Met trail path (count + 1) here ↔
      registry.Met (trail ++ [path]) target count here := by
  rw [Met, Met, stepsBefore_succ refers, List.mem_cons, List.mem_append, List.mem_singleton,
    or_assoc]

/-! ### Plain walks -/

/-- The description of a walk by its first halt. -/
def HaltOutcome (registry : SourceRegistry) (trail : Trail) (path : String) (count : Nat)
    (last : String) (walk : Walk) : Prop :=
  (registry.Met trail path count last ∧
      walk = ⟨registry.stepsBefore path count, .circular last⟩) ∨
    (¬registry.Met trail path count last ∧
      walk = ⟨registry.stepsBefore path (count + 1), .ofOutcome (registry.valueAt? last)⟩)

theorem FirstHalt.start (halts : registry.Met trail path 0 path ∨ registry.target? path = none) :
    registry.FirstHalt trail path 0 path where
  reached := rfl
  halts := halts
  first := fun earlier before => absurd before (Nat.not_lt_zero earlier)

theorem FirstHalt.onward {count : Nat} {last : String} (fresh : path ∉ trail)
    (refers : registry.target? path = some target)
    (rest : registry.FirstHalt (trail ++ [path]) target count last) :
    registry.FirstHalt trail path (count + 1) last where
  reached := (stepAt?_succ refers count).trans rest.reached
  halts := rest.halts.imp_left (met_succ refers count last).mpr
  first := by
    intro earlier before here atEarlier
    cases earlier with
    | zero =>
        cases atEarlier
        refine ⟨?_, by simp [refers]⟩
        rintro (onTrail | taken)
        · exact fresh onTrail
        · cases taken
    | succ earlier =>
        rw [stepAt?_succ refers] at atEarlier
        rw [met_succ refers]
        exact rest.first earlier (Nat.lt_of_succ_lt_succ before) here atEarlier

/-- Every walk has a first halt, and is described by it. -/
theorem exists_firstHalt (registry : SourceRegistry) (trail : Trail) (path : String) :
    ∃ count last, registry.FirstHalt trail path count last ∧
      registry.HaltOutcome trail path count last (registry.walk trail path) := by
  induction trail, path using walk.induct registry with
  | case1 trail path onTrail =>
      exact ⟨0, path, .start (.inl (.inl onTrail)), .inl ⟨.inl onTrail, walk_onTrail onTrail⟩⟩
  | case2 trail path fresh missing =>
      refine ⟨0, path, .start (.inr (target?_eq_none missing)), .inr ⟨?_, ?_⟩⟩
      · simpa [Met, stepsBefore_zero] using fresh
      · rw [walk_undefined fresh missing, missing, stepsBefore_one]
        rfl
  | case3 trail path fresh value found plain =>
      refine ⟨0, path, .start (.inr ((target?_eq_some found).trans plain)), .inr ⟨?_, ?_⟩⟩
      · simpa [Met, stepsBefore_zero] using fresh
      · rw [walk_plain fresh found plain, found, stepsBefore_one]
        rfl
  | case4 trail path fresh value found target refers ih =>
      -- The rest of the walk has `path` on its trail, where the steps count it as taken.
      obtain ⟨count, last, halt, outcome⟩ := ih
      have leads := (target?_eq_some found).trans refers
      refine ⟨count + 1, last, halt.onward fresh leads, ?_⟩
      rw [HaltOutcome, met_succ leads, stepsBefore_succ leads, stepsBefore_succ leads,
        walk_reference fresh found refers]
      rcases outcome with ⟨met, same⟩ | ⟨unmet, same⟩
      · exact .inl ⟨met, by rw [same]; rfl⟩
      · exact .inr ⟨unmet, by rw [same]; rfl⟩

/-! ### Chains step by step -/

theorem Chain.getElem? {steps : List String} {outcome : Option Value}
    (chain : registry.Chain path steps outcome) (count : Nat) :
    steps[count]? = registry.stepAt? path count := by
  induction chain generalizing count with
  | undefined missing =>
      cases count with
      | zero => rfl
      | succ count => exact (stepAt?_succ_none (target?_eq_none missing) count).symm
  | literal found plain =>
      cases count with
      | zero => rfl
      | succ count =>
          exact (stepAt?_succ_none ((target?_eq_some found).trans plain) count).symm
  | onward found refers rest ih =>
      cases count with
      | zero => rfl
      | succ count =>
          rw [List.getElem?_cons_succ, ih, stepAt?_succ ((target?_eq_some found).trans refers)]

theorem Chain.exists_last {steps : List String} {outcome : Option Value}
    (chain : registry.Chain path steps outcome) :
    ∃ count last, registry.stepAt? path count = some last ∧
      registry.stepsBefore path (count + 1) = steps ∧ registry.valueAt? last = outcome ∧
      registry.target? last = none := by
  induction chain with
  | undefined missing => exact ⟨0, _, rfl, rfl, missing, target?_eq_none missing⟩
  | literal found plain => exact ⟨0, _, rfl, rfl, found, (target?_eq_some found).trans plain⟩
  | onward found refers rest ih =>
      obtain ⟨count, last, reached, same, ends, final⟩ := ih
      have leads := (target?_eq_some found).trans refers
      exact ⟨count + 1, last, (stepAt?_succ leads count).trans reached,
        by rw [stepsBefore_succ leads, same], ends, final⟩

/-- Steps that reach a literal are a chain, however often they came by. -/
theorem chain_of_stepAt {count : Nat} {last : String} {value : Value}
    (reached : registry.stepAt? path count = some last)
    (found : registry.valueAt? last = some value) (plain : value.reference? = none) :
    registry.Chain path (registry.stepsBefore path (count + 1)) (some value) := by
  induction count generalizing path with
  | zero =>
      cases reached
      exact .literal found plain
  | succ count ih =>
      cases leads : registry.target? path with
      | none =>
          rw [stepAt?_succ_none leads] at reached
          cases reached
      | some target =>
          obtain ⟨referrer, atPath, refers⟩ := Option.bind_eq_some_iff.mp leads
          rw [stepAt?_succ leads] at reached
          rw [stepsBefore_succ leads]
          exact .onward atPath refers (ih reached)

theorem chain_of_value {value : Value} (found : (registry.walk trail path).value? = some value) :
    registry.Chain path (registry.walk trail path).steps (some value) := by
  unfold Walk.value? at found
  split at found
  · rename_i ended
    cases found
    exact (chain_of_walk ended).1
  · cases found

theorem value?_eq_some_iff {value : Value} :
    (registry.walk [] path).value? = some value ↔
      ∃ count last, registry.stepAt? path count = some last ∧
        (registry.stepsBefore path (count + 1)).Nodup ∧
        registry.valueAt? last = some value ∧ value.reference? = none := by
  constructor
  · intro found
    have chain := chain_of_value found
    obtain ⟨count, last, reached, same, ends, final⟩ := chain.exists_last
    refine ⟨count, last, reached, ?_, ends, ?_⟩
    · rw [same]
      exact chain.nodup
    · rw [← target?_eq_some ends]
      exact final
  · rintro ⟨count, last, reached, -, found, plain⟩
    rw [walk_of_chain (chain_of_stepAt reached found plain) (fun _ _ => List.not_mem_nil)]
    rfl

theorem value?_eq_none_of_cycle {first again : Nat} {here : String} (before : first < again)
    (atFirst : registry.stepAt? path first = some here)
    (atAgain : registry.stepAt? path again = some here) :
    (registry.walk trail path).value? = none := by
  cases found : (registry.walk trail path).value? with
  | none => rfl
  | some value =>
      -- A chain that ends has each path at one place only.
      have chain := chain_of_value found
      rw [← chain.getElem?] at atFirst atAgain
      have distinct := List.pairwise_iff_getElem.mp chain.nodup
      obtain ⟨within, isFirst⟩ := List.getElem?_eq_some_iff.mp atFirst
      obtain ⟨withinAgain, isAgain⟩ := List.getElem?_eq_some_iff.mp atAgain
      exact absurd (isFirst.trans isAgain.symm) (distinct first again within withinAgain before)

end SourceRegistry

namespace Resolver

variable {registry : SourceRegistry}

/-- What a resolution comes to, from its first halt, in every state of the memory. A path met
before is warned of and ends the trail short of it; an undefined path and a literal go on the
trail. Hence a path has a value exactly when its steps are distinct and end at a literal. -/
theorem answer_of_first_halt {resolver : Resolver registry} (reachable : resolver.Reachable)
    (trail : Trail) (path : String) :
    (∃ count last, registry.FirstHalt trail path count last ∧
      ((registry.Met trail path count last ∧
          (resolver.walk trail path).1.answer trail =
            ⟨none, trail ++ registry.stepsBefore path count, [⟨last⟩]⟩) ∨
        (¬registry.Met trail path count last ∧ registry.valueAt? last = none ∧
          (resolver.walk trail path).1.answer trail =
            ⟨none, trail ++ registry.stepsBefore path (count + 1), []⟩) ∨
        (¬registry.Met trail path count last ∧
          ∃ value, registry.valueAt? last = some value ∧ value.reference? = none ∧
            (resolver.walk trail path).1.answer trail =
              ⟨some value, trail ++ registry.stepsBefore path (count + 1), []⟩))) ∧
    (∀ value, (resolver.walk [] path).1.value? = some value ↔
      ∃ count last, registry.stepAt? path count = some last ∧
        (registry.stepsBefore path (count + 1)).Nodup ∧
        registry.valueAt? last = some value ∧ value.reference? = none) ∧
    (∀ first again here, first < again → registry.stepAt? path first = some here →
      registry.stepAt? path again = some here → (resolver.walk [] path).1.value? = none) := by
  have plain (trail : Trail) := (walk_faithful reachable.faithful trail path).1
  rw [plain, plain]
  refine ⟨?_, fun value => SourceRegistry.value?_eq_some_iff,
    fun _ _ _ => SourceRegistry.value?_eq_none_of_cycle⟩
  obtain ⟨count, last, halt, outcome⟩ := registry.exists_firstHalt trail path
  refine ⟨count, last, halt, ?_⟩
  rcases outcome with ⟨met, same⟩ | ⟨unmet, same⟩
  · exact .inl ⟨met, by rw [same]; rfl⟩
  · have final := halt.halts.resolve_left unmet
    cases found : registry.valueAt? last with
    | none => exact .inr (.inl ⟨unmet, rfl, by rw [same, found]; rfl⟩)
    | some value =>
        rw [SourceRegistry.target?_eq_some found] at final
        exact .inr (.inr ⟨unmet, value, rfl, final, by rw [same, found]; rfl⟩)

/-- Three references, of which the second and the third are a circle. -/
def circle : SourceRegistry :=
  .ofTokens [("entry", .string "{first}"), ("first", .string "{second}"),
    ("second", .string "{first}")]

theorem undefined_into_circle :
    let resolver := ((fresh circle).walk ["second"] "entry").2
    resolver.Reachable ∧ circle.stepAt? "entry" 1 = some "first" ∧
      circle.stepAt? "entry" 3 = some "first" ∧ (resolver.walk [] "entry").1.value? = none := by
  intro resolver
  have reachable : resolver.Reachable := .walk .fresh ["second"] "entry"
  have atFirst : circle.stepAt? "entry" 1 = some "first" := by decide
  have atAgain : circle.stepAt? "entry" 3 = some "first" := by decide
  have described := answer_of_first_halt reachable [] "entry"
  exact ⟨reachable, atFirst, atAgain,
    described.2.2 1 3 "first" (by decide) atFirst atAgain⟩

end Resolver

end DesignTokens
