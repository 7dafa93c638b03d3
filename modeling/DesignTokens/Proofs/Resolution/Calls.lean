/-
Sequences of calls to a resolver.

A caller picks every call after it saw the answers to the earlier ones, so it
may hand on the paths that they left, mixed with others or not. The answers are
those of the registry itself, which remembers nothing between two calls.
-/
import DesignTokens.Proofs.Resolution.Memory

namespace DesignTokens

/-- What a caller learns: the value, the trail afterwards and the circular references met. -/
structure Answer where
  value : Option Value
  visited : Trail
  warnings : List CircularReference

def Walk.answer (trail : Trail) (walk : Walk) : Answer :=
  ⟨walk.value?, trail ++ walk.steps, walk.warnings⟩

inductive ResolverCall
  | resolve (path : String)
  | resolveWith (trail : Trail) (path : String)
  | clear

/-- How a caller picks its calls, one after the other, from the answers so far. -/
abbrev Caller := List (List (Option Answer) → ResolverCall)

/-- The answer of a resolver to a call, and the resolver afterwards. -/
def Resolver.call {registry : SourceRegistry} (resolver : Resolver registry) :
    ResolverCall → Option Answer × Resolver registry
  | .resolve path =>
      let walked := resolver.walk [] path
      (some (walked.1.answer []), walked.2)
  | .resolveWith trail path =>
      let walked := resolver.walk trail path
      (some (walked.1.answer trail), walked.2)
  | .clear => (none, resolver.clear)

/-- The answer of plain walking to a call. There is nothing to clear. -/
def SourceRegistry.call (registry : SourceRegistry) : ResolverCall → Option Answer
  | .resolve path => some ((registry.walk [] path).answer [])
  | .resolveWith trail path => some ((registry.walk trail path).answer trail)
  | .clear => none

/-- The answers of one resolver to a caller that already has the earlier ones. -/
def Resolver.answers {registry : SourceRegistry} (resolver : Resolver registry)
    (earlier : List (Option Answer)) : Caller → List (Option Answer)
  | [] => earlier
  | pick :: rest =>
      let called := resolver.call (pick earlier)
      called.2.answers (earlier ++ [called.1]) rest

/-- The answers of plain walking to a caller that already has the earlier ones. -/
def SourceRegistry.answers (registry : SourceRegistry) (earlier : List (Option Answer)) :
    Caller → List (Option Answer)
  | [] => earlier
  | pick :: rest => registry.answers (earlier ++ [registry.call (pick earlier)]) rest

namespace Resolver

variable {registry : SourceRegistry} {resolver : Resolver registry}

theorem call_faithful (faithful : resolver.Faithful) (call : ResolverCall) :
    (resolver.call call).1 = registry.call call ∧ (resolver.call call).2.Faithful := by
  cases call with
  | resolve path =>
      obtain ⟨same, kept⟩ := walk_faithful faithful [] path
      refine ⟨?_, kept⟩
      rw [Resolver.call, SourceRegistry.call, same]
  | resolveWith trail path =>
      obtain ⟨same, kept⟩ := walk_faithful faithful trail path
      refine ⟨?_, kept⟩
      rw [Resolver.call, SourceRegistry.call, same]
  | clear => exact ⟨rfl, fresh_faithful⟩

theorem answers_of_faithful (faithful : resolver.Faithful) (earlier : List (Option Answer))
    (caller : Caller) : resolver.answers earlier caller = registry.answers earlier caller := by
  induction caller generalizing resolver earlier with
  | nil => rfl
  | cons pick rest ih =>
      obtain ⟨same, kept⟩ := call_faithful faithful (pick earlier)
      rw [Resolver.answers, SourceRegistry.answers, ← same]
      exact ih kept _

/-- No caller can tell a resolver that started without any memory from plain walking: every
call in every sequence has the same value, leaves the same trail and gives the same warnings. -/
theorem answers_eq_answers_of_registry (registry : SourceRegistry) (caller : Caller) :
    (fresh registry).answers [] caller = registry.answers [] caller :=
  answers_of_faithful fresh_faithful [] caller

end Resolver

end DesignTokens
