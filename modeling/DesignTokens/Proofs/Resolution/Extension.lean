/-
A source at the lowest priority.

A source that is appended is searched last. A search that succeeded ends where
it ended before, also when earlier sources define only a part of its path. So a
walk that came to a literal or to a circle is the same walk in the larger
registry. Only a walk that stopped at an undefined path can change: it goes on
from there when the new source defines the path.
-/
import DesignTokens.Proofs.Resolution.Calls
import DesignTokens.Proofs.Source.Search

namespace DesignTokens

namespace SourceRegistry

variable {registry larger : SourceRegistry} {name : String} {tree : TokenTree}

/-- What a search finds in the one registry, it finds in the larger one. -/
def Extends (larger registry : SourceRegistry) : Prop :=
  ∀ path found, registry.find? path = some found → larger.find? path = some found

theorem Extends.of_push (pushed : registry.push name tree = .ok larger) :
    larger.Extends registry := by
  intro path found isFound
  rw [find?_push pushed, isFound, Option.some_or]

theorem Extends.valueAt?_eq (kept : larger.Extends registry) {path : String} {value : Value}
    (found : registry.valueAt? path = some value) : larger.valueAt? path = some value := by
  obtain ⟨node, isFound, same⟩ := Option.map_eq_some_iff.mp found
  rw [valueAt?, kept path node isFound, Option.map_some, same]

theorem find?_of_valueAt?_eq_none {path : String} (missing : registry.valueAt? path = none) :
    registry.find? path = none :=
  Option.map_eq_none_iff.mp missing

/-! ### Walks -/

/-- The walk stops at this path after these steps, because no source defines the path. -/
structure StopsAt (registry : SourceRegistry) (trail : Trail) (path : String)
    (steps : List String) (last : String) : Prop where
  walk : registry.walk trail path = ⟨steps ++ [last], .undefined⟩
  fresh : last ∉ trail ++ steps
  missing : registry.find? last = none

theorem StopsAt.after {trail : Trail} {path target last : String} {steps : List String}
    {value : Value} (stops : registry.StopsAt (trail ++ [path]) target steps last)
    (fresh : path ∉ trail) (found : registry.valueAt? path = some value)
    (refers : value.reference? = some target) :
    registry.StopsAt trail path (path :: steps) last where
  walk := by
    rw [walk_reference fresh found refers, stops.walk]
    rfl
  fresh := by
    have outside := stops.fresh
    rw [List.append_assoc] at outside
    exact outside
  missing := stops.missing

/-- The walk from the last step on, with the earlier steps before it. -/
def walkOnward (registry : SourceRegistry) (trail : Trail) (steps : List String)
    (last : String) : Walk :=
  let onward := registry.walk (trail ++ steps) last
  ⟨steps ++ onward.steps, onward.ending⟩

theorem walkOnward_after {trail : Trail} {path target last : String} {steps : List String}
    {value : Value} (fresh : path ∉ trail) (found : registry.valueAt? path = some value)
    (refers : value.reference? = some target)
    (rest : registry.walk (trail ++ [path]) target =
      registry.walkOnward (trail ++ [path]) steps last) :
    registry.walk trail path = registry.walkOnward trail (path :: steps) last := by
  rw [walk_reference fresh found refers, rest, walkOnward, walkOnward, List.append_assoc,
    List.singleton_append]
  rfl

/-- In a larger registry a walk is the same, unless it stopped at an undefined path, and then it
goes on from that path. -/
theorem Extends.walk_cases (kept : larger.Extends registry) (trail : Trail) (path : String) :
    larger.walk trail path = registry.walk trail path ∨
      ∃ steps last, registry.StopsAt trail path steps last ∧
        larger.walk trail path = larger.walkOnward trail steps last := by
  induction trail, path using walk.induct registry with
  | case1 trail path onTrail => exact .inl (by rw [walk_onTrail onTrail, walk_onTrail onTrail])
  | case2 trail path fresh missing =>
      have alone : path ∉ trail ++ [] := by
        rw [List.append_nil]
        exact fresh
      have stops : registry.StopsAt trail path [] path :=
        ⟨walk_undefined fresh missing, alone, find?_of_valueAt?_eq_none missing⟩
      refine .inr ⟨[], path, stops, ?_⟩
      rw [walkOnward, List.append_nil]
      rfl
  | case3 trail path fresh value found plain =>
      exact .inl (by
        rw [walk_plain fresh found plain, walk_plain fresh (kept.valueAt?_eq found) plain])
  | case4 trail path fresh value found target refers ih =>
      have alsoFound := kept.valueAt?_eq found
      rcases ih with same | ⟨steps, last, stops, onward⟩
      · exact .inl (by
          rw [walk_reference fresh found refers, walk_reference fresh alsoFound refers, same])
      · exact .inr ⟨path :: steps, last, stops.after fresh found refers,
          walkOnward_after fresh alsoFound refers onward⟩

theorem StopsAt.walkOnward_eq {trail : Trail} {path last : String} {steps : List String}
    (stops : registry.StopsAt trail path steps last) (stillMissing : larger.find? last = none) :
    larger.walkOnward trail steps last = registry.walk trail path := by
  have missing : larger.valueAt? last = none := by
    rw [valueAt?, stillMissing]
    rfl
  rw [walkOnward, walk_undefined stops.fresh missing, stops.walk]

end SourceRegistry

/-! ### Answers -/

theorem Walk.answer_of_value {walk : Walk} {value : Value} (found : walk.value? = some value)
    (trail : Trail) : walk.answer trail = ⟨some value, trail ++ walk.steps, []⟩ := by
  obtain ⟨steps, ending⟩ := walk
  cases ending with
  | literal literal =>
      cases found
      rfl
  | undefined => cases found
  | circular => cases found

theorem Walk.answer_of_warning {walk : Walk} {circular : CircularReference}
    (warned : circular ∈ walk.warnings) (trail : Trail) :
    walk.answer trail = ⟨none, trail ++ walk.steps, [circular]⟩ := by
  obtain ⟨steps, ending⟩ := walk
  cases ending with
  | circular again =>
      rw [List.mem_singleton.mp warned]
      rfl
  | literal => cases warned
  | undefined => cases warned

namespace Resolver

variable {registry larger : SourceRegistry} {resolver : Resolver registry}
  {other : Resolver larger}

/-- A source appended at the lowest priority takes nothing back. A resolution that had a value
has the same value and leaves the same trail, and one that met a circle meets it at the same path
with the same trail, in any two states of the two memories. Only a resolution that stopped at a
path which no source defined can change, and only when the new source defines that path. -/
theorem push_conservative {name : String} {tree : TokenTree}
    (pushed : registry.push name tree = .ok larger) (reachable : resolver.Reachable)
    (otherReachable : other.Reachable) (trail : Trail) (path : String) :
    let answer := (resolver.walk trail path).1.answer trail
    let largerAnswer := (other.walk trail path).1.answer trail
    (∀ value, answer.value = some value → largerAnswer = ⟨some value, answer.visited, []⟩) ∧
      (∀ circular ∈ answer.warnings, largerAnswer = ⟨none, answer.visited, [circular]⟩) ∧
      (largerAnswer ≠ answer → ∃ steps last,
        (resolver.walk trail path).1 = ⟨steps ++ [last], .undefined⟩ ∧
          registry.find? last = none ∧ (tree.lookup? last).isSome = true) := by
  rw [(walk_faithful reachable.faithful trail path).1,
    (walk_faithful otherReachable.faithful trail path).1]
  intro answer largerAnswer
  rcases (SourceRegistry.Extends.of_push pushed).walk_cases trail path with
    same | ⟨steps, last, stops, onward⟩
  · have unchanged : largerAnswer = answer := congrArg (Walk.answer trail) same
    rw [unchanged]
    exact ⟨fun value found => Walk.answer_of_value found trail,
      fun circular warned => Walk.answer_of_warning warned trail,
      fun changed => absurd rfl changed⟩
  · -- The smaller registry knew neither a value nor a circle.
    have stopped : answer = ⟨none, trail ++ (steps ++ [last]), []⟩ :=
      congrArg (Walk.answer trail) stops.walk
    rw [stopped]
    refine ⟨fun value found => ?_, fun circular warned => ?_, ?_⟩
    · cases found
    · cases warned
    · intro changed
      refine ⟨steps, last, stops.walk, stops.missing, ?_⟩
      cases looked : tree.lookup? last with
      | some node => rfl
      | none =>
          have stillMissing : larger.find? last = none := by
            rw [SourceRegistry.find?_push pushed, stops.missing, looked]
            rfl
          rw [stops.walkOnward_eq stillMissing] at onward
          exact absurd ((congrArg (Walk.answer trail) onward).trans stopped) changed

/-- Two sources that both have a group of inks, one ink each. The first refers to the second. -/
def splitInk : SourceRegistry where
  sources := [
    ⟨"alias", ⟨none, [("ink", .group none [("soft", .raw (.string "{ink.deep}"))])]⟩⟩,
    ⟨"core", ⟨none, [("ink", .group none [("deep", .raw (.string "#101828"))])]⟩⟩]
  distinct := by decide

/-- The same ink again, in white. -/
def whiteInk : TokenTree :=
  ⟨none, [("ink", .group none [("deep", .raw (.string "#ffffff"))])]⟩

/-- The first source has the group but not the ink, and the search goes on to the second one, not
to the one that was appended. -/
theorem push_conservative_of_splitInk :
    let resolver := ((fresh splitInk).walk ["ink.soft"] "ink.deep").2
    let answer : Answer := ⟨some (.string "#101828"), ["ink.soft", "ink.deep"], []⟩
    ∃ larger, splitInk.push "web" whiteInk = .ok larger ∧ resolver.Reachable ∧
      (resolver.walk [] "ink.soft").1.answer [] = answer ∧
      ((fresh larger).walk [] "ink.soft").1.answer [] = answer := by
  intro resolver answer
  have reachable : resolver.Reachable := .walk .fresh ["ink.soft"] "ink.deep"
  have chain : splitInk.Chain "ink.soft" ["ink.soft", "ink.deep"] (some (.string "#101828")) :=
    .onward rfl rfl (.literal rfl rfl)
  have before : (resolver.walk [] "ink.soft").1.answer [] = answer := by
    rw [(walk_faithful reachable.faithful [] "ink.soft").1,
      SourceRegistry.walk_of_chain chain (fun _ _ => List.not_mem_nil)]
    rfl
  have fresh : "web" ∉ splitInk.names := by decide
  obtain ⟨larger, pushed⟩ := SourceRegistry.exists_push fresh whiteInk
  have kept := (push_conservative pushed reachable .fresh [] "ink.soft").1 (.string "#101828")
  rw [before] at kept
  exact ⟨larger, pushed, reachable, before, kept rfl⟩

end Resolver

end DesignTokens
