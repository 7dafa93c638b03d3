/-
Bounds on following references.

A run is the course of one call, step by step: what it looks up, which calls it
makes in turn, and what comes back. Runs are finite and know no measure, so a
call that has a run comes to an end. Every walk and every normalization has
one, from every trail and with whatever the resolver remembers.

Each reference that is resolved puts a path on the trail that is defined and
was not there, also when the walk is remembered. So the paths of a registry
bound the calls of a walk, and the references that a normalization resolves
within one another.
-/
import Mathlib.Data.Set.Card
import DesignTokens.Proofs.Resolution.Memory

namespace DesignTokens

/-! ### How many paths are defined -/

theorem nodup_eraseDups (items : List String) : items.eraseDups.Nodup := by
  match items with
  | [] => exact List.nodup_nil
  | first :: rest =>
      rw [List.eraseDups_cons, List.nodup_cons]
      refine ⟨?_, nodup_eraseDups _⟩
      rw [List.mem_eraseDups, List.mem_filter]
      simp
termination_by items.length
decreasing_by
  have shorter := List.length_filter_le (fun item => !item == first) rest
  rw [List.length_cons]
  omega

namespace SourceRegistry

/-- How many paths the search of the registry succeeds for. -/
noncomputable def pathCount (registry : SourceRegistry) : Nat :=
  {path | (registry.find? path).isSome = true}.ncard

theorem unvisited_le_pathCount (registry : SourceRegistry) (trail : Trail) :
    registry.unvisited trail ≤ registry.pathCount := by
  have all : (registry.definedPaths.toFinset : Set String) =
      {path | (registry.find? path).isSome = true} := by
    ext path
    rw [Finset.mem_coe, List.mem_toFinset, mem_definedPaths_iff, Set.mem_ofPred_eq]
  have count : registry.definedPaths.length = registry.pathCount := by
    rw [pathCount, ← all, Set.ncard_coe_finset, definedPaths,
      List.toFinset_card_of_nodup (nodup_eraseDups _)]
  rw [← count]
  exact List.length_filter_le _ _

end SourceRegistry

namespace Resolver

variable {registry : SourceRegistry}

/-! ### The runs of a walk -/

/-- A walk from a path runs like this: so many calls, each made by the one before it, come to
this walk and leave this resolver. -/
inductive WalkRun : Resolver registry → Trail → String → Nat → Walk × Resolver registry → Prop
  | onTrail {resolver : Resolver registry} {trail : Trail} {path : String}
      (onTrail : path ∈ trail) : WalkRun resolver trail path 1 (⟨[], .circular path⟩, resolver)
  | remembered {resolver : Resolver registry} {trail : Trail} {path : String}
      {entry : Remembered} (fresh : path ∉ trail)
      (recalled : resolver.remembered? trail path = some entry) :
      WalkRun resolver trail path 1 (⟨entry.chain, .literal entry.value⟩, resolver)
  | undefined {resolver : Resolver registry} {trail : Trail} {path : String}
      (fresh : path ∉ trail) (forgotten : resolver.remembered? trail path = none)
      (missing : registry.valueAt? path = none) :
      WalkRun resolver trail path 1 (⟨[path], .undefined⟩, resolver)
  | literal {resolver : Resolver registry} {trail : Trail} {path : String} {value : Value}
      (fresh : path ∉ trail) (forgotten : resolver.remembered? trail path = none)
      (found : registry.valueAt? path = some value) (plain : value.reference? = none)
      (defined : path ∈ registry.definedPaths) (visited : path ∈ [path]) :
      WalkRun resolver trail path 1 (⟨[path], .literal value⟩,
        resolver.remember path ⟨[path], .literal value⟩ defined visited)
  | onward {resolver after : Resolver registry} {trail : Trail} {path target : String}
      {value : Value} {calls : Nat} {walk : Walk} (fresh : path ∉ trail)
      (forgotten : resolver.remembered? trail path = none)
      (found : registry.valueAt? path = some value) (refers : value.reference? = some target)
      (rest : WalkRun resolver (trail ++ [path]) target calls (walk, after))
      (defined : path ∈ registry.definedPaths) (visited : path ∈ (walk.after path).steps) :
      WalkRun resolver trail path (calls + 1) (walk.after path,
        after.remember path (walk.after path) defined visited)

theorem exists_walkRun (resolver : Resolver registry) (trail : Trail) (path : String) :
    ∃ calls, WalkRun resolver trail path calls (resolver.walk trail path) := by
  induction trail, path using walk.induct resolver with
  | case1 trail path onTrail =>
      rw [walk_onTrail onTrail]
      exact ⟨1, .onTrail onTrail⟩
  | case2 trail path fresh entry recalled =>
      rw [walk_remembered fresh recalled]
      exact ⟨1, .remembered fresh recalled⟩
  | case3 trail path fresh forgotten missing =>
      rw [walk_undefined fresh forgotten missing]
      exact ⟨1, .undefined fresh forgotten missing⟩
  | case4 trail path fresh forgotten value found plain =>
      obtain ⟨defined, visited, same⟩ := walk_plain fresh forgotten found plain
      rw [same]
      exact ⟨1, .literal fresh forgotten found plain defined visited⟩
  | case5 trail path fresh forgotten value found target refers ih =>
      obtain ⟨calls, rest⟩ := ih
      obtain ⟨defined, visited, same⟩ := walk_reference fresh forgotten found refers
      rw [same]
      exact ⟨calls + 1, .onward fresh forgotten found refers rest defined visited⟩

namespace WalkRun

variable {resolver : Resolver registry} {trail : Trail} {path : String} {calls : Nat}
  {outcome : Walk × Resolver registry}

theorem outcome_eq (run : WalkRun resolver trail path calls outcome) :
    outcome = resolver.walk trail path := by
  induction run with
  | onTrail onTrail => rw [walk_onTrail onTrail]
  | remembered fresh recalled => rw [walk_remembered fresh recalled]
  | undefined fresh forgotten missing => rw [walk_undefined fresh forgotten missing]
  | literal fresh forgotten found plain defined visited =>
      obtain ⟨_, _, same⟩ := walk_plain fresh forgotten found plain
      rw [same]
  | onward fresh forgotten found refers rest defined visited ih =>
      obtain ⟨_, _, same⟩ := walk_reference fresh forgotten found refers
      rw [same]
      simp only [← ih]

/-- A call that makes another one has put its path on the trail before. -/
theorem calls_le (run : WalkRun resolver trail path calls outcome) :
    calls ≤ registry.unvisited trail + 1 := by
  induction run with
  | onTrail => exact Nat.le_add_left _ _
  | remembered => exact Nat.le_add_left _ _
  | undefined => exact Nat.le_add_left _ _
  | literal => exact Nat.le_add_left _ _
  | onward fresh forgotten found refers rest defined visited ih =>
      have fewer := SourceRegistry.unvisited_append_lt defined fresh (List.mem_singleton_self _)
      omega

end WalkRun

/-! ### The runs of a normalization -/

mutual

/-- A normalization runs like this: at most so many references are resolved within one another,
the result and its warnings are these, and this resolver is left. -/
inductive NormalRun :
    Resolver registry → Trail → Value → Nat → Traced (Option Value × Resolver registry) → Prop
  | null {resolver : Resolver registry} {trail : Trail} :
      NormalRun resolver trail .null 0 ⟨(some .null, resolver), []⟩
  | bool {resolver : Resolver registry} {trail : Trail} (flag : Bool) :
      NormalRun resolver trail (.bool flag) 0 ⟨(some (.bool flag), resolver), []⟩
  | number {resolver : Resolver registry} {trail : Trail} (number : Number) :
      NormalRun resolver trail (.number number) 0 ⟨(some (.number number), resolver), []⟩
  | text {resolver : Resolver registry} {trail : Trail} {text : String}
      (plain : referencePath? text = none) :
      NormalRun resolver trail (.string text) 0 ⟨(some (.string text), resolver), []⟩
  | undefined {resolver after : Resolver registry} {trail : Trail} {text path : String}
      {calls : Nat} {walk : Walk} (refers : referencePath? text = some path)
      (walked : WalkRun resolver trail path calls (walk, after))
      (ended : walk.ending = .undefined) :
      NormalRun resolver trail (.string text) 0 ⟨(none, after), []⟩
  | circular {resolver after : Resolver registry} {trail : Trail} {text path again : String}
      {calls : Nat} {walk : Walk} (refers : referencePath? text = some path)
      (walked : WalkRun resolver trail path calls (walk, after))
      (ended : walk.ending = .circular again) :
      NormalRun resolver trail (.string text) 0 ⟨(none, after), [⟨again⟩]⟩
  | resolved {resolver after : Resolver registry} {trail : Trail} {text path : String}
      {calls nested : Nat} {walk : Walk} {literal : Value}
      {outcome : Traced (Option Value × Resolver registry)}
      (refers : referencePath? text = some path)
      (walked : WalkRun resolver trail path calls (walk, after))
      (ended : walk.ending = .literal literal)
      (further : NormalRun after (trail ++ walk.steps) literal nested outcome) :
      NormalRun resolver trail (.string text) (nested + 1) outcome
  | array {resolver after : Resolver registry} {trail : Trail} {items normal : List Value}
      {nested : Nat} {warnings : List CircularReference}
      (each : ItemsRun resolver trail items nested ⟨(normal, after), warnings⟩) :
      NormalRun resolver trail (.array items) nested ⟨(some (collapse normal), after), warnings⟩
  | object {resolver after : Resolver registry} {trail : Trail}
      {members normal : List (String × Value)} {nested : Nat}
      {warnings : List CircularReference}
      (each : MembersRun resolver trail members nested ⟨(normal, after), warnings⟩) :
      NormalRun resolver trail (.object members) nested ⟨(some (.object normal), after), warnings⟩

/-- Item by item, each with the resolver that the one before it left. -/
inductive ItemsRun : Resolver registry → Trail → List Value → Nat →
    Traced (List Value × Resolver registry) → Prop
  | nil {resolver : Resolver registry} {trail : Trail} :
      ItemsRun resolver trail [] 0 ⟨([], resolver), []⟩
  | cons {resolver between after : Resolver registry} {trail : Trail} {item : Value}
      {rest others : List Value} {nested deeper : Nat} {normal : Option Value}
      {warnings more : List CircularReference}
      (first : NormalRun resolver trail item nested ⟨(normal, between), warnings⟩)
      (later : ItemsRun between trail rest deeper ⟨(others, after), more⟩) :
      ItemsRun resolver trail (item :: rest) (max nested deeper)
        ⟨(normal.getD .null :: others, after), warnings ++ more⟩

/-- Member by member, without the undefined ones. -/
inductive MembersRun : Resolver registry → Trail → List (String × Value) → Nat →
    Traced (List (String × Value) × Resolver registry) → Prop
  | nil {resolver : Resolver registry} {trail : Trail} :
      MembersRun resolver trail [] 0 ⟨([], resolver), []⟩
  | kept {resolver between after : Resolver registry} {trail : Trail} {name : String}
      {value normal : Value} {rest others : List (String × Value)} {nested deeper : Nat}
      {warnings more : List CircularReference}
      (first : NormalRun resolver trail value nested ⟨(some normal, between), warnings⟩)
      (later : MembersRun between trail rest deeper ⟨(others, after), more⟩) :
      MembersRun resolver trail ((name, value) :: rest) (max nested deeper)
        ⟨((name, normal) :: others, after), warnings ++ more⟩
  | dropped {resolver between after : Resolver registry} {trail : Trail} {name : String}
      {value : Value} {rest others : List (String × Value)} {nested deeper : Nat}
      {warnings more : List CircularReference}
      (first : NormalRun resolver trail value nested ⟨(none, between), warnings⟩)
      (later : MembersRun between trail rest deeper ⟨(others, after), more⟩) :
      MembersRun resolver trail ((name, value) :: rest) (max nested deeper)
        ⟨(others, after), warnings ++ more⟩

end

/-! ### Every normalization has a run -/

/-- How the references inside a value are followed. -/
def following (trail : Trail) (path : String) : Resolving registry (Option Value) :=
  fun resolver => resolver.follow trail path

theorem normalItems_cons (trail : Trail) (item : Value) (rest : List Value)
    (resolver : Resolver registry) :
    Value.normalItems (following trail) (item :: rest) resolver =
      let first := resolver.normalizeIn trail item
      let later := Value.normalItems (following trail) rest first.result.2
      ⟨(first.result.1.getD .null :: later.result.1, later.result.2),
        first.warnings ++ later.warnings⟩ := by
  rw [Value.normalItems]
  -- All but the warnings of returning, which are none, is the same by unfolding the monads.
  exact congrArg (fun warnings => Traced.mk _ (_ ++ warnings)) (List.append_nil _)

theorem normalMembers_cons (trail : Trail) (name : String) (value : Value)
    (rest : List (String × Value)) (resolver : Resolver registry) :
    Value.normalMembers (following trail) ((name, value) :: rest) resolver =
      let first := resolver.normalizeIn trail value
      let later := Value.normalMembers (following trail) rest first.result.2
      ⟨(match first.result.1 with
          | some defined => (name, defined) :: later.result.1
          | none => later.result.1, later.result.2),
        first.warnings ++ later.warnings⟩ := by
  rw [Value.normalMembers]
  exact congrArg (fun warnings => Traced.mk _ (_ ++ warnings)) (List.append_nil _)

theorem normalizeIn_array (resolver : Resolver registry) (trail : Trail) (items : List Value) :
    resolver.normalizeIn trail (.array items) =
      let each := Value.normalItems (following trail) items resolver
      ⟨(some (collapse each.result.1), each.result.2), each.warnings⟩ := by
  rw [normalizeIn, Value.normalWith]
  exact congrArg (Traced.mk _) (List.append_nil _)

theorem normalizeIn_object (resolver : Resolver registry) (trail : Trail)
    (members : List (String × Value)) :
    resolver.normalizeIn trail (.object members) =
      let each := Value.normalMembers (following trail) members resolver
      ⟨(some (.object each.result.1), each.result.2), each.warnings⟩ := by
  rw [normalizeIn, Value.normalWith]
  exact congrArg (Traced.mk _) (List.append_nil _)

theorem normalizeIn_reference (resolver : Resolver registry) (trail : Trail) {text path : String}
    (refers : referencePath? text = some path) :
    resolver.normalizeIn trail (.string text) = resolver.follow trail path := by
  rw [normalizeIn, Value.normalWith, refers]
  rfl

theorem normalizeIn_plain (resolver : Resolver registry) (trail : Trail) {text : String}
    (plain : referencePath? text = none) :
    resolver.normalizeIn trail (.string text) = ⟨(some (.string text), resolver), []⟩ := by
  rw [normalizeIn, Value.normalWith, plain]
  rfl

section Existence

variable {trail : Trail}

mutual

theorem exists_normalRun_of_follow
    (each : ∀ (resolver : Resolver registry) (text path : String),
      referencePath? text = some path →
        ∃ nested, NormalRun resolver trail (.string text) nested (resolver.follow trail path)) :
    (value : Value) → (resolver : Resolver registry) →
      ∃ nested, NormalRun resolver trail value nested (resolver.normalizeIn trail value)
  | .string text, resolver => by
      cases refers : referencePath? text with
      | some path =>
          rw [normalizeIn_reference resolver trail refers]
          exact each resolver text path refers
      | none =>
          rw [normalizeIn_plain resolver trail refers]
          exact ⟨0, .text refers⟩
  | .array items, resolver => by
      obtain ⟨nested, run⟩ := exists_itemsRun_of_follow each items resolver
      rw [normalizeIn_array]
      exact ⟨nested, .array run⟩
  | .object members, resolver => by
      obtain ⟨nested, run⟩ := exists_membersRun_of_follow each members resolver
      rw [normalizeIn_object]
      exact ⟨nested, .object run⟩
  | .null, _ => ⟨0, .null⟩
  | .bool flag, _ => ⟨0, .bool flag⟩
  | .number number, _ => ⟨0, .number number⟩

theorem exists_itemsRun_of_follow
    (each : ∀ (resolver : Resolver registry) (text path : String),
      referencePath? text = some path →
        ∃ nested, NormalRun resolver trail (.string text) nested (resolver.follow trail path)) :
    (items : List Value) → (resolver : Resolver registry) →
      ∃ nested, ItemsRun resolver trail items nested
        (Value.normalItems (following trail) items resolver)
  | [], _ => ⟨0, .nil⟩
  | item :: rest, resolver => by
      obtain ⟨nested, first⟩ := exists_normalRun_of_follow each item resolver
      obtain ⟨deeper, later⟩ := exists_itemsRun_of_follow each rest
        (resolver.normalizeIn trail item).result.2
      rw [normalItems_cons]
      exact ⟨max nested deeper, .cons first later⟩

theorem exists_membersRun_of_follow
    (each : ∀ (resolver : Resolver registry) (text path : String),
      referencePath? text = some path →
        ∃ nested, NormalRun resolver trail (.string text) nested (resolver.follow trail path)) :
    (members : List (String × Value)) → (resolver : Resolver registry) →
      ∃ nested, MembersRun resolver trail members nested
        (Value.normalMembers (following trail) members resolver)
  | [], _ => ⟨0, .nil⟩
  | (name, value) :: rest, resolver => by
      obtain ⟨nested, first⟩ := exists_normalRun_of_follow each value resolver
      obtain ⟨deeper, later⟩ := exists_membersRun_of_follow each rest
        (resolver.normalizeIn trail value).result.2
      rw [normalMembers_cons]
      refine ⟨max nested deeper, ?_⟩
      generalize resolver.normalizeIn trail value = outcome at first later ⊢
      obtain ⟨⟨normal, between⟩, warnings⟩ := outcome
      cases normal with
      | some defined => exact .kept first later
      | none => exact .dropped first later

end

end Existence

theorem exists_normalRun_follow (resolver : Resolver registry) (trail : Trail) (path : String) :
    ∀ text, referencePath? text = some path →
      ∃ nested, NormalRun resolver trail (.string text) nested (resolver.follow trail path) := by
  induction resolver, trail, path using follow.induct with
  | case1 resolver trail path walked ended =>
      intro text refers
      obtain ⟨calls, run⟩ := exists_walkRun resolver trail path
      rw [follow_eq, ended]
      exact ⟨0, .undefined refers run ended⟩
  | case2 resolver trail path walked again ended =>
      intro text refers
      obtain ⟨calls, run⟩ := exists_walkRun resolver trail path
      rw [follow_eq, ended]
      exact ⟨0, .circular refers run ended⟩
  | case3 resolver trail path walked value ended ih =>
      intro text refers
      obtain ⟨calls, run⟩ := exists_walkRun resolver trail path
      obtain ⟨nested, further⟩ := exists_normalRun_of_follow
        (fun later text target refers => ih target later text refers) value walked.2
      rw [follow_eq, ended]
      exact ⟨nested + 1, .resolved refers run ended further⟩

theorem exists_normalRun (resolver : Resolver registry) (trail : Trail) (value : Value) :
    ∃ nested, NormalRun resolver trail value nested (resolver.normalizeIn trail value) :=
  exists_normalRun_of_follow
    (fun later text path refers => exists_normalRun_follow later trail path text refers)
    value resolver

/-! ### What a run comes to, and how deep it goes -/

mutual

theorem NormalRun.outcome_eq {resolver : Resolver registry} {trail : Trail}
    {value : Value} {nested : Nat} {outcome : Traced (Option Value × Resolver registry)} :
    NormalRun resolver trail value nested outcome →
      outcome = resolver.normalizeIn trail value
  | .null => rfl
  | .bool _ => rfl
  | .number _ => rfl
  | .text plain => (normalizeIn_plain resolver trail plain).symm
  | .undefined refers walked ended => by
      rw [normalizeIn_reference resolver trail refers, follow_eq, ← walked.outcome_eq, ended]
  | .circular refers walked ended => by
      rw [normalizeIn_reference resolver trail refers, follow_eq, ← walked.outcome_eq, ended]
  | .resolved refers walked ended further => by
      rw [normalizeIn_reference resolver trail refers, follow_eq, ← walked.outcome_eq, ended]
      exact further.outcome_eq
  | .array each => by
      rw [normalizeIn_array, ← each.outcome_eq]
  | .object each => by
      rw [normalizeIn_object, ← each.outcome_eq]

theorem ItemsRun.outcome_eq {resolver : Resolver registry} {trail : Trail}
    {items : List Value} {nested : Nat} {outcome : Traced (List Value × Resolver registry)} :
    ItemsRun resolver trail items nested outcome →
      outcome = Value.normalItems (following trail) items resolver
  | .nil => rfl
  | .cons first later => by
      rw [normalItems_cons, ← first.outcome_eq]
      dsimp only
      rw [← later.outcome_eq]

theorem MembersRun.outcome_eq {resolver : Resolver registry} {trail : Trail}
    {members : List (String × Value)} {nested : Nat}
    {outcome : Traced (List (String × Value) × Resolver registry)} :
    MembersRun resolver trail members nested outcome →
      outcome = Value.normalMembers (following trail) members resolver
  | .nil => rfl
  | .kept first later => by
      rw [normalMembers_cons, ← first.outcome_eq]
      dsimp only
      rw [← later.outcome_eq]
  | .dropped first later => by
      rw [normalMembers_cons, ← first.outcome_eq]
      dsimp only
      rw [← later.outcome_eq]

end

mutual

/-- A resolved reference leaves fewer paths to visit for all that is nested in it. -/
theorem NormalRun.nested_le {resolver : Resolver registry} {trail : Trail}
    {value : Value} {nested : Nat} {outcome : Traced (Option Value × Resolver registry)} :
    NormalRun resolver trail value nested outcome → nested ≤ registry.unvisited trail
  | .null => Nat.zero_le _
  | .bool _ => Nat.zero_le _
  | .number _ => Nat.zero_le _
  | .text _ => Nat.zero_le _
  | .undefined .. => Nat.zero_le _
  | .circular .. => Nat.zero_le _
  | .resolved refers walked ended further => by
      have inner := further.nested_le
      have same := congrArg Prod.fst walked.outcome_eq
      dsimp only at same
      rw [same] at ended inner
      obtain ⟨defined, fresh, visited⟩ := walk_literal ended
      have fewer := SourceRegistry.unvisited_append_lt defined fresh visited
      omega
  | .array each => each.nested_le
  | .object each => each.nested_le

theorem ItemsRun.nested_le {resolver : Resolver registry} {trail : Trail}
    {items : List Value} {nested : Nat} {outcome : Traced (List Value × Resolver registry)} :
    ItemsRun resolver trail items nested outcome → nested ≤ registry.unvisited trail
  | .nil => Nat.zero_le _
  | .cons first later => Nat.max_le.mpr ⟨first.nested_le, later.nested_le⟩

theorem MembersRun.nested_le {resolver : Resolver registry} {trail : Trail}
    {members : List (String × Value)} {nested : Nat}
    {outcome : Traced (List (String × Value) × Resolver registry)} :
    MembersRun resolver trail members nested outcome → nested ≤ registry.unvisited trail
  | .nil => Nat.zero_le _
  | .kept first later => Nat.max_le.mpr ⟨first.nested_le, later.nested_le⟩
  | .dropped first later => Nat.max_le.mpr ⟨first.nested_le, later.nested_le⟩

end

/-- Walking and normalizing come to an end, from every trail and in every state of the memory:
they have a run, and no run with another outcome. A walk takes at most one call more than there
are defined paths, and at most as many references are resolved within one another as there are
defined paths. -/
theorem runs_within_pathCount (resolver : Resolver registry) (trail : Trail) :
    (∀ path, (∃ calls, WalkRun resolver trail path calls (resolver.walk trail path)) ∧
      ∀ calls outcome, WalkRun resolver trail path calls outcome →
        outcome = resolver.walk trail path ∧ calls ≤ registry.pathCount + 1) ∧
    (∀ value, (∃ nested, NormalRun resolver trail value nested (resolver.normalizeIn trail value)) ∧
      ∀ nested outcome, NormalRun resolver trail value nested outcome →
        outcome = resolver.normalizeIn trail value ∧ nested ≤ registry.pathCount) := by
  have within := registry.unvisited_le_pathCount trail
  constructor
  · intro path
    refine ⟨exists_walkRun resolver trail path, ?_⟩
    intro calls outcome run
    exact ⟨run.outcome_eq, run.calls_le.trans (Nat.add_le_add_right within 1)⟩
  · intro value
    refine ⟨exists_normalRun resolver trail value, ?_⟩
    intro nested outcome run
    exact ⟨run.outcome_eq, run.nested_le.trans within⟩

end Resolver

end DesignTokens
