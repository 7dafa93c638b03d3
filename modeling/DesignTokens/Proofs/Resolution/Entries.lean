/-
The entries that a resolver remembers.

Every entry is a chain from its path to a literal, and no path stands twice in
it. An entry is written after the walk onward has left its own entry, so the
later paths of a chain have entries as well (`Resolver.Closed`): what stands
there is the rest of the chain, with the same literal. Walks keep that whatever
trail they start with and however they end, and normalizing keeps what every
walk keeps.
-/
import Mathlib.Data.List.Chain
import DesignTokens.Proofs.Members
import DesignTokens.Proofs.Resolution.Halting

namespace DesignTokens

namespace SourceRegistry.Chain

variable {registry : SourceRegistry} {path : String} {steps : List String}
  {outcome : Option Value}

/-- Each path of a chain refers to the next one. -/
theorem linked (chain : registry.Chain path steps outcome) :
    steps.IsChain fun step next => registry.target? step = some next := by
  induction chain with
  | undefined => exact .singleton _
  | literal => exact .singleton _
  | onward found refers rest ih =>
      have leads := (target?_eq_some found).trans refers
      cases rest with
      | undefined => exact .cons_cons leads ih
      | literal => exact .cons_cons leads ih
      | onward => exact .cons_cons leads ih

theorem value?_walk {value : Value} (chain : registry.Chain path steps (some value)) :
    (registry.walk [] path).value? = some value := by
  rw [walk_of_chain chain fun _ _ => List.not_mem_nil]
  rfl

end SourceRegistry.Chain

namespace Resolver

variable {registry : SourceRegistry} {resolver : Resolver registry}

/-! ### What walks keep, normalizing keeps -/

section Kept

variable {kept : Resolver registry → Prop}

/-- The computation leaves a resolver of this kind when it starts with one. -/
def Keeps (kept : Resolver registry → Prop) {α : Type} (computation : Resolving registry α) :
    Prop :=
  ∀ resolver, kept resolver → kept (computation resolver).result.2

/-- Keeping a kind of resolvers, of which only one of two computations is asked. -/
def keeping (kept : Resolver registry → Prop) :
    Correspondence (Resolving registry) (Resolving registry) where
  Related computation _ := Keeps kept computation
  returning _ _ before := before
  sequencing first later resolver before := later _ _ (first resolver before)

variable (each : ∀ resolver trail path, kept resolver → kept (resolver.walk trail path).2)

include each

theorem follow_keeps (resolver : Resolver registry) (trail : Trail) (path : String)
    (before : kept resolver) : kept (resolver.follow trail path).result.2 := by
  induction resolver, trail, path using follow.induct with
  | case1 resolver trail path _ ended =>
      rw [follow_eq, ended]
      exact each resolver trail path before
  | case2 resolver trail path _ again ended =>
      rw [follow_eq, ended]
      exact each resolver trail path before
  | case3 resolver trail path _ value ended ih =>
      rw [follow_eq, ended]
      let onward : String → Resolving registry (Option Value) := fun target later =>
        later.follow (trail ++ (resolver.walk trail path).1.steps) target
      have below : ∀ target ∈ value.references,
          (keeping kept).Related (onward target) (onward target) :=
        fun target _ later held => ih target later held
      exact Value.normalWith_related (keeping kept) value below _ (each resolver trail path before)

theorem normalize_keeps (value : Value) (before : kept resolver) :
    kept (resolver.normalize value).result.2 := by
  let followed : String → Resolving registry (Option Value) := fun target later =>
    later.follow [] target
  have below : ∀ target ∈ value.references,
      (keeping kept).Related (followed target) (followed target) :=
    fun target _ later held => follow_keeps each later [] target held
  exact Value.normalWith_related (keeping kept) value below resolver before

omit each

end Kept

/-! ### Closed resolvers -/

/-- Every path of a remembered chain has an entry of its own. -/
def Closed (resolver : Resolver registry) : Prop :=
  ∀ path entry, resolver.cached? path = some entry →
    ∀ step ∈ entry.chain, (resolver.cached? step).isSome = true

/-- A resolver whose entries are chains, one for each path, with an entry for each of their
paths. -/
structure Sound (resolver : Resolver registry) : Prop where
  faithful : resolver.Faithful
  closed : resolver.Closed
  distinct : DistinctNames resolver.entries

theorem fresh_sound : (fresh registry).Sound where
  faithful := fresh_faithful
  closed := by
    intro path entry cached
    cases cached
  distinct := List.nodup_nil

section Remember

variable {path : String} {walk : Walk} (defined : path ∈ registry.definedPaths)
  (visited : path ∈ walk.steps)

theorem entries_remember {value : Value} (ended : walk.ending = .literal value) :
    (resolver.remember path walk defined visited).entries =
      putMember path ⟨value, walk.steps⟩ resolver.entries := by
  unfold remember
  split
  · rename_i other again
    cases ended.symm.trans again
    rfl
  · rename_i unended
    exact absurd ended (unended value)

theorem remember_of_unended (unended : ∀ value, walk.ending ≠ .literal value) :
    resolver.remember path walk defined visited = resolver := by
  unfold remember
  split
  · rename_i value ended
    exact absurd ended (unended value)
  · rfl

theorem cached?_remember_self {value : Value} (ended : walk.ending = .literal value) :
    (resolver.remember path walk defined visited).cached? path = some ⟨value, walk.steps⟩ := by
  rw [cached?, entries_remember defined visited ended, lookup_putMember_self]

theorem cached?_remember_of_ne {value : Value} (ended : walk.ending = .literal value)
    {other : String} (differs : other ≠ path) :
    (resolver.remember path walk defined visited).cached? other = resolver.cached? other := by
  rw [cached?, entries_remember defined visited ended, lookup_putMember_of_ne differs]
  rfl

theorem remember_sound (sound : resolver.Sound)
    (chain : ∀ value, walk.ending = .literal value →
      registry.Chain path walk.steps (some value))
    (known : ∀ value, walk.ending = .literal value →
      ∀ step ∈ walk.steps, step ≠ path → (resolver.cached? step).isSome = true) :
    (resolver.remember path walk defined visited).Sound := by
  by_cases finds : ∃ value, walk.ending = .literal value
  · obtain ⟨value, ended⟩ := finds
    have here : (resolver.remember path walk defined visited).cached? path =
        some ⟨value, walk.steps⟩ := cached?_remember_self defined visited ended
    have elsewhere := @cached?_remember_of_ne _ resolver _ _ defined visited _ ended
    -- An entry may be replaced, and none is lost.
    have keeps (step : String) (old : step ≠ path → (resolver.cached? step).isSome = true) :
        ((resolver.remember path walk defined visited).cached? step).isSome = true := by
      by_cases same : step = path
      · rw [same, here]
        rfl
      · rw [elsewhere same]
        exact old same
    refine ⟨remember_faithful sound.faithful chain defined visited, ?_, ?_⟩
    · intro other entry cached step among
      by_cases same : other = path
      · subst same
        cases here.symm.trans cached
        exact keeps step (known value ended step among)
      · rw [elsewhere same] at cached
        exact keeps step fun _ => sound.closed other entry cached step among
    · rw [entries_remember defined visited ended]
      exact sound.distinct.putMember path _
  · rw [remember_of_unended defined visited fun value ended => finds ⟨value, ended⟩]
    exact sound

end Remember

/-- A walk to a literal leaves an entry with its steps at its path. -/
theorem cached?_walk {trail : Trail} {path : String} {value : Value}
    (ended : (resolver.walk trail path).1.ending = .literal value) :
    (resolver.walk trail path).2.cached? path =
      some ⟨value, (resolver.walk trail path).1.steps⟩ := by
  induction trail, path using walk.induct resolver with
  | case1 trail path onTrail =>
      rw [walk_onTrail onTrail] at ended
      cases ended
  | case2 trail path fresh entry recalled =>
      rw [walk_remembered fresh recalled] at ended ⊢
      cases ended
      exact (Option.filter_eq_some_iff.mp recalled).1
  | case3 trail path fresh forgotten missing =>
      rw [walk_undefined fresh forgotten missing] at ended
      cases ended
  | case4 trail path fresh forgotten other found plain =>
      obtain ⟨defined, visited, same⟩ := walk_plain fresh forgotten found plain
      rw [same] at ended ⊢
      exact cached?_remember_self defined visited ended
  | case5 trail path fresh forgotten other found target refers =>
      obtain ⟨defined, visited, same⟩ := walk_reference fresh forgotten found refers
      rw [same] at ended ⊢
      exact cached?_remember_self defined visited ended

theorem walk_sound (sound : resolver.Sound) (trail : Trail) (path : String) :
    (resolver.walk trail path).2.Sound := by
  induction trail, path using walk.induct resolver with
  | case1 trail path onTrail =>
      rw [walk_onTrail onTrail]
      exact sound
  | case2 trail path fresh entry recalled =>
      rw [walk_remembered fresh recalled]
      exact sound
  | case3 trail path fresh forgotten missing =>
      rw [walk_undefined fresh forgotten missing]
      exact sound
  | case4 trail path fresh forgotten value found plain =>
      obtain ⟨defined, visited, same⟩ := walk_plain fresh forgotten found plain
      rw [same]
      refine remember_sound defined visited sound ?_ ?_
      · intro other ended
        cases ended
        exact .literal found plain
      · intro other _ step among differs
        exact absurd (List.mem_singleton.mp among) differs
  | case5 trail path fresh forgotten value found target refers ih =>
      obtain ⟨onwardSame, -⟩ := walk_faithful sound.faithful (trail ++ [path]) target
      obtain ⟨defined, visited, same⟩ := walk_reference fresh forgotten found refers
      rw [same]
      refine remember_sound defined visited ih ?_ ?_
      · intro literal ended
        have onward : (registry.walk (trail ++ [path]) target).ending =
            .ofOutcome (some literal) := onwardSame ▸ ended
        rw [onwardSame]
        exact .onward found refers (SourceRegistry.chain_of_walk onward).1
      · -- The walk onward has left the entry whose chain holds the later steps.
        intro literal ended step among differs
        have later := (List.mem_cons.mp among).resolve_left differs
        exact ih.closed target _ (cached?_walk ended) step later

theorem Reachable.sound (reachable : resolver.Reachable) : resolver.Sound := by
  have each (resolver : Resolver registry) (trail : Trail) (path : String)
      (sound : resolver.Sound) : (resolver.walk trail path).2.Sound := walk_sound sound trail path
  induction reachable with
  | fresh => exact fresh_sound
  | walk before trail path ih => exact each _ trail path ih
  | normalize before value ih => exact normalize_keeps each value ih
  | clear before ih => exact fresh_sound

/-! ### Entries -/

/-- The entry of a path holds the whole chain from the path to a literal, and every path of the
chain has the rest of the chain as its entry. -/
structure EntryOf (resolver : Resolver registry) (path : String) (entry : Remembered) : Prop where
  starts : entry.chain.head? = some path
  distinct : entry.chain.Nodup
  linked : entry.chain.IsChain fun step next =>
    ∃ value, registry.valueAt? step = some value ∧ value.reference? = some next
  ends : ∃ last, entry.chain.getLast? = some last ∧ registry.valueAt? last = some entry.value
  literal : entry.value.reference? = none
  suffixes : ∀ before step after, entry.chain = before ++ step :: after →
    (step, ⟨entry.value, step :: after⟩) ∈ resolver.entries

theorem Sound.cached?_of_suffix (sound : resolver.Sound) {path : String} {entry : Remembered}
    (cached : resolver.cached? path = some entry) {before after : List String} {step : String}
    (split : entry.chain = before ++ step :: after) :
    resolver.cached? step = some ⟨entry.value, step :: after⟩ := by
  have chain := sound.faithful path entry cached
  have among : step ∈ entry.chain := by
    rw [split]
    exact List.mem_append_right before List.mem_cons_self
  obtain ⟨⟨value, steps⟩, atStep⟩ :=
    Option.isSome_iff_exists.mp (sound.closed path entry cached step among)
  rw [split] at chain
  obtain ⟨sameSteps, sameValue⟩ :=
    chain.suffix.deterministic (sound.faithful step _ atStep)
  rw [atStep, sameSteps, Option.some.inj sameValue]

theorem Sound.entryOf (sound : resolver.Sound) {path : String} {entry : Remembered}
    (present : (path, entry) ∈ resolver.entries) : resolver.EntryOf path entry := by
  have cached : resolver.cached? path = some entry := lookup_of_mem sound.distinct present
  have chain := sound.faithful path entry cached
  obtain ⟨literal, ends⟩ := chain.exists_last_literal
  refine ⟨chain.head?, chain.nodup, ?_, ends, literal, ?_⟩
  · exact chain.linked.imp fun step next leads => Option.bind_eq_some_iff.mp leads
  · intro before step after split
    exact mem_of_lookup (sound.cached?_of_suffix cached split)

theorem Sound.value?_of_mem (sound : resolver.Sound) {path : String}
    (known : path ∈ memberNames resolver.entries) :
    ∃ value, (registry.walk [] path).value? = some value := by
  obtain ⟨⟨_, entry⟩, present, rfl⟩ := List.mem_map.mp known
  have cached := lookup_of_mem sound.distinct present
  exact ⟨entry.value, (sound.faithful _ entry cached).value?_walk⟩

/-- Whatever a resolver went through, no path has two entries, and every entry is as it should
be. So no path without a value has an entry, whether it is not defined, leads to one that is
not, or comes back to a path that it has met. -/
theorem entries_of_reachable (reachable : resolver.Reachable) :
    DistinctNames resolver.entries ∧
    (∀ path entry, (path, entry) ∈ resolver.entries → resolver.EntryOf path entry) ∧
    (∀ path, (registry.walk [] path).value? = none → path ∉ memberNames resolver.entries) ∧
    (∀ path, registry.valueAt? path = none → path ∉ memberNames resolver.entries) ∧
    ∀ path first again here, first < again → registry.stepAt? path first = some here →
      registry.stepAt? path again = some here → path ∉ memberNames resolver.entries := by
  have sound := reachable.sound
  have unknown (path : String) (without : (registry.walk [] path).value? = none) :
      path ∉ memberNames resolver.entries := by
    intro known
    obtain ⟨value, found⟩ := sound.value?_of_mem known
    cases without.symm.trans found
  refine ⟨sound.distinct, fun _ _ => sound.entryOf, unknown, ?_, ?_⟩
  · intro path missing
    apply unknown
    rw [SourceRegistry.walk_undefined List.not_mem_nil missing]
    rfl
  · intro path first again here before atFirst atAgain
    exact unknown path (SourceRegistry.value?_eq_none_of_cycle before atFirst atAgain)

/-- A color behind two aliases, and a token that refers to itself. -/
def aliasedInk : SourceRegistry :=
  .ofTokens [("alias", .string "{ink}"), ("ink", .string "{black}"),
    ("black", .string "#000000"), ("loop", .string "{loop}")]

theorem entries_of_aliasedInk :
    let resolver := (((fresh aliasedInk).walk [] "loop").2.walk ["other"] "alias").2
    resolver.Reachable ∧
      ("alias", ⟨.string "#000000", ["alias", "ink", "black"]⟩) ∈ resolver.entries ∧
      ("ink", ⟨.string "#000000", ["ink", "black"]⟩) ∈ resolver.entries ∧
      "loop" ∉ memberNames resolver.entries := by
  intro resolver
  have before : ((fresh aliasedInk).walk [] "loop").2.Reachable := .walk .fresh [] "loop"
  have reachable : resolver.Reachable := .walk before ["other"] "alias"
  have chain : aliasedInk.Chain "alias" ["alias", "ink", "black"] (some (.string "#000000")) :=
    .onward rfl rfl (.onward rfl rfl (.literal rfl rfl))
  have walked := (walk_faithful before.faithful ["other"] "alias").1
  rw [SourceRegistry.walk_of_chain chain (by decide)] at walked
  have cached := cached?_walk (congrArg Walk.ending walked)
  rw [walked] at cached
  have entry : ("alias", _) ∈ resolver.entries := mem_of_lookup cached
  obtain ⟨-, entries, -, -, acyclic⟩ := entries_of_reachable reachable
  refine ⟨reachable, entry, ?_, acyclic "loop" 0 1 "loop" (by decide) rfl (by decide)⟩
  exact (entries "alias" _ entry).suffixes ["alias"] "ink" ["black"] rfl

end Resolver

end DesignTokens
