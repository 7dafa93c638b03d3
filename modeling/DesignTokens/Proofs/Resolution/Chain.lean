/-
Reference chains, which no trail cuts short.

A chain that ends visits finitely many paths, each of them once, and comes to a
literal or to a path that no source defines. `walk_of_chain` and `chain_of_walk`
say that a walk which finds no circle is the chain from its path, and that it
meets its trail nowhere.
-/
import DesignTokens.Resolution.Walk

namespace DesignTokens

namespace Ending

/-- The ending of a walk that met no circle. -/
def ofOutcome : Option Value → Ending
  | some value => .literal value
  | none => .undefined

theorem ofOutcome_injective {left right : Option Value}
    (same : ofOutcome left = ofOutcome right) : left = right := by
  cases left <;> cases right <;> cases same <;> rfl

end Ending

namespace SourceRegistry

variable {registry : SourceRegistry}

/-! ### The cases of a walk -/

theorem walk_onTrail {trail : Trail} {path : String} (onTrail : path ∈ trail) :
    registry.walk trail path = ⟨[], .circular path⟩ := by
  rw [walk, dif_pos onTrail]

theorem walk_undefined {trail : Trail} {path : String} (fresh : path ∉ trail)
    (missing : registry.valueAt? path = none) :
    registry.walk trail path = ⟨[path], .undefined⟩ := by
  rw [walk, dif_neg fresh]
  split
  · rfl
  · rename_i found
    rw [missing] at found
    cases found

theorem walk_plain {trail : Trail} {path : String} {value : Value} (fresh : path ∉ trail)
    (found : registry.valueAt? path = some value) (plain : value.reference? = none) :
    registry.walk trail path = ⟨[path], .literal value⟩ := by
  rw [walk, dif_neg fresh]
  split
  · rename_i missing
    rw [found] at missing
    cases missing
  · rename_i other again
    obtain rfl := Option.some.inj (found.symm.trans again)
    rw [plain]

theorem walk_reference {trail : Trail} {path target : String} {value : Value}
    (fresh : path ∉ trail) (found : registry.valueAt? path = some value)
    (refers : value.reference? = some target) :
    registry.walk trail path = (registry.walk (trail ++ [path]) target).after path := by
  rw [walk, dif_neg fresh]
  split
  · rename_i missing
    rw [found] at missing
    cases missing
  · rename_i other again
    obtain rfl := Option.some.inj (found.symm.trans again)
    rw [refers]

/-! ### Chains that end -/

/-- The references from a path on, followed without a trail, visit these paths in order and
come to a literal, or to nothing at a path that is not defined. -/
inductive Chain (registry : SourceRegistry) : String → List String → Option Value → Prop
  | undefined {path : String} (missing : registry.valueAt? path = none) :
      Chain registry path [path] none
  | literal {path : String} {value : Value} (found : registry.valueAt? path = some value)
      (plain : value.reference? = none) : Chain registry path [path] (some value)
  | onward {path target : String} {value : Value} {steps : List String}
      {outcome : Option Value} (found : registry.valueAt? path = some value)
      (refers : value.reference? = some target)
      (rest : Chain registry target steps outcome) :
      Chain registry path (path :: steps) outcome

namespace Chain

variable {path : String} {steps : List String} {outcome : Option Value}

theorem deterministic (chain : registry.Chain path steps outcome) {others : List String}
    {other : Option Value} (again : registry.Chain path others other) :
    steps = others ∧ outcome = other := by
  induction chain generalizing others other with
  | undefined missing =>
      cases again with
      | undefined => exact ⟨rfl, rfl⟩
      | literal found => rw [missing] at found; cases found
      | onward found => rw [missing] at found; cases found
  | literal found plain =>
      cases again with
      | undefined missing => rw [found] at missing; cases missing
      | literal foundAgain =>
          rw [found] at foundAgain
          exact ⟨rfl, foundAgain⟩
      | onward foundAgain refers =>
          rw [found] at foundAgain
          cases foundAgain
          rw [plain] at refers
          cases refers
  | onward found refers rest ih =>
      cases again with
      | undefined missing => rw [found] at missing; cases missing
      | literal foundAgain plain =>
          rw [found] at foundAgain
          cases foundAgain
          rw [plain] at refers
          cases refers
      | onward foundAgain refersAgain restAgain =>
          rw [found] at foundAgain
          cases foundAgain
          rw [refers] at refersAgain
          cases refersAgain
          obtain ⟨sameSteps, sameOutcome⟩ := ih restAgain
          exact ⟨by rw [sameSteps], sameOutcome⟩

theorem head? (chain : registry.Chain path steps outcome) : steps.head? = some path := by
  cases chain <;> rfl

/-- From any of its paths on, a chain is the chain from that path. -/
theorem suffix {before after : List String} {step : String}
    (chain : registry.Chain path (before ++ step :: after) outcome) :
    registry.Chain step (step :: after) outcome := by
  induction before generalizing path with
  | nil =>
      cases chain.head?
      exact chain
  | cons first rest ih =>
      generalize whole : first :: rest ++ step :: after = steps at chain
      cases chain with
      | undefined => simp at whole
      | literal => simp at whole
      | onward _ _ further =>
          obtain ⟨-, later⟩ := List.cons.inj whole
          rw [← later] at further
          exact ih further

theorem exists_suffix (chain : registry.Chain path steps outcome) {step : String}
    (visited : step ∈ steps) :
    ∃ before after, steps = before ++ after ∧ registry.Chain step after outcome := by
  obtain ⟨before, after, rfl⟩ := List.append_of_mem visited
  exact ⟨before, step :: after, rfl, chain.suffix⟩

/-- The literal of a chain is the value at its last path. -/
theorem exists_last_literal {value : Value} (chain : registry.Chain path steps (some value)) :
    value.reference? = none ∧
      ∃ last, steps.getLast? = some last ∧ registry.valueAt? last = some value := by
  generalize ends : some value = outcome at chain
  induction chain with
  | undefined => cases ends
  | literal found plain =>
      cases ends
      exact ⟨plain, _, rfl, found⟩
  | onward _ _ _ ih =>
      obtain ⟨plain, last, isLast, found⟩ := ih ends
      refine ⟨plain, last, ?_, found⟩
      rw [List.getLast?_cons, isLast]
      rfl

/-- A chain that ends never comes back: the chain from a path that it visits again would be
as long as its own proper part. -/
theorem nodup (chain : registry.Chain path steps outcome) : steps.Nodup := by
  induction chain with
  | undefined => simp
  | literal => simp
  | onward found refers rest ih =>
      refine List.nodup_cons.mpr ⟨?_, ih⟩
      intro again
      obtain ⟨before, after, split, suffix⟩ := rest.exists_suffix again
      have whole := (Chain.onward found refers rest).deterministic suffix
      have lengths := congrArg List.length whole.1
      rw [split, List.length_cons, List.length_append] at lengths
      omega

end Chain

/-! ### Walks as chains -/

theorem walk_of_chain {path : String} {steps : List String} {outcome : Option Value}
    (chain : registry.Chain path steps outcome) {trail : Trail}
    (apart : ∀ step ∈ steps, step ∉ trail) :
    registry.walk trail path = ⟨steps, .ofOutcome outcome⟩ := by
  induction chain generalizing trail with
  | undefined missing => exact walk_undefined (apart _ (List.mem_singleton_self _)) missing
  | literal found plain => exact walk_plain (apart _ (List.mem_singleton_self _)) found plain
  | @onward path target value steps outcome found refers rest ih =>
      -- The trail gains `path`, and no later step is `path` again.
      have distinct := (Chain.onward found refers rest).nodup
      have later : ∀ step ∈ steps, step ∉ trail ++ [path] := by
        intro step visited onTrail
        rcases List.mem_append.mp onTrail with old | new
        · exact apart step (List.mem_cons_of_mem _ visited) old
        · rw [List.mem_singleton.mp new] at visited
          exact (List.nodup_cons.mp distinct).1 visited
      rw [walk_reference (apart path List.mem_cons_self) found refers, ih later]
      rfl

theorem chain_of_walk {trail : Trail} {path : String} {outcome : Option Value}
    (ended : (registry.walk trail path).ending = .ofOutcome outcome) :
    registry.Chain path (registry.walk trail path).steps outcome ∧
      ∀ step ∈ (registry.walk trail path).steps, step ∉ trail := by
  induction trail, path using walk.induct registry with
  | case1 trail path onTrail =>
      rw [walk_onTrail onTrail] at ended
      cases outcome <;> cases ended
  | case2 trail path fresh missing =>
      rw [walk_undefined fresh missing] at ended ⊢
      have same : Ending.ofOutcome none = Ending.ofOutcome outcome := ended
      obtain rfl := Ending.ofOutcome_injective same
      exact ⟨.undefined missing, by simpa using fresh⟩
  | case3 trail path fresh value found plain =>
      rw [walk_plain fresh found plain] at ended ⊢
      have same : Ending.ofOutcome (some value) = Ending.ofOutcome outcome := ended
      obtain rfl := Ending.ofOutcome_injective same
      exact ⟨.literal found plain, by simpa using fresh⟩
  | case4 trail path fresh value found target refers ih =>
      rw [walk_reference fresh found refers] at ended ⊢
      obtain ⟨rest, apart⟩ := ih ended
      refine ⟨.onward found refers rest, ?_⟩
      intro step visited
      rcases List.mem_cons.mp visited with first | later
      · rw [first]
        exact fresh
      · exact fun old => apart step later (List.mem_append_left _ old)

theorem exists_valueAt?_of_walk {trail : Trail} {path : String} {value : Value}
    (ended : (registry.walk trail path).ending = .literal value) :
    ∃ last, registry.valueAt? last = some value := by
  have finds : (registry.walk trail path).ending = .ofOutcome (some value) := ended
  obtain ⟨-, last, -, found⟩ := (chain_of_walk finds).1.exists_last_literal
  exact ⟨last, found⟩

/-- The registry of one source that has these values as tokens, and no groups. -/
def ofTokens (tokens : List (String × Value)) : SourceRegistry where
  sources := [⟨"core", ⟨none, tokens.map fun (name, value) => (name, .raw value)⟩⟩]
  distinct := List.nodup_cons.mpr ⟨List.not_mem_nil, List.nodup_nil⟩

end SourceRegistry

end DesignTokens
