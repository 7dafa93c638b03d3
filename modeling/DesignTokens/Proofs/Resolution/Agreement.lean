/-
Registries that agree on what is reached.

Walking and normalizing see of a registry only the values at the paths that they
come to. Two registries that have the same values there, from some paths on
and for ever, are one to every walk and every normalization that starts at
these paths.
-/
import DesignTokens.Proofs.Resolution.Expansion

namespace DesignTokens

namespace SourceRegistry

/-- At these paths both registries have the same values, which refer to these paths only. -/
structure AgreeOn (left right : SourceRegistry) (reached : String → Prop) : Prop where
  same : ∀ path, reached path → left.valueAt? path = right.valueAt? path
  onward : ∀ path value, reached path → left.valueAt? path = some value →
    ∀ lower ∈ value.references, reached lower

namespace AgreeOn

variable {left right : SourceRegistry} {reached : String → Prop}

theorem walk_eq (agree : left.AgreeOn right reached) (trail : Trail) (path : String)
    (start : reached path) : left.walk trail path = right.walk trail path := by
  induction trail, path using walk.induct left with
  | case1 trail path onTrail => rw [walk_onTrail onTrail, walk_onTrail onTrail]
  | case2 trail path fresh missing =>
      have alsoMissing := (agree.same path start).symm.trans missing
      rw [walk_undefined fresh missing, walk_undefined fresh alsoMissing]
  | case3 trail path fresh value found plain =>
      have alsoFound := (agree.same path start).symm.trans found
      rw [walk_plain fresh found plain, walk_plain fresh alsoFound plain]
  | case4 trail path fresh value found target refers ih =>
      have alsoFound := (agree.same path start).symm.trans found
      have next : reached target := agree.onward path value start found target (by
        rw [Value.references_of_reference refers]
        exact List.mem_cons_self)
      rw [walk_reference fresh found refers, walk_reference fresh alsoFound refers, ih next]

theorem reached_of_chain (agree : left.AgreeOn right reached) {path : String}
    {steps : List String} {literal : Value} (chain : left.Chain path steps (some literal))
    (start : reached path) : ∀ lower ∈ literal.references, reached lower := by
  generalize ends : some literal = outcome at chain
  induction chain with
  | undefined => cases ends
  | literal found plain =>
      cases ends
      exact agree.onward _ literal start found
  | onward found refers rest ih =>
      refine ih (agree.onward _ _ start found _ ?_) ends
      rw [Value.references_of_reference refers]
      exact List.mem_cons_self

theorem follow_eq (agree : left.AgreeOn right reached) (trail : Trail) (path : String)
    (start : reached path) : left.follow trail path = right.follow trail path := by
  induction trail, path using follow.induct left with
  | case1 trail path walk ended =>
      rw [SourceRegistry.follow_eq, SourceRegistry.follow_eq, ← agree.walk_eq trail path start,
        ended]
  | case2 trail path walk again ended =>
      rw [SourceRegistry.follow_eq, SourceRegistry.follow_eq, ← agree.walk_eq trail path start,
        ended]
  | case3 trail path walk value ended ih =>
      have literal : (left.walk trail path).ending = .ofOutcome (some value) := ended
      have inside := agree.reached_of_chain (chain_of_walk literal).1 start
      rw [SourceRegistry.follow_eq, SourceRegistry.follow_eq, ← agree.walk_eq trail path start,
        ended]
      exact Value.normalWith_congr value (fun lower refers => ih lower (inside lower refers))

theorem normalize_eq (agree : left.AgreeOn right reached) {value : Value}
    (inside : ∀ lower ∈ value.references, reached lower) :
    left.normalize value = right.normalize value :=
  Value.normalWith_congr value (fun lower refers => agree.follow_eq [] lower (inside lower refers))

end AgreeOn

end SourceRegistry

end DesignTokens
