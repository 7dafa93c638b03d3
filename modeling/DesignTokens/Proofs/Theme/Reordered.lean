/-
Order and metadata do not show in a theme.

Registries and trees that are equal without their kinds and descriptions give
equal values for every path, equal normal forms and equal maps. Equality does not
see the order of members, and no warning is won or lost.
-/
import Mathlib.Data.List.Perm.Basic
import DesignTokens.Proofs.Resolution.Reordered
import DesignTokens.Proofs.Theme.Slots

namespace DesignTokens

/-! ### Matching maps -/

/-- Slots with the same keys in order and matching contents. -/
def SlotsMatch (slots others : TokenCategory) : Prop :=
  DistinctNames slots ∧ List.Forall₂ (SameNamed (Option.Rel Value.Matches)) slots others

namespace TokenMap

/-- Maps with the same categories in order and matching slots. -/
structure Matches (left right : TokenMap) : Prop where
  distinct : DistinctNames left.categories
  categories : List.Forall₂ (SameNamed SlotsMatch) left.categories right.categories

namespace Matches

variable {left right : TokenMap}

theorem empty : Matches .empty .empty := ⟨List.nodup_nil, .nil⟩

theorem insert (matched : left.Matches right) (category key : String)
    {content other : Option Value} (same : Option.Rel Value.Matches content other) :
    (left.insert category key content).Matches (right.insert category key other) := by
  have slots : SlotsMatch ((left.category? category).getD [])
      ((right.category? category).getD []) := by
    have there := lookup_of_forall₂ matched.categories category
    rw [category?, category?]
    generalize left.categories.lookup category = atLeft at there ⊢
    generalize right.categories.lookup category = atRight at there ⊢
    cases there with
    | none => exact ⟨List.nodup_nil, .nil⟩
    | some both => exact both
  have filled := putMember_forall₂ slots.2 key same
  exact ⟨matched.distinct.putMember _ _,
    putMember_forall₂ matched.categories category ⟨slots.1.putMember _ _, filled⟩⟩

theorem equals (matched : left.Matches right) : left.equals right = true := by
  unfold TokenMap.equals
  rw [Bool.and_eq_true, beq_iff_eq, List.all_eq_true]
  refine ⟨matched.categories.length_eq, ?_⟩
  rintro ⟨category, slots⟩ present
  obtain ⟨others, found, distinct, same⟩ :=
    (SameMembers.of_forall₂ matched.categories).exists_of_mem matched.distinct present
  dsimp only
  rw [category?, found]
  dsimp only
  rw [Bool.and_eq_true, beq_iff_eq, List.all_eq_true]
  refine ⟨same.length_eq, ?_⟩
  rintro ⟨key, content⟩ inside
  obtain ⟨other, atKey, contents⟩ :=
    (SameMembers.of_forall₂ same).exists_of_mem distinct inside
  dsimp only
  rw [atKey]
  cases contents with
  | none => rfl
  | some both => exact both.2

end Matches

theorem ofEntries_matches {content other : ManifestEntry → Option Value}
    (same : ∀ entry, Option.Rel Value.Matches (content entry) (other entry))
    (entries : List ManifestEntry) :
    (ofEntries content entries).Matches (ofEntries other entries) := by
  induction entries using List.reverseRecOn with
  | nil => exact .empty
  | append_singleton entries last ih =>
      rw [ofEntries_concat, ofEntries_concat]
      exact ih.insert last.category last.key (same last)

end TokenMap

/-! ### Building for matching registries -/

namespace SourceRegistry.Matches

variable {left right : SourceRegistry} {theme otherTheme : TokenTree}

theorem definition?_rel (matched : left.Matches right) (themes : theme.Matches otherTheme)
    (entry : ManifestEntry) :
    Option.Rel TokenNode.Matches (entry.definition? left theme)
      (entry.definition? right otherTheme) := by
  unfold ManifestEntry.definition?
  cases entry.origin with
  | theme => exact themes.lookup?_rel entry.path
  | source name =>
      exact rel_bind (matched.tree?_rel name) fun _ _ trees => trees.lookup?_rel entry.path

theorem normalizeNode_reordered (matched : left.Matches right) {node other : Option TokenNode}
    (same : Option.Rel TokenNode.Matches node other) :
    (left.normalizeNode node).Reordered (Option.Rel Value.Matches)
      (right.normalizeNode other) := by
  cases same with
  | none => exact .pure .none
  | some both => exact matched.normalizeIn_reordered [] both.toValue

theorem plainMap_reordered (matched : left.Matches right) (themes : theme.Matches otherTheme)
    (manifest : Manifest) :
    (left.plainMap manifest theme).Reordered TokenMap.Matches
      (right.plainMap manifest otherTheme) := by
  have each (entry : ManifestEntry) :=
    matched.normalizeNode_reordered (matched.definition?_rel themes entry)
  refine ⟨TokenMap.ofEntries_matches ?_ manifest.entries, ?_⟩
  · intro entry
    rw [ManifestEntry.published, ManifestEntry.published, ← Resolver.normalizeNode_result,
      ← Resolver.normalizeNode_result]
    exact (each entry).result
  · exact .flatMap_left _ fun entry _ => (each entry).warnings

end SourceRegistry.Matches

/-! ### Equal but for metadata -/

/-- The registries have the same source names in order, and trees that are equal without their
kinds and descriptions. -/
def SourceRegistry.SameContent (left right : SourceRegistry) : Prop :=
  List.Forall₂ (fun source other =>
    source.name = other.name ∧ source.tree.bare.equals other.tree.bare = true)
    left.sources right.sources

theorem SourceRegistry.SameContent.matches {left right : SourceRegistry}
    (same : left.SameContent right) (wellFormed : left.WellFormed) : left.Matches right := by
  unfold WellFormed at wellFormed
  unfold SameContent at same
  unfold Matches
  generalize left.sources = sources, right.sources = others at wellFormed same ⊢
  induction same with
  | nil => exact .nil
  | @cons source other rest _ pair _ ih =>
      have tree := TokenTree.matches_iff.mpr ⟨wellFormed source List.mem_cons_self, pair.2⟩
      exact .cons ⟨pair.1, tree⟩ (ih fun later present =>
        wellFormed later (List.mem_cons_of_mem _ present))

namespace Resolver

variable {left right : SourceRegistry} {resolver : Resolver left} {other : Resolver right}

/-- Equality of what may be undefined: undefined on both sides, or equal values. -/
def SameOutcome (outcome another : Option Value) : Prop :=
  Option.Rel (fun value other => value.equals other = true) outcome another

theorem sameOutcome_of_rel {outcome another : Option Value}
    (same : Option.Rel Value.Matches outcome another) : SameOutcome outcome another := by
  cases same with
  | none => exact .none
  | some both => exact .some both.2

/-- Two registries of equal content, whatever the order of the children and members and whatever
the metadata, are one to every resolver: each walk visits the same paths, comes to equal values
and gives the same warnings; equal values have equal normal forms, and trees of equal content
equal maps, both with the same warnings up to order. -/
theorem order_and_metadata_do_not_show (wellFormed : left.WellFormed)
    (same : left.SameContent right) (reachable : resolver.Reachable)
    (otherReachable : other.Reachable) :
    (∀ trail path,
      let walk := (resolver.walk trail path).1
      let otherWalk := (other.walk trail path).1
      SameOutcome walk.value? otherWalk.value? ∧ walk.steps = otherWalk.steps ∧
        walk.warnings = otherWalk.warnings) ∧
    (∀ value another : Value, value.WellFormed → value.equals another = true →
      let normal := resolver.normalize value
      let otherNormal := other.normalize another
      SameOutcome normal.result.1 otherNormal.result.1 ∧
        normal.warnings.Perm otherNormal.warnings) ∧
    (∀ (manifest : Manifest) (theme otherTheme : TokenTree), theme.WellFormed →
      theme.bare.equals otherTheme.bare = true →
      let built := resolver.buildMap manifest theme
      let otherBuilt := other.buildMap manifest otherTheme
      built.result.1.equals otherBuilt.result.1 = true ∧
        built.warnings.Perm otherBuilt.warnings) := by
  have matched := same.matches wellFormed
  refine ⟨?_, ?_, ?_⟩
  · intro trail path walk otherWalk
    have walks := matched.walk_matches trail path
    have plain : walk = left.walk trail path := (walk_faithful reachable.faithful trail path).1
    have otherPlain : otherWalk = right.walk trail path :=
      (walk_faithful otherReachable.faithful trail path).1
    rw [plain, otherPlain]
    exact ⟨sameOutcome_of_rel walks.value?_rel, walks.steps, walks.warnings_eq⟩
  · intro value another wellFormedValue equal normal otherNormal
    have normals := matched.normalizeIn_reordered [] ⟨wellFormedValue, equal⟩
    obtain ⟨results, warnings⟩ :=
      (normalizeIn_simulates [] value).reordered (normalizeIn_simulates [] another) normals
        reachable.faithful otherReachable.faithful
    exact ⟨sameOutcome_of_rel results, warnings⟩
  · intro manifest theme otherTheme wellFormedTheme equal built otherBuilt
    have themes := TokenTree.matches_iff.mpr ⟨wellFormedTheme, equal⟩
    obtain ⟨maps, warnings⟩ :=
      (buildMap_simulates manifest theme).reordered (buildMap_simulates manifest otherTheme)
        (matched.plainMap_reordered themes manifest) reachable.faithful otherReachable.faithful
    exact ⟨maps.equals, warnings⟩

def softLayer (color : String) : Value :=
  .object [("x", .number (.zero false)), ("y", .number (.zero false)), ("blur", .string "4"),
    ("spread", .number (.zero false)), ("color", .string color)]

/-- The source of a shadow, a circle of two and an ink. -/
def inkedShadow : SourceRegistry where
  sources := [⟨"core", ⟨none, [
    ("soft", .leaf ⟨.array [softLayer "{ink}"], some "boxShadow", none⟩),
    ("ring", .group none [("a", .raw (.string "{ring.b}")), ("b", .raw (.string "{ring.a}"))]),
    ("ink", .raw (.string "#000000"))]⟩⟩]
  distinct := List.nodup_cons.mpr ⟨List.not_mem_nil, List.nodup_nil⟩

/-- The same source written the other way round, with other zeros and other metadata. -/
def turnedShadow : SourceRegistry where
  sources := [⟨"core", ⟨some "theme", [
    ("ink", .leaf ⟨.string "#000000", some "color", some "black"⟩),
    ("ring", .group (some "circle") [
      ("b", .raw (.string "{ring.a}")), ("a", .raw (.string "{ring.b}"))]),
    ("soft", .raw (.array [.object [("color", .string "{ink}"),
      ("spread", .number (.zero true)), ("blur", .string "4"), ("y", .number (.zero false)),
      ("x", .number (.zero true))]]))]⟩⟩]
  distinct := List.nodup_cons.mpr ⟨List.not_mem_nil, List.nodup_nil⟩

theorem inkedShadow_wellFormed : inkedShadow.WellFormed := by decide

theorem collapse_softLayer :
    collapse [softLayer "#000000"] = .string "0px 0px 4px 0px #000000" := by
  have text : (collapse [softLayer "#000000"]).string? = some "0px 0px 4px 0px #000000" := by
    decide +kernel
  generalize collapse [softLayer "#000000"] = value at text ⊢
  cases value with
  | string written => exact congrArg Value.string (Option.some.inj text)
  | _ => cases text

theorem inkedShadow_expands :
    inkedShadow.Expands (.string "{soft}") (some (.string "0px 0px 4px 0px #000000")) := by
  have ink : inkedShadow.Expands (.string "{ink}") (some (.string "#000000")) :=
    .reference rfl (.literal rfl rfl) (.text rfl)
  have layer : inkedShadow.Expands (softLayer "{ink}") (some (softLayer "#000000")) :=
    .object (.kept (.number _) (.kept (.number _) (.kept (.text rfl)
      (.kept (.number _) (.kept ink .nil)))))
  rw [← collapse_softLayer]
  exact .reference rfl (.literal rfl rfl) (.array (.cons layer .nil))

/-- A theme token for the shadow and one for the circle. -/
def shadowTheme : TokenTree :=
  ⟨none, [("text", .raw (.string "{soft}")), ("loop", .raw (.string "{ring}"))]⟩

def turnedTheme : TokenTree :=
  ⟨some "light", [("loop", .raw (.string "{ring}")),
    ("text", .leaf ⟨.string "{soft}", none, some "a shadow"⟩)]⟩

def shadowManifest : Manifest :=
  ⟨[⟨"line", "text", .theme, "text"⟩, ⟨"line", "loop", .theme, "loop"⟩]⟩

theorem order_and_metadata_of_turnedShadow :
    let resolver := fresh inkedShadow
    let other := ((fresh turnedShadow).walk [] "ring.a").2
    let built := resolver.buildMap shadowManifest shadowTheme
    let otherBuilt := other.buildMap shadowManifest turnedTheme
    inkedShadow.WellFormed ∧ inkedShadow.SameContent turnedShadow ∧
      resolver.Reachable ∧ other.Reachable ∧
      shadowTheme.WellFormed ∧ shadowTheme.bare.equals turnedTheme.bare = true ∧
      (other.normalize (.string "{soft}")).result.1 =
        some (.string "0px 0px 4px 0px #000000") ∧
      built.result.1.equals otherBuilt.result.1 = true ∧
      built.warnings.Perm otherBuilt.warnings := by
  intro resolver other built otherBuilt
  have same : inkedShadow.SameContent turnedShadow := .cons ⟨rfl, by decide⟩ .nil
  have reachable : resolver.Reachable := .fresh
  have otherReachable : other.Reachable := .walk .fresh [] "ring.a"
  have wellFormedTheme : shadowTheme.WellFormed := by decide
  have themes : shadowTheme.bare.equals turnedTheme.bare = true := by decide
  obtain ⟨-, normals, maps⟩ :=
    order_and_metadata_do_not_show inkedShadow_wellFormed same reachable otherReachable
  obtain ⟨normal, -⟩ := normals (.string "{soft}") (.string "{soft}") trivial (by decide)
  rw [(normalize_of_expands reachable inkedShadow_expands).1] at normal
  obtain ⟨text, result, equal⟩ := exists_of_rel normal rfl
  have written : text = .string "0px 0px 4px 0px #000000" := by
    cases text with
    | string text => rw [(eq_of_beq equal : _ = text)]
    | _ => cases equal
  rw [written] at result
  obtain ⟨sameMap, warnings⟩ := maps shadowManifest shadowTheme turnedTheme wellFormedTheme themes
  exact ⟨inkedShadow_wellFormed, same, reachable, otherReachable, wellFormedTheme, themes, result,
    sameMap, warnings⟩

end Resolver

end DesignTokens
