/-
What the dark theme sees of the light one.

The search knows no themes: a reference goes to the first source that defines
its path, and the light source may be that one, also for a reference in the
dark source. So the dark map can depend on the light tree. It does not as soon
as shared sources refer to paths of the leading sources only, no reference of
the dark source lands in the light one, and the manifest takes nothing from
the light source by name.
-/
import Mathlib.Data.List.Forall2
import Mathlib.Data.List.TakeWhile
import DesignTokens.Proofs.Resolution.Agreement
import DesignTokens.Proofs.Source.Search
import DesignTokens.Proofs.Theme.Slots

namespace DesignTokens

/-! ### Registries that differ in one tree -/

/-- The sources have the same name, and the same tree unless it is this name. -/
def Source.SameBut (name : String) (source other : Source) : Prop :=
  source.name = other.name ∧ (source.name ≠ name → source.tree = other.tree)

theorem Source.SameBut.eq_of_ne {name : String} {source other : Source}
    (same : source.SameBut name other) (elsewhere : source.name ≠ name) : source = other := by
  obtain ⟨sourceName, tree⟩ := source
  obtain ⟨rfl, sameTree⟩ := same
  obtain rfl := sameTree elsewhere
  rfl

namespace SourceRegistry

/-- The sources have the same names in the same order, and the same trees except under one
name. -/
def DifferOnlyAt (name : String) (left right : SourceRegistry) : Prop :=
  List.Forall₂ (Source.SameBut name) left.sources right.sources

variable {left right : SourceRegistry} {name : String}

theorem DifferOnlyAt.tree?_cases (differ : DifferOnlyAt name left right) (other : String) :
    left.tree? other = none ∧ right.tree? other = none ∨
      ∃ leftTree rightTree, left.tree? other = some leftTree ∧
        right.tree? other = some rightTree ∧ (other ≠ name → leftTree = rightTree) := by
  unfold DifferOnlyAt at differ
  unfold tree?
  generalize left.sources = sources, right.sources = others at differ ⊢
  induction differ with
  | nil => exact .inl ⟨rfl, rfl⟩
  | @cons source another _ _ pair _ ih =>
      rw [List.find?_cons, List.find?_cons, ← pair.1]
      by_cases here : source.name = other
      · rw [beq_iff_eq.mpr here]
        exact .inr ⟨_, _, rfl, rfl, fun elsewhere => pair.2 (here ▸ elsewhere)⟩
      · rw [beq_eq_false_iff_ne.mpr here]
        exact ih

theorem DifferOnlyAt.tree?_eq (differ : DifferOnlyAt name left right) {other : String}
    (elsewhere : other ≠ name) : left.tree? other = right.tree? other := by
  rcases differ.tree?_cases other with ⟨atLeft, atRight⟩ | ⟨_, _, atLeft, atRight, same⟩
  · rw [atLeft, atRight]
  · rw [atLeft, atRight, same elsewhere]

/-- A search that ends in the differing source in neither registry ends at the same place in
both. -/
theorem DifferOnlyAt.find?_eq (differ : DifferOnlyAt name left right) {path : String}
    (leftElsewhere : ¬left.LandsIn name path) (rightElsewhere : ¬right.LandsIn name path) :
    left.find? path = right.find? path := by
  unfold DifferOnlyAt at differ
  unfold LandsIn at leftElsewhere rightElsewhere
  simp only [find?_eq_firstFound?] at leftElsewhere rightElsewhere ⊢
  generalize left.sources = sources, right.sources = others
    at differ leftElsewhere rightElsewhere ⊢
  induction differ with
  | nil => rfl
  | @cons source other rest others pair _ ih =>
      -- A tree of that name does not define the path, or the search would have ended here.
      have missing {source : Source} {rest : List Source} (here : source.name = name)
          (elsewhere : (firstFound? (source :: rest) path).map Found.source ≠ some name) :
          source.tree.lookup? path = none := by
        cases looked : source.tree.lookup? path with
        | none => rfl
        | some node =>
            rw [firstFound?_of_some looked] at elsewhere
            exact absurd (congrArg some here) elsewhere
      by_cases here : source.name = name
      · have leftMissing := missing here leftElsewhere
        have rightMissing := missing (pair.1.symm.trans here) rightElsewhere
        rw [firstFound?_of_none leftMissing] at leftElsewhere ⊢
        rw [firstFound?_of_none rightMissing] at rightElsewhere ⊢
        exact ih leftElsewhere rightElsewhere
      · obtain rfl := pair.eq_of_ne here
        cases looked : source.tree.lookup? path with
        | some node => rw [firstFound?_of_some looked, firstFound?_of_some looked]
        | none =>
            rw [firstFound?_of_none looked] at leftElsewhere rightElsewhere ⊢
            rw [firstFound?_of_none looked]
            exact ih leftElsewhere rightElsewhere

/-! ### The rule for shared sources -/

/-- The sources before both themes. -/
def leading (registry : SourceRegistry) : List Source :=
  registry.sources.takeWhile fun source => source.name ≠ lightName ∧ source.name ≠ darkName

/-- Every reference in a source that is not a theme names a path that a leading source
defines. -/
def SharedRule (registry : SourceRegistry) : Prop :=
  ∀ source ∈ registry.sources, source.name ≠ lightName → source.name ≠ darkName →
    ∀ path ∈ source.tree.toValue.references,
      ∃ first ∈ registry.leading, (first.tree.lookup? path).isSome = true

instance (registry : SourceRegistry) : Decidable registry.SharedRule :=
  inferInstanceAs (Decidable (∀ source ∈ registry.sources, _ → _ → ∀ path ∈ _, ∃ first ∈ _, _))

theorem DifferOnlyAt.leading_eq (differ : DifferOnlyAt lightName left right) :
    left.leading = right.leading := by
  unfold DifferOnlyAt at differ
  unfold leading
  generalize left.sources = sources, right.sources = others at differ ⊢
  induction differ with
  | nil => rfl
  | @cons source other _ _ pair _ ih =>
      rw [List.takeWhile_cons, List.takeWhile_cons, ← pair.1]
      split
      · rename_i first
        rw [pair.eq_of_ne (of_decide_eq_true first).1, ih]
      · rfl

theorem not_landsIn_of_leading {registry : SourceRegistry} {path : String}
    (defined : ∃ first ∈ registry.leading, (first.tree.lookup? path).isSome = true) :
    ¬registry.LandsIn lightName path := by
  intro lands
  obtain ⟨found, isFound, inLight⟩ := Option.map_eq_some_iff.mp lands
  obtain ⟨first, present, looked⟩ := defined
  -- The search ends among the leading sources already.
  obtain ⟨early, within, whole⟩ := firstFound?_append_of_mem present looked
    (registry.sources.dropWhile fun source =>
      source.name ≠ lightName ∧ source.name ≠ darkName)
  rw [leading, List.takeWhile_append_dropWhile] at whole
  obtain rfl := Option.some.inj (whole.symm.trans isFound)
  obtain ⟨source, isLeading, named, -⟩ := exists_source_of_firstFound? within
  rw [leading] at isLeading
  have kept := List.mem_takeWhile_imp isLeading
  exact (of_decide_eq_true kept).1 (named.trans inLight)

/-! ### What is reached from the dark theme -/

/-- A reference to the path does not land in the light source, in either registry. -/
def Isolated (left right : SourceRegistry) (path : String) : Prop :=
  ¬left.LandsIn lightName path ∧ ¬right.LandsIn lightName path

instance (left right : SourceRegistry) (path : String) : Decidable (Isolated left right path) :=
  inferInstanceAs (Decidable (_ ∧ _))

/-- No reference in the dark source lands in the light one. -/
def DarkRule (left right : SourceRegistry) : Prop :=
  ∀ source ∈ left.sources, source.name = darkName →
    ∀ path ∈ source.tree.toValue.references, Isolated left right path

instance (left right : SourceRegistry) : Decidable (DarkRule left right) :=
  inferInstanceAs (Decidable (∀ source ∈ left.sources, _ → ∀ path ∈ _, Isolated left right path))

theorem isolated_of_reference (differ : DifferOnlyAt lightName left right)
    (shared : left.SharedRule) (dark : DarkRule left right) {source : Source}
    (present : source ∈ left.sources) (notLight : source.name ≠ lightName) :
    ∀ path ∈ source.tree.toValue.references, Isolated left right path := by
  intro path inside
  by_cases isDark : source.name = darkName
  · exact dark source present isDark path inside
  · have defined := shared source present notLight isDark path inside
    refine ⟨not_landsIn_of_leading defined, ?_⟩
    rw [differ.leading_eq] at defined
    exact not_landsIn_of_leading defined

theorem agreeOn_isolated (differ : DifferOnlyAt lightName left right)
    (shared : left.SharedRule) (dark : DarkRule left right) :
    left.AgreeOn right (Isolated left right) where
  same := by
    intro path isolated
    rw [valueAt?, valueAt?, differ.find?_eq isolated.1 isolated.2]
  onward := by
    intro path value isolated atPath lower refers
    obtain ⟨found, isFound, rfl⟩ := Option.map_eq_some_iff.mp atPath
    obtain ⟨source, present, named, looked⟩ := exists_source_of_firstFound? isFound
    have notLight : source.name ≠ lightName := by
      rw [named]
      rintro inLight
      exact isolated.1 (inLight ▸ landsIn_of_find? isFound)
    exact isolated_of_reference differ shared dark present notLight lower
      (TokenTree.references_of_lookup looked refers)

/-! ### Maps of the dark theme -/

/-- The dark map of the registry's themes, or why there is none. -/
def darkMap (registry : SourceRegistry) (manifest : Manifest) : Except LoadError TokenMap :=
  (ThemeTokens.ofRegistry registry manifest).map (·.result.dark)

theorem exists_source_of_definition? {tree : TokenTree} (isDark : left.tree? darkName = some tree)
    {entry : ManifestEntry} (elsewhere : entry.origin ≠ .source lightName) {node : TokenNode}
    (defined : entry.definition? left tree = some node) :
    ∃ source ∈ left.sources, source.name ≠ lightName ∧
      source.tree.lookup? entry.path = some node := by
  unfold ManifestEntry.definition? at defined
  cases origin : entry.origin with
  | theme =>
      rw [origin] at defined
      obtain ⟨source, present, named, rfl⟩ := exists_source_of_tree? isDark
      exact ⟨source, present, by rw [named]; decide, defined⟩
  | source name =>
      rw [origin] at defined elsewhere
      obtain ⟨tree, atName, looked⟩ := Option.bind_eq_some_iff.mp defined
      obtain ⟨source, present, rfl, rfl⟩ := exists_source_of_tree? atName
      exact ⟨source, present, fun same => elsewhere (congrArg Origin.source same), looked⟩

theorem DifferOnlyAt.definition?_eq (differ : DifferOnlyAt lightName left right)
    (tree : TokenTree) {entry : ManifestEntry} (elsewhere : entry.origin ≠ .source lightName) :
    entry.definition? left tree = entry.definition? right tree := by
  unfold ManifestEntry.definition?
  cases origin : entry.origin with
  | theme => rfl
  | source name =>
      rw [origin] at elsewhere
      dsimp only
      rw [differ.tree?_eq (fun same => elsewhere (congrArg Origin.source same))]

theorem published_eq (differ : DifferOnlyAt lightName left right) (shared : left.SharedRule)
    (dark : DarkRule left right) {tree : TokenTree} (isDark : left.tree? darkName = some tree)
    {entry : ManifestEntry} (elsewhere : entry.origin ≠ .source lightName) :
    entry.published left tree = entry.published right tree := by
  rw [ManifestEntry.published, ManifestEntry.published, ← Resolver.normalizeNode_result,
    ← Resolver.normalizeNode_result, ← differ.definition?_eq tree elsewhere]
  cases defined : entry.definition? left tree with
  | none => rfl
  | some node =>
      obtain ⟨source, present, notLight, looked⟩ :=
        exists_source_of_definition? isDark elsewhere defined
      have isolated : ∀ path ∈ node.toValue.references, Isolated left right path :=
        fun path refers => isolated_of_reference differ shared dark present notLight path
          (TokenTree.references_of_lookup looked refers)
      exact congrArg Traced.result
        ((agreeOn_isolated differ shared dark).normalize_eq isolated)

theorem DifferOnlyAt.validate_eq (differ : DifferOnlyAt name left right) (manifest : Manifest) :
    manifest.validate left = manifest.validate right := by
  have same : Manifest.entryError? left = Manifest.entryError? right := by
    funext entry
    unfold Manifest.entryError?
    cases entry.origin with
    | theme => rfl
    | source origin =>
        dsimp only
        rcases differ.tree?_cases origin with ⟨atLeft, atRight⟩ | ⟨_, _, atLeft, atRight, -⟩
        · rw [atLeft, atRight]
        · rw [atLeft, atRight]
  rw [Manifest.validate, Manifest.validate, same]

/-- Both registries fail alike, or the dark maps of both are built for the same tree. -/
theorem DifferOnlyAt.darkMap_cases (differ : DifferOnlyAt lightName left right)
    (manifest : Manifest) :
    (∃ error, left.darkMap manifest = .error error ∧ right.darkMap manifest = .error error) ∨
      ∃ tree, left.tree? darkName = some tree ∧
        left.darkMap manifest = .ok (left.buildMap manifest tree).result ∧
        right.darkMap manifest = .ok (right.buildMap manifest tree).result := by
  have dark : left.tree? darkName = right.tree? darkName := differ.tree?_eq (by decide)
  unfold darkMap ThemeTokens.ofRegistry ThemeTokens.build ThemeTokens.themeTree ThemeVariant.name
  rw [← dark, ← differ.validate_eq manifest]
  rcases differ.tree?_cases lightName with ⟨atLeft, atRight⟩ | ⟨_, _, atLeft, atRight, -⟩
  · rw [atLeft, atRight]
    exact .inl ⟨_, rfl, rfl⟩
  · rw [atLeft, atRight]
    cases left.tree? darkName with
    | none => exact .inl ⟨_, rfl, rfl⟩
    | some tree =>
        cases manifest.validate left with
        | error error => exact .inl ⟨error, rfl, rfl⟩
        | ok _ => exact .inr ⟨tree, rfl, rfl, rfl⟩

theorem slot?_darkMap {registry : SourceRegistry} {manifest : Manifest} {tree : TokenTree}
    (built : registry.darkMap manifest = .ok (registry.buildMap manifest tree).result)
    (category key : String) :
    (registry.darkMap manifest).map (·.slot? category key) =
      .ok ((manifest.lastEntry? category key).map (·.published registry tree)) := by
  rw [built, Resolver.buildMap_eq_plainMap]
  exact congrArg Except.ok (TokenMap.slot?_ofEntries _ manifest category key)

/-- The dark maps of two registries that differ in the light tree only, when shared sources keep
to the leading ones and no reference of the dark source lands in the light one: the same map when
no entry names the light source, and in any case the same slot where the last entry does not. -/
theorem dark_map_isolated (differ : DifferOnlyAt lightName left right)
    (shared : left.SharedRule) (dark : DarkRule left right) (manifest : Manifest) :
    ((∀ entry ∈ manifest.entries, entry.origin ≠ .source lightName) →
      left.darkMap manifest = right.darkMap manifest) ∧
    ∀ category key,
      (∀ entry, manifest.lastEntry? category key = some entry →
        entry.origin ≠ .source lightName) →
      (left.darkMap manifest).map (·.slot? category key) =
        (right.darkMap manifest).map (·.slot? category key) := by
  rcases differ.darkMap_cases manifest with
    ⟨error, atLeft, atRight⟩ | ⟨tree, isDark, atLeft, atRight⟩
  · rw [atLeft, atRight]
    exact ⟨fun _ => rfl, fun _ _ _ => rfl⟩
  · constructor
    · intro elsewhere
      rw [atLeft, atRight, Resolver.buildMap_eq_plainMap, Resolver.buildMap_eq_plainMap]
      refine congrArg Except.ok (List.foldl_ext _ _ _ ?_)
      intro map entry present
      dsimp only
      rw [published_eq differ shared dark isDark (elsewhere entry present)]
    · intro category key elsewhere
      rw [slot?_darkMap atLeft, slot?_darkMap atRight]
      cases last : manifest.lastEntry? category key with
      | none => rfl
      | some entry =>
          have same := published_eq differ shared dark isDark (elsewhere entry last)
          exact congrArg (fun content => Except.ok (some content)) same

/-- A source with these values as tokens, and no groups. -/
def tokenSource (name : String) (tokens : List (String × Value)) : Source :=
  ⟨name, ⟨none, tokens.map fun (key, value) => (key, .raw value)⟩⟩

/-- Shared sources on both sides of two themes, of which the light one has these tokens. -/
def sharedAndThemes (light : List (String × Value)) : SourceRegistry where
  sources := [
    tokenSource coreName [("black", .string "#000000")],
    tokenSource lightName light,
    tokenSource darkName [("ink", .string "{black}"), ("text", .string "{ink}")],
    tokenSource webName [("line", .object [("color", .string "{black}")])]]
  distinct := show [coreName, lightName, darkName, webName].Nodup by decide

/-- A theme token that refers to another one of its theme, and a shared token. -/
def textAndLine : Manifest := ⟨[
  ⟨"color", "text", .theme, "text"⟩,
  ⟨"border", "line", .source webName, "line"⟩]⟩

theorem dark_map_of_sharedAndThemes :
    let left := sharedAndThemes [("paper", .string "#ffffff")]
    let right := sharedAndThemes [("paper", .string "{text}"), ("line", .string "#eeeeee")]
    DifferOnlyAt lightName left right ∧ left.SharedRule ∧ DarkRule left right ∧
      (∀ entry ∈ textAndLine.entries, entry.origin ≠ .source lightName) ∧
      left.darkMap textAndLine = right.darkMap textAndLine := by
  intro left right
  have differ : DifferOnlyAt lightName left right :=
    .cons ⟨rfl, fun _ => rfl⟩ (.cons ⟨rfl, fun other => absurd rfl other⟩
      (.cons ⟨rfl, fun _ => rfl⟩ (.cons ⟨rfl, fun _ => rfl⟩ .nil)))
  have shared : left.SharedRule := by decide
  have dark : DarkRule left right := by decide
  have elsewhere : ∀ entry ∈ textAndLine.entries, entry.origin ≠ .source lightName := by decide
  exact ⟨differ, shared, dark, elsewhere,
    (dark_map_isolated differ shared dark textAndLine).1 elsewhere⟩

/-! ### Where the dark map depends on the light tree -/

theorem slot?_darkMap_of_expands {registry : SourceRegistry} {manifest : Manifest}
    {tree : TokenTree} {category key : String} {entry : ManifestEntry} {node : TokenNode}
    {expansion : Option Value}
    (built : registry.darkMap manifest = .ok (registry.buildMap manifest tree).result)
    (last : manifest.lastEntry? category key = some entry)
    (defined : entry.definition? registry tree = some node)
    (expands : registry.Expands node.toValue expansion) :
    (registry.darkMap manifest).map (·.slot? category key) = .ok (some expansion) := by
  have published : entry.published registry tree = expansion := by
    rw [ManifestEntry.published, ← Resolver.normalizeNode_result, defined]
    exact congrArg Traced.result expands.normalize_eq
  rw [slot?_darkMap built, last, Option.map_some, published]

/-- Two themes without another source, of which the dark one uses its own ink. -/
def inkedThemes (light : List (String × Value)) : SourceRegistry where
  sources := [tokenSource lightName light,
    tokenSource darkName [("ink", .string "#000000"), ("text", .string "{ink}")]]
  distinct := show [lightName, darkName].Nodup by decide

def themeText : Manifest := ⟨[⟨"color", "text", .theme, "text"⟩]⟩

def lightInk : Manifest := ⟨[⟨"color", "ink", .source lightName, "ink"⟩]⟩

/-- The rule for shared sources is not enough: a reference of the dark source lands in the light
one where that defines the path too, and an entry may name the light source. -/
theorem dark_map_depends_on_light :
    let left := inkedThemes [("ink", .string "#ffffff")]
    let right := inkedThemes []
    lightName ∈ left.names ∧ darkName ∈ left.names ∧ DifferOnlyAt lightName left right ∧
      left.SharedRule ∧ right.SharedRule ∧
      left.darkMap themeText ≠ right.darkMap themeText ∧
      left.darkMap lightInk ≠ right.darkMap lightInk := by
  intro left right
  have differ : DifferOnlyAt lightName left right :=
    .cons ⟨rfl, fun other => absurd rfl other⟩ (.cons ⟨rfl, fun _ => rfl⟩ .nil)
  have leftText : left.Expands (.string "{ink}") (some (.string "#ffffff")) :=
    .reference rfl (.literal rfl rfl) (.text rfl)
  have rightText : right.Expands (.string "{ink}") (some (.string "#000000")) :=
    .reference rfl (.literal rfl rfl) (.text rfl)
  have leftInk : left.Expands (.string "#ffffff") (some (.string "#ffffff")) := .text rfl
  refine ⟨by decide, by decide, differ, by decide, by decide, ?_, ?_⟩
  · intro same
    have leftSlot : (left.darkMap themeText).map (·.slot? "color" "text") =
        .ok (some (some (.string "#ffffff"))) :=
      slot?_darkMap_of_expands rfl rfl rfl leftText
    have rightSlot : (right.darkMap themeText).map (·.slot? "color" "text") =
        .ok (some (some (.string "#000000"))) :=
      slot?_darkMap_of_expands rfl rfl rfl rightText
    rw [same, rightSlot] at leftSlot
    simp at leftSlot
  · intro same
    have leftSlot : (left.darkMap lightInk).map (·.slot? "color" "ink") =
        .ok (some (some (.string "#ffffff"))) :=
      slot?_darkMap_of_expands rfl rfl rfl leftInk
    have rightSlot : (right.darkMap lightInk).map (·.slot? "color" "ink") = .ok (some none) :=
      slot?_darkMap rfl "color" "ink"
    rw [same, rightSlot] at leftSlot
    simp at leftSlot

end SourceRegistry

end DesignTokens
