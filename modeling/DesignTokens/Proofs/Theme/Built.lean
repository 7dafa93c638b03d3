/-
The maps that are built.

The values of a built map are published by the entries of its manifest. Over
well-formed sources they are well-formed, and filling a slot keeps a map
well-formed, so a built map is; over documents its numbers are finite as well.
-/
import DesignTokens.Proofs.Source.Documents
import DesignTokens.Proofs.Theme.Slots
import DesignTokens.Proofs.Theme.WellFormed

namespace DesignTokens

/-! ### Filling slots -/

namespace TokenMap

variable {map : TokenMap}

theorem WellFormed.foldl_insert (wellFormed : map.WellFormed)
    {content : ManifestEntry → Option Value} {entries : List ManifestEntry}
    (fits : ∀ entry ∈ entries, ∀ value, content entry = some value → value.WellFormed) :
    (entries.foldl (fun map entry => map.insert entry.category entry.key (content entry))
      map).WellFormed := by
  induction entries generalizing map with
  | nil => exact wellFormed
  | cons entry rest ih =>
      obtain ⟨here, later⟩ := List.forall_mem_cons.mp fits
      exact ih (wellFormed.insert entry.category entry.key here) later

/-- The numbers of a map are the numbers of its values. -/
theorem finite_toValue_iff (wellFormed : map.WellFormed) :
    map.toValue.Finite ↔
      ∀ category key value, map.get? category key = some value → value.Finite := by
  constructor
  · intro finite category key value present
    obtain ⟨slots, among, filled⟩ := (get?_eq_some_iff wellFormed).mp present
    have inside := Value.finite_object_iff.mp finite category _ (List.mem_map_of_mem among)
    exact Value.finite_object_iff.mp inside key value (List.mem_map_of_mem filled)
  · intro each
    refine Value.finite_object_iff.mpr fun category whole among => ?_
    obtain ⟨⟨_, slots⟩, present, same⟩ := List.mem_map.mp among
    cases same
    refine Value.finite_object_iff.mpr fun key member inside => ?_
    obtain ⟨⟨_, content⟩, filled, same⟩ := List.mem_map.mp inside
    cases same
    cases content with
    | none => exact Value.finite_carriesOver.null
    | some value =>
        exact each category key value ((get?_eq_some_iff wellFormed).mpr ⟨slots, present, filled⟩)

end TokenMap

/-! ### What entries publish -/

namespace SourceRegistry

variable {registry : SourceRegistry} {theme : TokenTree}

/-- The values in the theme and in all sources have the property. -/
def Throughout (registry : SourceRegistry) (theme : TokenTree) (holds : Value → Prop) : Prop :=
  ∀ tree, (tree = theme ∨ ∃ source ∈ registry.sources, source.tree = tree) →
    ∀ path node, tree.lookup? path = some node → holds node.toValue

theorem WellFormed.throughout (wellFormed : registry.WellFormed)
    (themeWellFormed : theme.WellFormed) : registry.Throughout theme Value.WellFormed := by
  rintro tree (rfl | ⟨source, present, rfl⟩) path node looked
  · exact node.wellFormed_toValue (themeWellFormed.of_lookup looked)
  · exact node.wellFormed_toValue ((wellFormed source present).of_lookup looked)

theorem FromDocuments.throughout (documents : registry.FromDocuments)
    (themeFinite : theme.Finite) : registry.Throughout theme Value.Finite := by
  rintro tree (rfl | ⟨source, present, rfl⟩) path node looked
  · exact themeFinite.of_lookup looked
  · exact (documents.finite_tree present).of_lookup looked

end SourceRegistry

section Published

variable {registry : SourceRegistry} {theme : TokenTree} {before after : Value → Prop}

theorem ManifestEntry.throughout_of_definition? (throughout : registry.Throughout theme before)
    {entry : ManifestEntry} {node : TokenNode}
    (defined : entry.definition? registry theme = some node) : before node.toValue := by
  unfold definition? at defined
  cases origin : entry.origin with
  | theme =>
      rw [origin] at defined
      exact throughout theme (.inl rfl) entry.path node defined
  | source name =>
      rw [origin] at defined
      obtain ⟨tree, atName, looked⟩ := Option.bind_eq_some_iff.mp defined
      obtain ⟨source, present, -, same⟩ := SourceRegistry.exists_source_of_tree? atName
      exact throughout tree (.inr ⟨source, present, same⟩) entry.path node looked

/-- What an entry publishes has every property that carries over to normal forms. -/
theorem ManifestEntry.holds_of_published (throughout : registry.Throughout theme before)
    (carries : Value.CarriesOver before after) {entry : ManifestEntry} {value : Value}
    (published : entry.published registry theme = some value) : after value := by
  obtain ⟨node, defined, normal⟩ := Option.bind_eq_some_iff.mp published
  have known (path : String) (found : Value) (isFound : registry.valueAt? path = some found) :
      before found := by
    obtain ⟨⟨name, there⟩, first, rfl⟩ := Option.map_eq_some_iff.mp isFound
    obtain ⟨source, present, -, looked⟩ := exists_source_of_firstFound? first
    exact throughout source.tree (.inr ⟨source, present, rfl⟩) path there looked
  exact carries.of_normalizeIn known .fresh [] (throughout_of_definition? throughout defined)
    value normal

/-! ### Built maps -/

namespace Resolver

/-- A resolver that fills a well-formed map over well-formed sources gives a well-formed map. -/
theorem wellFormed_fill {resolver : Resolver registry} (reachable : resolver.Reachable)
    (wellFormed : registry.WellFormed) (themeWellFormed : theme.WellFormed) {map : TokenMap}
    (start : map.WellFormed) (entries : List ManifestEntry) :
    (resolver.fill theme map entries).result.1.WellFormed := by
  rw [(fill_simulates theme map entries resolver reachable.faithful).1]
  refine start.foldl_insert fun entry _ value published => ?_
  exact entry.holds_of_published (wellFormed.throughout themeWellFormed)
    Value.wellFormed_carriesOver published

end Resolver

namespace SourceRegistry

variable (manifest : Manifest)

theorem wellFormed_buildMap (wellFormed : registry.WellFormed)
    (themeWellFormed : theme.WellFormed) : (registry.buildMap manifest theme).result.WellFormed :=
  Resolver.wellFormed_fill .fresh wellFormed themeWellFormed TokenMap.wellFormed_empty
    manifest.entries

/-- Every value of a built map is published by an entry of the manifest. -/
theorem exists_published_of_get? {manifest : Manifest} {category key : String} {value : Value}
    (present : (registry.buildMap manifest theme).result.get? category key = some value) :
    ∃ entry ∈ manifest.entries, entry.published registry theme = some value := by
  rw [Resolver.buildMap_eq_plainMap, TokenMap.get?, Option.join_eq_some_iff] at present
  have filled := (TokenMap.slot?_ofEntries _ manifest category key).symm.trans present
  obtain ⟨entry, last, published⟩ := Option.map_eq_some_iff.mp filled
  exact ⟨entry, (List.mem_filter.mp (List.mem_of_getLast? last)).1, published⟩

theorem finite_buildMap (documents : registry.FromDocuments) (themeWellFormed : theme.WellFormed)
    (themeFinite : theme.Finite) : (registry.buildMap manifest theme).result.toValue.Finite := by
  have wellFormed := wellFormed_buildMap manifest documents.wellFormed themeWellFormed
  refine (TokenMap.finite_toValue_iff wellFormed).mpr fun category key value present => ?_
  obtain ⟨entry, -, published⟩ := exists_published_of_get? present
  exact entry.holds_of_published (documents.throughout themeFinite) Value.finite_carriesOver
    published

end SourceRegistry

end Published

/-! ### Theme tokens -/

/-- Each of the two maps is that of its tree. -/
theorem ThemeTokens.exists_tree_of_build {registry : SourceRegistry} {manifest : Manifest}
    {light dark : TokenTree} {tokens : Traced ThemeTokens}
    (built : build registry manifest light dark = .ok tokens) (variant : ThemeVariant) :
    ∃ tree ∈ [light, dark],
      tokens.result.map variant = (registry.buildMap manifest tree).result := by
  unfold build at built
  cases valid : manifest.validate registry with
  | error error => rw [valid] at built; cases built
  | ok _ =>
      rw [valid] at built
      cases built
      cases variant with
      | light => exact ⟨light, List.mem_cons_self, rfl⟩
      | dark => exact ⟨dark, List.mem_cons_of_mem _ (List.mem_singleton_self _), rfl⟩

namespace Configuration

variable {registry : SourceRegistry} {configuration : Configuration}

theorem exists_source_of_themeTree {name : String} {tree : TokenTree}
    (found : themeTree registry name = .ok tree) :
    ∃ source ∈ registry.sources, source.tree = tree := by
  unfold themeTree at found
  split at found
  · rename_i other atName
    cases found
    obtain ⟨source, present, -, same⟩ := SourceRegistry.exists_source_of_tree? atName
    exact ⟨source, present, same⟩
  · cases found

theorem exists_source_of_buildTokens {manifest : Manifest} {tokens : Traced ThemeTokens}
    (built : configuration.buildTokens registry manifest = .ok tokens) (variant : ThemeVariant) :
    ∃ source ∈ registry.sources,
      tokens.result.map variant = (registry.buildMap manifest source.tree).result := by
  unfold buildTokens at built
  cases isLight : themeTree registry configuration.themes.light with
  | error error => rw [isLight] at built; cases built
  | ok light =>
    cases isDark : themeTree registry configuration.themes.dark with
    | error error => rw [isLight, isDark] at built; cases built
    | ok dark =>
        rw [isLight, isDark] at built
        dsimp only [bind, Except.bind] at built
        split at built
        · rename_i made isMade
          cases built
          obtain ⟨tree, among, same⟩ := ThemeTokens.exists_tree_of_build isMade variant
          rcases List.mem_pair.mp among with rfl | rfl
          · obtain ⟨source, present, rfl⟩ := exists_source_of_themeTree isLight
            exact ⟨source, present, same⟩
          · obtain ⟨source, present, rfl⟩ := exists_source_of_themeTree isDark
            exact ⟨source, present, same⟩
        · cases built

/-- The maps that are built over documents are well-formed and have finite numbers. -/
theorem maps_of_buildTokens (documents : registry.FromDocuments) {manifest : Manifest}
    {tokens : Traced ThemeTokens}
    (built : configuration.buildTokens registry manifest = .ok tokens) (variant : ThemeVariant) :
    (tokens.result.map variant).WellFormed ∧ (tokens.result.map variant).toValue.Finite := by
  obtain ⟨source, present, same⟩ := exists_source_of_buildTokens built variant
  have wellFormed := documents.wellFormed source present
  rw [same]
  exact ⟨SourceRegistry.wellFormed_buildMap manifest documents.wellFormed wellFormed,
    SourceRegistry.finite_buildMap manifest documents wellFormed (documents.finite_tree present)⟩

end Configuration

end DesignTokens
