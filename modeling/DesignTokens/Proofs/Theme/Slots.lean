/-
The slots of a built map.

The map of a theme has one slot for each pair of category and key in the
manifest, and the last entry of the pair fills it. What an entry publishes is
the normal form of its own definition by a resolver without memory: no other
entry and no map built before has a part in it.
-/
import DesignTokens.Proofs.Members
import DesignTokens.Proofs.Resolution.Memory
import DesignTokens.Theme.Build

namespace DesignTokens

/-! ### Slots and entries -/

namespace TokenMap

theorem category?_insert (map : TokenMap) (category key other : String)
    (content : Option Value) :
    (map.insert category key content).category? other =
      if other = category then
        some (putMember key content ((map.category? category).getD []))
      else map.category? other := by
  rw [insert, category?]
  by_cases same : other = category
  · rw [same, if_pos rfl]
    exact lookup_putMember_self _ _ _
  · rw [if_neg same]
    exact lookup_putMember_of_ne same _ _

theorem slot?_insert (map : TokenMap) (category key otherCategory otherKey : String)
    (content : Option Value) :
    (map.insert category key content).slot? otherCategory otherKey =
      if otherCategory = category ∧ otherKey = key then some content
      else map.slot? otherCategory otherKey := by
  rw [slot?, category?_insert]
  by_cases sameCategory : otherCategory = category
  · subst sameCategory
    rw [if_pos rfl, Option.bind_some]
    by_cases sameKey : otherKey = key
    · rw [if_pos ⟨rfl, sameKey⟩, sameKey]
      exact lookup_putMember_self _ _ _
    · rw [if_neg (fun both => sameKey both.2), lookup_putMember_of_ne sameKey, slot?]
      cases map.category? otherCategory <;> rfl
  · rw [if_neg sameCategory, if_neg (fun both => sameCategory both.1), slot?]

/-- The map that entries fill, one after the other. -/
def ofEntries (content : ManifestEntry → Option Value) (entries : List ManifestEntry) :
    TokenMap :=
  entries.foldl (fun map entry => map.insert entry.category entry.key (content entry)) .empty

theorem ofEntries_concat (content : ManifestEntry → Option Value)
    (entries : List ManifestEntry) (last : ManifestEntry) :
    ofEntries content (entries ++ [last]) =
      (ofEntries content entries).insert last.category last.key (content last) := by
  rw [ofEntries, List.foldl_append]
  rfl

end TokenMap

namespace Manifest

/-- The keys of a category, in the order in which they first appear. -/
def keys (manifest : Manifest) (category : String) : List String :=
  ((manifest.entries.filter fun entry => entry.category = category).map
    ManifestEntry.key).eraseDups

/-- The last entry for a slot. -/
def lastEntry? (manifest : Manifest) (category key : String) : Option ManifestEntry :=
  (manifest.entries.filter fun entry =>
    entry.category = category ∧ entry.key = key).getLast?

end Manifest

namespace TokenMap

variable (content : ManifestEntry → Option Value)

theorem categories_ofEntries (manifest : Manifest) :
    memberNames (ofEntries content manifest.entries).categories = manifest.categories := by
  obtain ⟨entries⟩ := manifest
  induction entries using List.reverseRecOn with
  | nil => rfl
  | append_singleton entries last ih =>
      rw [ofEntries_concat, Manifest.categories, List.map_append, List.map_singleton]
      exact memberNames_putMember_eraseDups ih _ _

theorem keys_ofEntries (manifest : Manifest) (category : String) :
    memberNames (((ofEntries content manifest.entries).category? category).getD []) =
      manifest.keys category := by
  obtain ⟨entries⟩ := manifest
  induction entries using List.reverseRecOn with
  | nil => rfl
  | append_singleton entries last ih =>
      rw [ofEntries_concat, category?_insert, Manifest.keys, List.filter_append,
        List.map_append]
      by_cases same : category = last.category
      · subst same
        have kept : [last].filter (fun entry => entry.category = last.category) = [last] := by
          simp
        rw [if_pos rfl, Option.getD_some, kept]
        exact memberNames_putMember_eraseDups ih _ _
      · have dropped : [last].filter (fun entry => entry.category = category) = [] := by
          simp [Ne.symm same]
        rw [if_neg same, dropped, List.map_nil, List.append_nil]
        exact ih

theorem slot?_ofEntries (manifest : Manifest) (category key : String) :
    (ofEntries content manifest.entries).slot? category key =
      (manifest.lastEntry? category key).map content := by
  obtain ⟨entries⟩ := manifest
  induction entries using List.reverseRecOn with
  | nil => rfl
  | append_singleton entries last ih =>
      rw [ofEntries_concat, slot?_insert, Manifest.lastEntry?, List.filter_append]
      by_cases same : category = last.category ∧ key = last.key
      · obtain ⟨rfl, rfl⟩ := same
        have kept : [last].filter (fun entry =>
            entry.category = last.category ∧ entry.key = last.key) = [last] := by
          simp
        rw [if_pos ⟨rfl, rfl⟩, kept, List.getLast?_concat]
        rfl
      · have dropped : [last].filter (fun entry =>
            entry.category = category ∧ entry.key = key) = [] := by
          have other : last.category = category → ¬last.key = key :=
            fun sameCategory sameKey => same ⟨sameCategory.symm, sameKey.symm⟩
          simpa using other
        rw [if_neg same, dropped, List.append_nil]
        exact ih

end TokenMap

/-! ### Building with one resolver -/

/-- The value that an entry publishes for a theme: the normal form of its definition, found by
a resolver of its own, and nothing without a definition. -/
def ManifestEntry.published (entry : ManifestEntry) (registry : SourceRegistry)
    (theme : TokenTree) : Option Value :=
  (entry.definition? registry theme).bind fun node =>
    ((Resolver.fresh registry).normalize node.toValue).result.1

theorem ManifestEntry.published_of_source {entry : ManifestEntry} {name : String}
    (shared : entry.origin = .source name) (registry : SourceRegistry)
    (theme other : TokenTree) :
    entry.published registry theme = entry.published registry other := by
  rw [published, published, definition?, definition?, shared]

def SourceRegistry.normalizeNode (registry : SourceRegistry) :
    Option TokenNode → Traced (Option Value)
  | none => ⟨none, []⟩
  | some node => registry.normalize node.toValue

/-- The map of a theme by plain walks. -/
def SourceRegistry.plainMap (registry : SourceRegistry) (manifest : Manifest)
    (theme : TokenTree) : Traced TokenMap :=
  ⟨.ofEntries (·.published registry theme) manifest.entries,
    manifest.entries.flatMap fun entry =>
      (registry.normalizeNode (entry.definition? registry theme)).warnings⟩

namespace Resolver

variable {registry : SourceRegistry}

theorem normalizeNode_simulates (node : Option TokenNode) :
    Resolving.Simulates (fun resolver : Resolver registry => resolver.normalizeNode node)
      (registry.normalizeNode node) := by
  intro resolver faithful
  cases node with
  | none => exact ⟨rfl, rfl, faithful⟩
  | some node => exact normalizeIn_simulates [] node.toValue resolver faithful

theorem normalizeNode_result (node : Option TokenNode) :
    (registry.normalizeNode node).result =
      node.bind fun node => ((fresh registry).normalize node.toValue).result.1 := by
  cases node with
  | none => rfl
  | some node => exact (normalizeIn_simulates [] node.toValue _ fresh_faithful).1.symm

theorem fill_simulates (theme : TokenTree) (map : TokenMap) (entries : List ManifestEntry) :
    Resolving.Simulates (fun resolver : Resolver registry => resolver.fill theme map entries)
      ⟨entries.foldl (fun map entry =>
          map.insert entry.category entry.key (entry.published registry theme)) map,
        entries.flatMap fun entry =>
          (registry.normalizeNode (entry.definition? registry theme)).warnings⟩ := by
  induction entries generalizing map with
  | nil => exact fun resolver faithful => ⟨rfl, rfl, faithful⟩
  | cons entry rest ih =>
      intro resolver faithful
      obtain ⟨sameResult, sameWarnings, between⟩ :=
        normalizeNode_simulates (entry.definition? registry theme) resolver faithful
      rw [normalizeNode_result] at sameResult
      have filled := ih (map.insert entry.category entry.key (entry.published registry theme))
        _ between
      obtain ⟨result, warnings, after⟩ := filled
      dsimp only at result warnings after sameResult sameWarnings ⊢
      rw [List.foldl_cons, List.flatMap_cons, ← sameWarnings, ← warnings, ← result, fill,
        sameResult]
      exact ⟨rfl, rfl, after⟩

theorem buildMap_simulates (manifest : Manifest) (theme : TokenTree) :
    Resolving.Simulates (fun resolver : Resolver registry => resolver.buildMap manifest theme)
      (registry.plainMap manifest theme) :=
  fill_simulates theme .empty manifest.entries

theorem buildMap_eq_plainMap (registry : SourceRegistry) (manifest : Manifest)
    (theme : TokenTree) : registry.buildMap manifest theme = registry.plainMap manifest theme := by
  obtain ⟨result, warnings, -⟩ :=
    buildMap_simulates manifest theme (fresh registry) fresh_faithful
  rw [SourceRegistry.buildMap, result, warnings]

/-- The maps that one resolver builds for these themes, one after the other. -/
def buildMaps (resolver : Resolver registry) (manifest : Manifest) :
    List TokenTree → List (Traced TokenMap)
  | [] => []
  | theme :: rest =>
      let built := resolver.buildMap manifest theme
      ⟨built.result.1, built.warnings⟩ :: built.result.2.buildMaps manifest rest

theorem buildMaps_of_faithful {resolver : Resolver registry} (faithful : resolver.Faithful)
    (manifest : Manifest) (themes : List TokenTree) :
    resolver.buildMaps manifest themes = themes.map (registry.buildMap manifest) := by
  induction themes generalizing resolver with
  | nil => rfl
  | cons theme rest ih =>
      obtain ⟨result, warnings, after⟩ := buildMap_simulates manifest theme resolver faithful
      dsimp only at result warnings after
      rw [buildMaps, List.map_cons, buildMap_eq_plainMap, result, warnings, ih after]

/-- One resolver builds for each theme the map and the warnings that a fresh one does. The
slots are those of the manifest in order of first appearance, and each holds what the last
entry for it publishes, in every theme alike when a shared source defines it. -/
theorem buildMaps_slots {resolver : Resolver registry} (reachable : resolver.Reachable)
    (manifest : Manifest) (themes : List TokenTree) :
    resolver.buildMaps manifest themes = themes.map (registry.buildMap manifest) ∧
      ∀ theme,
        let map := (registry.buildMap manifest theme).result
        memberNames map.categories = manifest.categories ∧
        (∀ category slots, map.category? category = some slots →
          memberNames slots = manifest.keys category) ∧
        (∀ category key, map.slot? category key =
          (manifest.lastEntry? category key).map (·.published registry theme)) ∧
        (∀ category key entry name, manifest.lastEntry? category key = some entry →
          entry.origin = .source name → ∀ other,
            map.slot? category key =
              (registry.buildMap manifest other).result.slot? category key) := by
  refine ⟨buildMaps_of_faithful reachable.faithful manifest themes, ?_⟩
  intro theme map
  have slots (theme : TokenTree) (category key : String) :
      (registry.buildMap manifest theme).result.slot? category key =
        (manifest.lastEntry? category key).map (·.published registry theme) := by
    rw [buildMap_eq_plainMap]
    exact TokenMap.slot?_ofEntries _ manifest category key
  have built : map = .ofEntries (·.published registry theme) manifest.entries := by
    rw [show map = _ from congrArg Traced.result (buildMap_eq_plainMap registry manifest theme)]
    rfl
  refine ⟨?_, ?_, slots theme, ?_⟩
  · rw [built]
    exact TokenMap.categories_ofEntries _ manifest
  · intro category slots present
    have names := TokenMap.keys_ofEntries (·.published registry theme) manifest category
    rw [← built, present] at names
    exact names
  · intro category key entry name last shared other
    rw [slots theme, slots other, last, Option.map_some, Option.map_some,
      ManifestEntry.published_of_source shared registry theme other]

/-- A manifest with a circle, a source that is not there, and a slot that is filled twice. -/
def repeatedSlot : Manifest := ⟨[
  ⟨"color", "text", .source "core", "loop"⟩,
  ⟨"size", "s", .source "gone", "s"⟩,
  ⟨"color", "line", .theme, "line"⟩,
  ⟨"color", "text", .source "core", "ink"⟩]⟩

theorem buildMaps_repeatedSlot :
    let registry := SourceRegistry.ofTokens
      [("ink", .string "#000000"), ("loop", .string "{loop}")]
    let resolver := ((fresh registry).walk [] "loop").2
    let map := (registry.buildMap repeatedSlot .empty).result
    resolver.Reachable ∧
      resolver.buildMaps repeatedSlot [.empty, .empty] =
        [registry.buildMap repeatedSlot .empty, registry.buildMap repeatedSlot .empty] ∧
      memberNames map.categories = ["color", "size"] ∧
      map.slot? "color" "text" = some (some (.string "#000000")) ∧
      map.slot? "size" "s" = some none := by
  intro registry resolver map
  have reachable : resolver.Reachable := .walk .fresh [] "loop"
  obtain ⟨maps, built⟩ := buildMaps_slots reachable repeatedSlot [.empty, .empty]
  obtain ⟨names, -, slots, -⟩ := built .empty
  exact ⟨reachable, maps, names.trans (by decide), (slots "color" "text").trans rfl,
    (slots "size" "s").trans rfl⟩

end Resolver

end DesignTokens
