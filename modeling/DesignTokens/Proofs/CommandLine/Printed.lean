/-
What the commands print of published tokens.

Resolving a path on the command line prints what a manifest entry publishes that
names the path in the source where its search ends. Publishing starts with the
value itself and an empty trail, resolving with a reference to it, which puts the
path on the trail first; without a circle this makes no difference.
-/
import DesignTokens.CommandLine.Report
import DesignTokens.Proofs.Resolution.Group
import DesignTokens.Proofs.Theme.Slots

namespace DesignTokens

open Resolver (fresh)

/-! ### Resolving a published path -/

theorem ManifestEntry.definition?_of_landsIn {registry : SourceRegistry} {entry : ManifestEntry}
    {name : String} (shared : entry.origin = .source name)
    (lands : registry.LandsIn name entry.path) (theme : TokenTree) :
    ∃ node, entry.definition? registry theme = some node ∧
      registry.valueAt? entry.path = some node.toValue := by
  rw [definition?, shared]
  exact lands.exists_node

/-- The report of resolving a path that stands for this value, or for nothing, in silence. -/
def resolvedReport (path : String) : Option Value → Report
  | some value => ⟨value.printedText ++ "\n", [], none⟩
  | none => ⟨"", [], some (.undefinedPath path)⟩

theorem reportResolve_of_expands {registry : SourceRegistry} {text : String}
    {expansion : Option Value}
    (expands : registry.Expands (.string (referenceText (requestedPath text))) expansion) :
    reportResolve registry text = resolvedReport (requestedPath text) expansion := by
  obtain ⟨result, silent⟩ :=
    Resolver.normalize_of_expands (.fresh : (fresh registry).Reachable) expands
  delta reportResolve
  dsimp only
  rw [result, silent]
  cases expansion <;> rfl

namespace Resolver

variable {registry : SourceRegistry} {resolver other : Resolver registry}

/-- An entry whose path is first defined in the source that it names publishes what the reference
to the path stands for, when publishing it meets no circle; and resolving the path prints that. -/
theorem published_eq_resolved (reachable : resolver.Reachable) (otherReachable : other.Reachable)
    {entry : ManifestEntry} {name : String} (shared : entry.origin = .source name)
    (lands : registry.LandsIn name entry.path) (theme : TokenTree)
    (silent : (resolver.normalizeNode (entry.definition? registry theme)).warnings = []) :
    let published := (resolver.normalizeNode (entry.definition? registry theme)).result.1
    (other.normalize (.string (referenceText entry.path))).result.1 = published ∧
      (other.normalize (.string (referenceText entry.path))).warnings = [] ∧
      ∀ text, requestedPath text = entry.path →
        reportResolve registry text = resolvedReport entry.path published := by
  intro published
  obtain ⟨node, defined, found⟩ := entry.definition?_of_landsIn shared lands theme
  have whole : published = (resolver.normalize node.toValue).result.1 := by
    change (resolver.normalizeNode (entry.definition? registry theme)).result.1 = _
    rw [defined]
    rfl
  rw [defined] at silent
  have expands : registry.Expands (.string (referenceText entry.path)) published := by
    rw [whole]
    exact (expands_of_silent reachable silent).to_reference (referencePath?_referenceText _) found
  obtain ⟨result, quiet⟩ := normalize_of_expands otherReachable expands
  refine ⟨result, quiet, ?_⟩
  intro text requested
  rw [← requested] at expands ⊢
  exact reportResolve_of_expands expands

theorem published_group_of_splitGroup :
    let entry : ManifestEntry := ⟨"color", "all", .source "brand", "color"⟩
    let resolver := ((fresh splitGroup).walk [] "color.ink").2
    let published := (resolver.normalizeNode (entry.definition? splitGroup .empty)).result.1
    resolver.Reachable ∧ splitGroup.LandsIn "brand" entry.path ∧
      (resolver.normalizeNode (entry.definition? splitGroup .empty)).warnings = [] ∧
      ((fresh splitGroup).normalize (.string (referenceText "color"))).result.1 = published ∧
      reportResolve splitGroup "{color}" = resolvedReport "color" published := by
  intro entry resolver published
  have reachable : resolver.Reachable := .walk .fresh [] "color.ink"
  have lands : splitGroup.LandsIn "brand" entry.path := by
    change splitGroup.LandsIn "brand" "color"
    decide
  have group : splitGroup.Expands (.object (childValues brandColors))
      (some (.object [("ink", .string "#000000")])) :=
    splitGroup_expands.of_reference (referencePath?_referenceText _) rfl rfl
  have silent : (resolver.normalizeNode (entry.definition? splitGroup .empty)).warnings = [] := by
    obtain ⟨node, defined, found⟩ := entry.definition?_of_landsIn rfl lands .empty
    have inPlace : splitGroup.valueAt? "color" = some (.object (childValues brandColors)) := rfl
    have value : node.toValue = .object (childValues brandColors) :=
      Option.some.inj (found.symm.trans inPlace)
    rw [defined, normalizeNode, value]
    exact (normalize_of_expands reachable group).2
  obtain ⟨same, -, printed⟩ := published_eq_resolved reachable .fresh rfl lands .empty silent
  exact ⟨reachable, lands, silent, same, printed "{color}" (by rfl)⟩

end Resolver

/-! ### Getting a built token -/

/-- The member of an object under two names, one inside the other. -/
def Value.at? (value : Value) (category key : String) : Option Value :=
  (value.members?.bind (·.lookup category)).bind fun inner => inner.members?.bind (·.lookup key)

theorem TokenMap.at?_toValue (map : TokenMap) (category key : String) :
    map.toValue.at? category key = (map.slot? category key).map (·.getD .null) := by
  have slots (inner : TokenCategory) :
      (slotMembers inner).lookup key = (inner.lookup key).map (·.getD .null) :=
    lookup_map_items inner (fun content : Option Value => content.getD .null) key
  have categories := lookup_map_items map.categories
    (fun inner => Value.object (slotMembers inner)) category
  rw [Value.at?, toValue, Value.members?, Option.bind_some, categories, slot?, category?]
  cases map.categories.lookup category with
  | none => rfl
  | some inner => exact slots inner

/-- The key whose text stands in for a token without a text, in the categories that have one. -/
def fallbackKey? (category : String) : Option String :=
  if category = "bg" then some "default"
  else if category = "spacing" then some "s"
  else none

theorem publishedValue?_of_fallback {category other : String}
    (fallback : fallbackKey? category = some other) (map : TokenMap) (key : String) :
    publishedValue? map category key =
      ((map.string? category key).or (map.string? category other)).map .string := by
  unfold fallbackKey? at fallback
  unfold publishedValue?
  split at fallback
  · rename_i isBackground
    cases fallback
    rw [if_pos isBackground, isBackground, TokenMap.background?]
  · split at fallback
    · rename_i notBackground isSpacing
      cases fallback
      rw [if_neg notBackground, if_pos isSpacing, isSpacing, TokenMap.spacing?]
    · cases fallback

theorem publishedValue?_of_no_fallback {category : String}
    (fallback : fallbackKey? category = none) (map : TokenMap) (key : String) :
    publishedValue? map category key = map.get? category key := by
  unfold fallbackKey? at fallback
  unfold publishedValue?
  split at fallback
  · cases fallback
  · split at fallback
    · cases fallback
    · rename_i notBackground notSpacing
      rw [if_neg notBackground, if_neg notSpacing]

/-! ### Runs over files that stay the same -/

section Runs

variable (read : FileReader Id) (config : Option String)

/-- The theme tokens of a run, or why it has none. -/
def loadedTokens : Except ConfigurationError (Traced ThemeTokens) :=
  match Id.run (runConfiguration read config) with
  | .error error => .error error
  | .ok configuration =>
    match Id.run (configuration.loadRegistry read) with
    | .error error => .error error
    | .ok registry => Id.run (configuration.loadTokens read registry)

def reportLoaded (report : Traced ThemeTokens → Report) :
    Except ConfigurationError (Traced ThemeTokens) → Report
  | .ok tokens => report tokens
  | .error error => .failed (.configuration error)

/-- A command that reports on theme tokens reports on those of its run. -/
theorem runCommand_withTokens {command : Command} {report : Traced ThemeTokens → Report}
    (reports : ∀ configuration registry, command.run read configuration registry =
      withTokens read configuration registry report) :
    runCommand read config command = reportLoaded report (loadedTokens read config) := by
  have unfolded : runCommand read config command =
      match Id.run (runConfiguration read config) with
      | .error error => .failed (.configuration error)
      | .ok configuration =>
        match Id.run (configuration.loadRegistry read) with
        | .error error => .failed (.configuration error)
        | .ok registry => command.run read configuration registry := rfl
  rw [unfolded, loadedTokens]
  cases Id.run (runConfiguration read config) with
  | error error => rfl
  | ok configuration =>
      dsimp only
      cases Id.run (configuration.loadRegistry read) with
      | error error => rfl
      | ok registry =>
          dsimp only
          rw [reports]
          change (match Id.run (configuration.loadTokens read registry) with
            | .ok tokens => report tokens
            | .error error => .failed (.configuration error)) = _
          cases Id.run (configuration.loadTokens read registry) <;> rfl

theorem runCommand_build (themes : ThemeChoice) (format : OutputFormat) :
    runCommand read config (.build themes format) =
      reportLoaded (reportBuild · themes format) (loadedTokens read config) :=
  runCommand_withTokens read config fun _ _ => rfl

theorem runCommand_get (category key : String) (themes : ThemeChoice) :
    runCommand read config (.get category key themes) =
      reportLoaded (reportGet · category key themes) (loadedTokens read config) :=
  runCommand_withTokens read config fun _ _ => rfl

end Runs

/-- The choice of one theme. -/
def ThemeVariant.choice : ThemeVariant → ThemeChoice
  | .light => .light
  | .dark => .dark

theorem chosenThemes_choice (tokens : ThemeTokens) (variant : ThemeVariant) :
    chosenThemes tokens variant.choice = [(variant, tokens.map variant)] := by
  cases variant <;> rfl

/-- The line that is printed for a token of a theme. -/
def tokenLine (variant : ThemeVariant) (value : Value) : String :=
  variant.name ++ ": " ++ value.printedText ++ "\n"

theorem reportGet_choice (tokens : Traced ThemeTokens) (category key : String)
    (variant : ThemeVariant) :
    reportGet tokens category key variant.choice =
      match publishedValue? (tokens.result.map variant) category key with
      | some value => ⟨tokenLine variant value, tokens.warnings.map .circular, none⟩
      | none => ⟨"", tokens.warnings.map .circular,
          some (.undefinedToken category key variant)⟩ := by
  rw [reportGet, chosenThemes_choice, getLines]
  cases publishedValue? (tokens.result.map variant) category key with
  | none => rfl
  | some value =>
      change (⟨tokenLine variant value ++ "", _, none⟩ : Report) = _
      rw [String.append_empty]

/-- The text of a slot, read off the value of the map. -/
theorem TokenMap.string?_eq_at? (map : TokenMap) (category key : String) :
    map.string? category key = (map.toValue.at? category key).bind Value.string? := by
  rw [at?_toValue, string?, get?]
  cases map.slot? category key with
  | none => rfl
  | some content => cases content <;> rfl

theorem TokenMap.get?_of_at? {map : TokenMap} {category key : String} {value : Value}
    (holds : map.toValue.at? category key = some value) (defined : value ≠ .null) :
    map.get? category key = some value := by
  rw [at?_toValue] at holds
  obtain ⟨content, published, same⟩ := Option.map_eq_some_iff.mp holds
  rw [get?, published]
  cases content with
  | none => exact absurd same.symm defined
  | some kept => exact congrArg some same

theorem publishedValue?_of_at? {map : TokenMap} {category key : String} {value : Value}
    (holds : map.toValue.at? category key = some value) (defined : value ≠ .null)
    (readable : fallbackKey? category = none ∨ ∃ text, value = .string text) :
    publishedValue? map category key = some value := by
  have got := TokenMap.get?_of_at? holds defined
  cases fallback : fallbackKey? category with
  | none => rw [publishedValue?_of_no_fallback fallback, got]
  | some other =>
      rw [fallback] at readable
      obtain ⟨text, rfl⟩ := readable.resolve_left (Option.some_ne_none _)
      have ofSlot : map.string? category key = some text := by
        rw [TokenMap.string?, got]
        rfl
      rw [publishedValue?_of_fallback fallback, ofSlot]
      rfl

/-- Getting a token prints the value that building prints for it, unless it is null, or its
category has a fallback and the value is not a text. Without a text of its own such a token has
that of the fallback, also where building prints a number, an array or an object for it. -/
theorem get_agrees_with_build (read : FileReader Id) (config : Option String)
    (variant : ThemeVariant) :
    (∃ error, runCommand read config (.build variant.choice .json) = .failed error ∧
      ∀ category key, runCommand read config (.get category key variant.choice) =
        .failed error) ∨
    ∃ document : Value,
      (runCommand read config (.build variant.choice .json)).output =
        Json.writePretty document.sorted ++ "\n" ∧
      ∀ category key,
        let got := runCommand read config (.get category key variant.choice)
        (∀ value, document.at? category key = some value → value ≠ .null →
          fallbackKey? category = none ∨ (∃ text, value = .string text) →
          got.output = tokenLine variant value ∧ got.error = none) ∧
        ∀ other, fallbackKey? category = some other →
          (document.at? category key).bind Value.string? = none →
          match (document.at? category other).bind Value.string? with
          | some text => got.output = tokenLine variant (.string text) ∧ got.error = none
          | none => got.output = "" ∧ got.error = some (.undefinedToken category key variant) := by
  rw [runCommand_build]
  simp only [runCommand_get]
  cases loadedTokens read config with
  | error error => exact .inl ⟨_, rfl, fun _ _ => rfl⟩
  | ok tokens =>
      refine .inr ⟨(tokens.result.map variant).toValue, ?_, ?_⟩
      · change render (chosenThemes tokens.result variant.choice) .json ++ "\n" = _
        rw [chosenThemes_choice]
        rfl
      · intro category key
        dsimp only [reportLoaded]
        rw [reportGet_choice]
        constructor
        · intro value holds defined readable
          rw [publishedValue?_of_at? holds defined readable]
          exact ⟨rfl, rfl⟩
        · intro other fallback textless
          rw [← TokenMap.string?_eq_at?] at textless ⊢
          rw [publishedValue?_of_fallback fallback, textless, Option.none_or]
          cases (tokens.result.map variant).string? category other with
          | none => exact ⟨rfl, rfl⟩
          | some text => exact ⟨rfl, rfl⟩

/-- A configuration whose light theme has a number and a text as spacings. -/
def numberedFiles : FileTree := .ofPaths [
  ("vellum.toml", some ("manifest = 'm.toml'\n"
    ++ "[[source]]\nname = 'light'\npath = 'l.json'\n"
    ++ "[[source]]\nname = 'dark'\npath = 'd.json'\n")),
  ("m.toml", some ("[[entry]]\ncategory = 'spacing'\nkey = 'm'\n"
    ++ "[[entry]]\ncategory = 'spacing'\nkey = 's'\n")),
  ("l.json", some "\x7b\"spacing\":\x7b\"m\":16,\"s\":\"12px\"\x7d\x7d"),
  ("d.json", some "\x7b\x7d")]

/-- Where building prints a number for a spacing, getting the spacing prints another one. -/
theorem get_differs_from_built_number :
    let run := runCommand (m := Id) numberedFiles.read (some ".")
    (run (.build .light .json)).output =
        "\x7b\n  \"spacing\": \x7b\n    \"m\": 16,\n    \"s\": \"12px\"\n  \x7d\n\x7d\n" ∧
      (run (.get "spacing" "m" .light)).output = "light: 12px\n" := by
  decide +kernel

end DesignTokens
