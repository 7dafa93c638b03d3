/-
What building writes.

The theme tokens of a run come from the documents that its files hold, so nothing
has to be asked of their maps. Whichever themes are chosen, the JSON and the TOML
that building writes say the same of them.
-/
import DesignTokens.Proofs.CommandLine.Printed
import DesignTokens.Proofs.Output.Formats
import DesignTokens.Proofs.Theme.Built

namespace DesignTokens

variable {read : FileReader Id} {config : Option String} {tokens : Traced ThemeTokens}

/-- The tokens of a run are built over a registry that was loaded. -/
theorem exists_registry_of_loadedTokens (loaded : loadedTokens read config = .ok tokens) :
    ∃ registry : SourceRegistry, registry.FromDocuments ∧
      ∃ configuration : Configuration, ∃ manifest,
        configuration.buildTokens registry manifest = .ok tokens := by
  unfold loadedTokens at loaded
  split at loaded
  · cases loaded
  · rename_i configuration _
    split at loaded
    · cases loaded
    · rename_i registry isRegistry
      have documents := Configuration.fromDocuments_of_loadRegistry read configuration isRegistry
      change (Id.run (configuration.loadManifest read)).bind
        (configuration.buildTokens registry) = .ok tokens at loaded
      cases isManifest : Id.run (configuration.loadManifest read) with
      | error error => rw [isManifest] at loaded; cases loaded
      | ok manifest =>
          rw [isManifest] at loaded
          exact ⟨registry, documents, configuration, manifest, loaded⟩

theorem maps_of_loadedTokens (loaded : loadedTokens read config = .ok tokens)
    (variant : ThemeVariant) :
    (tokens.result.map variant).WellFormed ∧ (tokens.result.map variant).toValue.Finite := by
  obtain ⟨registry, documents, configuration, manifest, built⟩ :=
    exists_registry_of_loadedTokens loaded
  exact Configuration.maps_of_buildTokens documents built variant

/-- The two texts that a run writes for some themes are those of a value and of a table, and the
table says what the value says, less its nulls. -/
theorem runCommand_build_formats (loaded : loadedTokens read config = .ok tokens)
    (choice : ThemeChoice) :
    let themes := chosenThemes tokens.result choice
    (runCommand read config (.build choice .json)).output =
        Json.writePretty (themesValue themes).sorted ++ "\n" ∧
      (runCommand read config (.build choice .toml)).output =
        Toml.write (themesTable themes) ++ "\n" ∧
      (Toml.Value.table (themesTable themes)).data =
        (themesValue themes).sorted.data.withoutNulls := by
  intro themes
  have maps (theme : RenderedTheme) (chosen : theme ∈ themes) :
      theme.2.WellFormed ∧ theme.2.toValue.Finite := by
    obtain ⟨variant, -, rfl⟩ := List.mem_map.mp chosen
    exact maps_of_loadedTokens loaded variant
  rw [runCommand_build, runCommand_build, loaded]
  exact ⟨rfl, rfl, data_themesTable themes (fun theme chosen => (maps theme chosen).1)
    (fun theme chosen => (maps theme chosen).2)⟩

end DesignTokens
