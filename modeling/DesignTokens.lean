import DesignTokens.Main
import DesignTokens.Proofs.Resolution.Halting
import DesignTokens.Proofs.Resolution.Bounds
import DesignTokens.Proofs.Resolution.Expansion
import DesignTokens.Proofs.Resolution.Settled
import DesignTokens.Proofs.Resolution.Alias
import DesignTokens.Proofs.Theme.Slots
import DesignTokens.Proofs.Theme.Isolation
import DesignTokens.Proofs.Members
import DesignTokens.Proofs.Tree.Descent
import DesignTokens.Proofs.Tree.WellFormed
import DesignTokens.Proofs.CommandLine.Printed
import DesignTokens.Proofs.CommandLine.Rendered
import DesignTokens.Proofs.Value.Equality
import DesignTokens.Proofs.Number.Equality
import DesignTokens.Proofs.Value.Collapse
import DesignTokens.Proofs.Tree.Equality
import DesignTokens.Proofs.Resolution.Reordered
import DesignTokens.Proofs.Theme.Reordered
import DesignTokens.Proofs.Resolution.Extension
import DesignTokens.Proofs.Tree.Document
import DesignTokens.Proofs.Number.Exact
import DesignTokens.Proofs.Number.Whole
import DesignTokens.Proofs.Output.Formats
import DesignTokens.Proofs.Output.Leaves
import DesignTokens.Proofs.Output.Variables
import DesignTokens.Proofs.Json.Spelling
import DesignTokens.Proofs.Json.RoundTrip
import DesignTokens.Proofs.Output.Block
import DesignTokens.Proofs.Output.Equality
import DesignTokens.Proofs.Source.Calls
import DesignTokens.Proofs.Tree.Place
import DesignTokens.Proofs.Resolution.Arrays
import DesignTokens.Proofs.Resolution.Entries
import DesignTokens.Proofs.Number.Overflow
import DesignTokens.Proofs.Source.Documents
import DesignTokens.Proofs.Resolution.Lengths
