import StartOrder.Artifact
import StartOrder.Binary64
import StartOrder.Binary64.Shortest
import StartOrder.Configuration
import StartOrder.Contract
import StartOrder.Dictionary
import StartOrder.Document
import StartOrder.Document.Json
import StartOrder.Document.Readers
import StartOrder.Document.Toml
import StartOrder.Document.Toml.Scalar
import StartOrder.Error
import StartOrder.Feature
import StartOrder.Files
import StartOrder.Filter
import StartOrder.Filter.Fault
import StartOrder.Filter.Grammar
import StartOrder.Filter.Matching
import StartOrder.Manifest
import StartOrder.Manifest.Conversion
import StartOrder.Manifest.Fault
import StartOrder.Manifest.Validation
import StartOrder.Module
import StartOrder.Module.Graph
import StartOrder.Moment
import StartOrder.Order
import StartOrder.Order.Fragment
import StartOrder.Order.Placement
import StartOrder.Proofs.Wiring.Search
import StartOrder.Proofs.Wiring.Support
import StartOrder.Properties
import StartOrder.Region.Fault
import StartOrder.Region.Files
import StartOrder.Region.Membership
import StartOrder.Region.Visibility
import StartOrder.Repository
import StartOrder.Text.Alphanumeric
import StartOrder.Text.Blank
import StartOrder.Text.Cut
import StartOrder.Text.Lowercase
import StartOrder.Text.Numeral
import StartOrder.Text.Printable
import StartOrder.Text.Quoted
import StartOrder.Text.Reader
import StartOrder.Version
import StartOrder.Version.Range
import StartOrder.Vocabulary
import StartOrder.Wiring.Failure
import StartOrder.Wiring.Provider
import StartOrder.Wiring.Resolution
import StartOrder.Proofs.Wiring.Resolution
import StartOrder.Proofs.Order.Placement
import StartOrder.Proofs.Order.Entries
import StartOrder.Proofs.Order.Fragment
import StartOrder.Proofs.Order.ProviderFirst
import StartOrder.Proofs.Order.Movement
import StartOrder.Proofs.Order.Report
import StartOrder.Proofs.Order.Cycles
import StartOrder.Proofs.Order.Leaves
import StartOrder.Proofs.Region.Isolation
import StartOrder.Proofs.Filter.Grammar
import StartOrder.Proofs.Region.Records
import StartOrder.Proofs.Wiring.Completion
import StartOrder.Proofs.Wiring.Memory
import StartOrder.Proofs.Order.Hosts
import StartOrder.Proofs.Wiring.Provision
import StartOrder.Proofs.Region.Transfer
import StartOrder.Proofs.Wiring.Growth
import StartOrder.Proofs.Wiring.Rearrangement
import StartOrder.Proofs.Order.Success
import StartOrder.Proofs.Version.Range
import StartOrder.Proofs.Manifest.Matching
import StartOrder.Proofs.Properties.Layout
import StartOrder.Proofs.Order.Stability
import StartOrder.Proofs.Order.Features
import StartOrder.Proofs.Filter.Pattern
import StartOrder.Proofs.Region.Disclosure
import StartOrder.Proofs.Wiring.Unsatisfied
import StartOrder.Proofs.Order.Blocks
import StartOrder.Proofs.Filter.Viability
import StartOrder.Proofs.Version.Interval
import StartOrder.Proofs.Manifest.Typing
import StartOrder.Proofs.Manifest.Agreement
import StartOrder.Proofs.Feature.Coordinates
import StartOrder.Proofs.Properties.Escapes
import StartOrder.Proofs.Files.Path
import StartOrder.Proofs.Repository.Lookup
import StartOrder.Proofs.Repository.Discovery
import StartOrder.Proofs.Graph.Insertion
import StartOrder.Proofs.Wiring.Rollback
import StartOrder.Proofs.Order.Nesting
import StartOrder.Proofs.Order.Reentry
