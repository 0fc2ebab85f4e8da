import HiddenNames.Main
import HiddenNames.Resolution.Host
import HiddenNames.Proofs.Resolution.Memory
import HiddenNames.Proofs.Emission.Steady
import HiddenNames.Proofs.Resolution.History
import HiddenNames.Proofs.Containers.Names
import HiddenNames.Proofs.Emission.Agreement
import HiddenNames.Proofs.Emission.Binding
import HiddenNames.Proofs.Emission.Isolation
import HiddenNames.Proofs.Emission.Repeats
import HiddenNames.Proofs.Emission.Emitted
import HiddenNames.Proofs.Files.Written
import HiddenNames.Proofs.Emission.Overwriting
import HiddenNames.Proofs.Emission.Declarations
import HiddenNames.Proofs.CSharp.Words
import HiddenNames.Proofs.Source.Index
import HiddenNames.Proofs.Containers.Walk
import HiddenNames.Proofs.Source.Views
import HiddenNames.Proofs.Source.Nested
import HiddenNames.Proofs.Surface.Reach
import HiddenNames.Proofs.Emission.Refusals
import HiddenNames.Proofs.Marker.ForAll
import HiddenNames.Proofs.Source.Shown
import HiddenNames.Proofs.Emission.AssemblyWide
import HiddenNames.Proofs.Surface.Settled
import HiddenNames.Proofs.Types.Listing
import HiddenNames.Proofs.Reflection.Tiers
import HiddenNames.Proofs.Resolution.Nameable
import HiddenNames.Proofs.Marker.Overloads
import HiddenNames.Proofs.Resolution.Referenced
import HiddenNames.Proofs.Emission.Together
import HiddenNames.Proofs.Surface.Paths
import HiddenNames.Proofs.Source.Order
import HiddenNames.Proofs.Surface.Capture
import HiddenNames.Proofs.Surface.Constraints
import HiddenNames.Proofs.Surface.WholeLines
import HiddenNames.Proofs.Metadata.Addresses
import HiddenNames.Proofs.Metadata.Grove
import HiddenNames.Proofs.Metadata.Hidden
import HiddenNames.Proofs.Identifier.Words
import HiddenNames.Proofs.Surface.Legal
import HiddenNames.Proofs.Source.Lookup
import HiddenNames.Proofs.Resolution.Relisted
import HiddenNames.Proofs.Resolution.Spoiled
import HiddenNames.Proofs.Marker.Prefilter
import HiddenNames.Proofs.Surface.Placeholder
import HiddenNames.Proofs.Source.InStep
import HiddenNames.Proofs.Marker.Containment
import HiddenNames.Proofs.Emission.Loading
import HiddenNames.Proofs.Resolution.Versions
import HiddenNames.Proofs.Identifier.Granted
import HiddenNames.Proofs.Containers.Additions
