import ScriptHost.Main
import ScriptHost.Proofs.Table.Contents
import ScriptHost.Proofs.Table.Overloads
import ScriptHost.Proofs.Host.Command
import ScriptHost.Proofs.Host.History
import ScriptHost.Proofs.Host.Resolution
import ScriptHost.Proofs.Heap.Reachability
import ScriptHost.Proofs.Heap.Copying
import ScriptHost.Proofs.Heap.Confinement
import ScriptHost.Proofs.Call.Operations
import ScriptHost.Proofs.Call.Evaluation
import ScriptHost.Proofs.Call.Binding
import ScriptHost.Proofs.Call.Footprint
import ScriptHost.Proofs.Call.Isolation
import ScriptHost.Proofs.Call.Dispatch
import ScriptHost.Proofs.Call.Rejection
import ScriptHost.Proofs.Host.Values
import ScriptHost.Proofs.Host.Dispatch
import ScriptHost.Proofs.Text.Escaping
import ScriptHost.Proofs.Value.Debug
import ScriptHost.Proofs.Call.Failure
import ScriptHost.Proofs.Call.Unwinding
import ScriptHost.Proofs.Host.Building
import ScriptHost.Proofs.Table.Directory
import ScriptHost.Proofs.Host.Tables
import ScriptHost.Proofs.Host.Isolation
import ScriptHost.Proofs.Host.Rejection
import ScriptHost.Proofs.Host.Packages
import ScriptHost.Proofs.Host.Leaving
import ScriptHost.Proofs.Heap.Flatness
import ScriptHost.Proofs.Call.Flatness
import ScriptHost.Proofs.Host.Flatness
import ScriptHost.Proofs.Heap.Reading
import ScriptHost.Proofs.Package.Texts
import ScriptHost.Proofs.Host.Texts
import ScriptHost.Proofs.Yaml.Places
import ScriptHost.Proofs.Yaml.Words
import ScriptHost.Proofs.Yaml.Escapes
import ScriptHost.Proofs.Yaml.Quoted
import ScriptHost.Proofs.Yaml.Scalars
import ScriptHost.Proofs.Yaml.Blocks
import ScriptHost.Proofs.Yaml.Characters
import ScriptHost.Proofs.Yaml.Documents
import ScriptHost.Proofs.Signatures.Reading
import ScriptHost.Proofs.Signatures.Grouping
import ScriptHost.Proofs.Host.Listings
import ScriptHost.Proofs.Config.Precedence
import ScriptHost.Proofs.Config.Disabling
import ScriptHost.Proofs.Host.Engines
import ScriptHost.Proofs.Host.Gating
import ScriptHost.Proofs.Number.Nearest
import ScriptHost.Proofs.Number.Decimal
import ScriptHost.Proofs.Number.Shortest
import ScriptHost.Proofs.Number.Reading
import ScriptHost.Proofs.Number.Digits
import ScriptHost.Proofs.Number.Positional
import ScriptHost.Proofs.Value.Single
import ScriptHost.Proofs.Value.Display
import ScriptHost.Proofs.Function.Hints
import ScriptHost.Proofs.Function.Rewording
import ScriptHost.Proofs.Function.Shape
import ScriptHost.Proofs.Host.Shapes
import ScriptHost.Proofs.Table.Merging
import ScriptHost.Proofs.Host.Merging
import ScriptHost.Proofs.Package.Composing
import ScriptHost.Proofs.Host.Strings
import ScriptHost.Proofs.Heap.Isomorphism
import ScriptHost.Proofs.Heap.Acyclicity
import ScriptHost.Proofs.Call.Mutation
import ScriptHost.Proofs.Call.Copies
import ScriptHost.Proofs.Heap.TextsOfData
