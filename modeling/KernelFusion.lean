import KernelFusion.Bundle.Text
import KernelFusion.CommandLine.Run
import KernelFusion.Export.Extractor
import KernelFusion.Fusion.Invoke
import KernelFusion.Fusion.Plan
import KernelFusion.IR.Builder
import KernelFusion.IR.Listing
import KernelFusion.IR.Validation
import KernelFusion.Main
import KernelFusion.Proofs.Acceptance
import KernelFusion.Proofs.Addition
import KernelFusion.Proofs.Agreement
import KernelFusion.Proofs.Assembly
import KernelFusion.Proofs.Blame
import KernelFusion.Proofs.Building
import KernelFusion.Proofs.Checking
import KernelFusion.Proofs.Commit
import KernelFusion.Proofs.Composition
import KernelFusion.Proofs.Construction
import KernelFusion.Proofs.ControlFlow
import KernelFusion.Proofs.Discovery
import KernelFusion.Proofs.Effect
import KernelFusion.Proofs.Emission
import KernelFusion.Proofs.Execution
import KernelFusion.Proofs.ExportTables
import KernelFusion.Proofs.Extraction
import KernelFusion.Proofs.Failure
import KernelFusion.Proofs.Flags
import KernelFusion.Proofs.FloatRange
import KernelFusion.Proofs.FusedStage
import KernelFusion.Proofs.Fusibility
import KernelFusion.Proofs.Growth
import KernelFusion.Proofs.History
import KernelFusion.Proofs.ImageHeader
import KernelFusion.Proofs.ImagePrefix
import KernelFusion.Proofs.ImageReading
import KernelFusion.Proofs.ImageRoundTrip
import KernelFusion.Proofs.Independence
import KernelFusion.Proofs.Integrity
import KernelFusion.Proofs.JsonFloats
import KernelFusion.Proofs.JsonNumbers
import KernelFusion.Proofs.JsonReading
import KernelFusion.Proofs.JsonStrings
import KernelFusion.Proofs.JsonText
import KernelFusion.Proofs.LastWrite
import KernelFusion.Proofs.LinkOrder
import KernelFusion.Proofs.Linking
import KernelFusion.Proofs.Materialize
import KernelFusion.Proofs.Merging
import KernelFusion.Proofs.Observation
import KernelFusion.Proofs.Paths
import KernelFusion.Proofs.Placement
import KernelFusion.Proofs.Planning
import KernelFusion.Proofs.Probe
import KernelFusion.Proofs.ReadBack
import KernelFusion.Proofs.Request
import KernelFusion.Proofs.Rounding
import KernelFusion.Proofs.Rules
import KernelFusion.Proofs.Scaling
import KernelFusion.Proofs.Stepwise
import KernelFusion.Proofs.Store
import KernelFusion.Proofs.StoreInvariant
import KernelFusion.Proofs.Success
import KernelFusion.Proofs.TextAgain
import KernelFusion.Proofs.TextReading
import KernelFusion.Proofs.TextRoundTrip
import KernelFusion.Proofs.Tokens
import KernelFusion.Proofs.Validity
import KernelFusion.Proofs.Violations
import KernelFusion.Proofs.Wrapping
import KernelFusion.Proofs.Writing
import KernelFusion.Samples
