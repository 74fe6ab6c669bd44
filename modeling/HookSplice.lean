import HookSplice.Anchor
import HookSplice.Body
import HookSplice.Body.Analyses
import HookSplice.Body.Format
import HookSplice.Command.Arguments
import HookSplice.Command.Basic
import HookSplice.Command.Directory
import HookSplice.Command.Run
import HookSplice.Deployment
import HookSplice.Digest
import HookSplice.Event.Bus
import HookSplice.Event.Format
import HookSplice.Event.Invocation
import HookSplice.Event.Payload
import HookSplice.EventContract
import HookSplice.EventGate
import HookSplice.Fingerprint
import HookSplice.FlowGraph
import HookSplice.Host
import HookSplice.Image.Fault
import HookSplice.Image.Line
import HookSplice.Image.Printer
import HookSplice.Image.Reader
import HookSplice.Install
import HookSplice.Instruction
import HookSplice.Json.Decode
import HookSplice.Json.Printer
import HookSplice.Json.Reader
import HookSplice.Json.Value
import HookSplice.Machine.Action
import HookSplice.Machine.Events
import HookSplice.Machine.Frame
import HookSplice.Machine.Heap
import HookSplice.Machine.Run
import HookSplice.Machine.Trap
import HookSplice.Main
import HookSplice.Manifest.Basic
import HookSplice.Manifest.Format
import HookSplice.Opcode
import HookSplice.Order
import HookSplice.Proofs.ActionSimulation
import HookSplice.Proofs.AnchorMatches
import HookSplice.Proofs.Arrangement
import HookSplice.Proofs.AtomicDispatch
import HookSplice.Proofs.Batches
import HookSplice.Proofs.BlockTransfers
import HookSplice.Proofs.Blocks
import HookSplice.Proofs.BodyMoves
import HookSplice.Proofs.CallBudgets
import HookSplice.Proofs.ClosedTemplates
import HookSplice.Proofs.Common
import HookSplice.Proofs.ContractLookup
import HookSplice.Proofs.Declarations
import HookSplice.Proofs.DeliveryFold
import HookSplice.Proofs.DeploymentStages
import HookSplice.Proofs.DepthAssignment
import HookSplice.Proofs.DepthMap
import HookSplice.Proofs.DispatchDepth
import HookSplice.Proofs.DispatchTraces
import HookSplice.Proofs.EventObjects
import HookSplice.Proofs.EventSimulation
import HookSplice.Proofs.Expansion
import HookSplice.Proofs.Exploration
import HookSplice.Proofs.FinallyDiscipline
import HookSplice.Proofs.FinallyHandlers
import HookSplice.Proofs.FinallyRuns
import HookSplice.Proofs.FingerprintText
import HookSplice.Proofs.FrameDepth
import HookSplice.Proofs.FrameSimulation
import HookSplice.Proofs.FrameTurns
import HookSplice.Proofs.Freshness
import HookSplice.Proofs.GateAcceptance
import HookSplice.Proofs.GateCode
import HookSplice.Proofs.GateExecution
import HookSplice.Proofs.GateLaw
import HookSplice.Proofs.GatePassages
import HookSplice.Proofs.HandlerEntries
import HookSplice.Proofs.HandlerOrder
import HookSplice.Proofs.Hooking
import HookSplice.Proofs.Hosts
import HookSplice.Proofs.IndependentHooks
import HookSplice.Proofs.Insertion
import HookSplice.Proofs.InstallReports
import HookSplice.Proofs.Installation
import HookSplice.Proofs.InstructionControl
import HookSplice.Proofs.JsonText
import HookSplice.Proofs.KnownTemplates
import HookSplice.Proofs.LabelNames
import HookSplice.Proofs.LabelOrder
import HookSplice.Proofs.Labels
import HookSplice.Proofs.LargestDepth
import HookSplice.Proofs.Lifecycle
import HookSplice.Proofs.MachineSafety
import HookSplice.Proofs.MachineSteps
import HookSplice.Proofs.MachineSimulation
import HookSplice.Proofs.ManifestLoading
import HookSplice.Proofs.ManifestText
import HookSplice.Proofs.MethodKeys
import HookSplice.Proofs.NestedCalls
import HookSplice.Proofs.Numerals
import HookSplice.Proofs.ObjectTypes
import HookSplice.Proofs.OrderedInsertion
import HookSplice.Proofs.OutlineSteps
import HookSplice.Proofs.PendingActions
import HookSplice.Proofs.PrintedBody
import HookSplice.Proofs.PrintedImage
import HookSplice.Proofs.PrintedLines
import HookSplice.Proofs.PrintedOutline
import HookSplice.Proofs.PrintedSymbols
import HookSplice.Proofs.Propagation
import HookSplice.Proofs.ProperDeclarations
import HookSplice.Proofs.Reachability
import HookSplice.Proofs.ReadBodies
import HookSplice.Proofs.ReadHosts
import HookSplice.Proofs.ReadSymbols
import HookSplice.Proofs.RecordedExits
import HookSplice.Proofs.RegionLayout
import HookSplice.Proofs.ReloadedBody
import HookSplice.Proofs.ReloadedHost
import HookSplice.Proofs.Relocation
import HookSplice.Proofs.Renaming
import HookSplice.Proofs.Renumbering
import HookSplice.Proofs.ReprintedBody
import HookSplice.Proofs.ReprintedHost
import HookSplice.Proofs.ReturnStubs
import HookSplice.Proofs.RoundTrip
import HookSplice.Proofs.RunPaths
import HookSplice.Proofs.RunningHandlers
import HookSplice.Proofs.SavedHosts
import HookSplice.Proofs.Sorting
import HookSplice.Proofs.SoundBodies
import HookSplice.Proofs.SoundSplices
import HookSplice.Proofs.SoundSymbols
import HookSplice.Proofs.Spellings
import HookSplice.Proofs.SpliceVerification
import HookSplice.Proofs.SplicedCode
import HookSplice.Proofs.SplicedDepths
import HookSplice.Proofs.SplicedStructure
import HookSplice.Proofs.Splicing
import HookSplice.Proofs.StackBounds
import HookSplice.Proofs.StraightRuns
import HookSplice.Proofs.StructuralTraps
import HookSplice.Proofs.SubscriberLists
import HookSplice.Proofs.SymbolHistory
import HookSplice.Proofs.TextCuts
import HookSplice.Proofs.TextSeparation
import HookSplice.Proofs.Transparency
import HookSplice.Proofs.TruthfulReports
import HookSplice.Proofs.UnknownKeys
import HookSplice.Proofs.UnwindingOrder
import HookSplice.Registry
import HookSplice.RunEffect
import HookSplice.Splice
import HookSplice.StackEffect
import HookSplice.StackMap
import HookSplice.Symbols
import HookSplice.Symbols.Format
import HookSplice.Template
import HookSplice.Template.Format
import HookSplice.Text.Blank
import HookSplice.Text.Hex
import HookSplice.Text.Inspect
import HookSplice.Text.Numbered
import HookSplice.Text.Numeral
import HookSplice.Text.Quoted
import HookSplice.Value
import HookSplice.Violation
import HookSplice.Proofs.DeniedPaths
import HookSplice.Proofs.StringLiterals
