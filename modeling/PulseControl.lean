import PulseControl.CommandLine.FileTree
import PulseControl.Main
import PulseControl.Proofs.Registry.Search
import PulseControl.Proofs.Registry.Links
import PulseControl.Proofs.Registry.Building
import PulseControl.Proofs.Registry.Shortest
import PulseControl.Proofs.Registry.Circles
import PulseControl.Proofs.Registry.Sealed
import PulseControl.Proofs.Except
import PulseControl.Proofs.Lowering.StaticTree
import PulseControl.Proofs.Lowering.Expansion
import PulseControl.Proofs.Lowering.Undeclared
import PulseControl.Proofs.Lowering.Turns
import PulseControl.Proofs.Lowering.Context
import PulseControl.Proofs.Schedule.Commit
import PulseControl.Proofs.ExactScalar
import PulseControl.Proofs.Param.Resolution
import PulseControl.Proofs.Schedule.Along
import PulseControl.Proofs.StandardGates.Cursors
import PulseControl.Proofs.Gate.Signature
import PulseControl.Proofs.Ledger.Blocks
import PulseControl.Proofs.Ledger.Frame
import PulseControl.Proofs.Ledger.Bits
import PulseControl.Proofs.Lowering.Markers
import PulseControl.Proofs.Lowering.Options
import PulseControl.Proofs.Lowering.Calls
import PulseControl.Proofs.Lowering.Failures
import PulseControl.Proofs.Lowering.Reads
import PulseControl.Proofs.Lowering.Succession
import PulseControl.Proofs.Schedule.Commute
import PulseControl.Proofs.StandardGates.Syntheses
import PulseControl.Proofs.StandardGates.Fitting
import PulseControl.Proofs.StandardGates.Stages
import PulseControl.Proofs.StandardGates.Locality
import PulseControl.Proofs.StandardGates.Independence
import PulseControl.Proofs.StandardGates.Bits
import PulseControl.Proofs.Waveform.Pointwise
import PulseControl.Proofs.Waveform.Windows
import PulseControl.Proofs.StandardGates.DriveWindows
import PulseControl.Proofs.RealScalar
import PulseControl.Proofs.ExactLine
import PulseControl.Proofs.Param.Interpolation
import PulseControl.Proofs.Param.Declarations
import PulseControl.Proofs.Waveform.Derivative
import PulseControl.Proofs.Waveform.ClosedForms
import PulseControl.Proofs.Waveform.Bounds
import PulseControl.Proofs.Waveform.Support
import PulseControl.Proofs.Waveform.Beginnings
import PulseControl.Proofs.Waveform.Modulation
import PulseControl.Proofs.Schedule.Rendering
import PulseControl.Proofs.StandardGates.Registered
import PulseControl.Proofs.StandardGates.DefaultRotation
import PulseControl.Proofs.StandardGates.GeneralRotation
import PulseControl.Proofs.StandardGates.Tails
import PulseControl.Proofs.Phasor
import PulseControl.Proofs.Waveform.Baseband
import PulseControl.Proofs.Registry.Leaves
import PulseControl.Proofs.StandardGates.Matrices
import PulseControl.Proofs.StandardGates.Decompositions
import PulseControl.Proofs.StandardGates.VirtualPhase
import PulseControl.Proofs.Param.Reading
import PulseControl.Proofs.StandardGates.Echo
import PulseControl.Proofs.Param.Admission
import PulseControl.Proofs.Param.Idempotence
import PulseControl.Proofs.Param.Segments
import PulseControl.Proofs.Param.Provision
import PulseControl.Proofs.Synthesis.Chain
import PulseControl.Proofs.StandardGates.Refusals
import PulseControl.Proofs.Gate.Expression
import PulseControl.Proofs.Registry.Binding
import PulseControl.Proofs.Registry.Supply
import PulseControl.Proofs.Schedule.RenderErrors
import PulseControl.Proofs.Calibration.History
import PulseControl.Proofs.Calibration.Listing
import PulseControl.Proofs.Calibration.Documents
import PulseControl.Proofs.Document.ReadBack
import PulseControl.Proofs.Calibration.RoundTrip
import PulseControl.Proofs.Waveform.Grid
import PulseControl.Proofs.Waveform.Normal
import PulseControl.Proofs.StandardGates.Pulses
import PulseControl.Proofs.StandardGates.NormalChannels
import PulseControl.Proofs.Channel.Names
import PulseControl.Proofs.CommandLine.Lowering
import PulseControl.Proofs.CommandLine.Channels
import PulseControl.Proofs.OrderedScalar
import PulseControl.Proofs.FloatOrder
import PulseControl.Proofs.Ledger.Latest
import PulseControl.Proofs.StandardGates.Barriers
