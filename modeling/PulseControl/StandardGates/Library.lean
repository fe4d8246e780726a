import PulseControl.StandardGates.Composites
import PulseControl.StandardGates.CrossResonance
import PulseControl.StandardGates.DriveRotation
import PulseControl.StandardGates.FluxPulse
import PulseControl.StandardGates.FrameAndTime
import PulseControl.StandardGates.Readout

/-!
# The standard library of gates

* `PulseControl.StandardGates.definitions` – every gate in the order of registration;
* `PulseControl.StandardGates.builder` – a builder that holds them, to which more can be added;
* `PulseControl.StandardGates.registry` – the registry of just these.
-/

namespace PulseControl

namespace StandardGates

variable {α : Type} [Scalar α]

/-- The primitive gates. Rotations between other pairs of levels differ only in their calibration. -/
def primitives : List (GateKey × GateDefinition α) :=
  [(.plain "rfUnitary", .primitive DriveRotation.schema DriveRotation.procedure),
    (.plain "rfUnitary12", .primitive DriveRotation.schema DriveRotation.procedure),
    (.plain "rfUnitary02", .primitive DriveRotation.schema DriveRotation.procedure),
    (.plain "Measure", .primitive Readout.schema Readout.procedure),
    (.plain "CR", .primitive CrossResonance.schema (CrossResonance.procedure .direct)),
    (⟨"CR", some "echo"⟩, .primitive CrossResonance.schema (CrossResonance.procedure .echoed)),
    (.plain "iSWAP", .primitive FluxPulse.schema FluxPulse.procedure),
    (.plain "CZ", .primitive FluxPulse.schema FluxPulse.procedure),
    (.plain "P", .primitive [] PhaseShift.procedure),
    (.plain "Delay", .primitive [] Delay.procedure),
    (.plain "Barrier", .primitive [] Barrier.procedure)]

/-- Every gate of the library, in the order of registration. -/
def definitions : List (GateKey × GateDefinition α) := primitives ++ Composites.all

/-- A builder that holds the library. -/
def builder : Except (GateError α) (Registry.Builder α) :=
  definitions.foldlM (fun b entry => b.register entry.1 entry.2) ∅

/-- The registry of the library alone. -/
def registry : Except (GateError α) (Registry α) := do (← builder).build

end StandardGates

end PulseControl
