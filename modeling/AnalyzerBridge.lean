import AnalyzerBridge.Main
import AnalyzerBridge.Rehearsal
import AnalyzerBridge.Supervision.Scripted
import AnalyzerBridge.Proofs.Consistency
import AnalyzerBridge.Proofs.Containment
import AnalyzerBridge.Proofs.Placement
import AnalyzerBridge.Proofs.Supersession
import AnalyzerBridge.Proofs.Settings
import AnalyzerBridge.Proofs.Supervision
import AnalyzerBridge.Proofs.Cancellation
import AnalyzerBridge.Proofs.Printed
import AnalyzerBridge.Supervision.Attended
import AnalyzerBridge.Proofs.Release
import AnalyzerBridge.Proofs.Contract
import AnalyzerBridge.Proofs.Cursor
import AnalyzerBridge.Proofs.Agreement
import AnalyzerBridge.Proofs.ErrorStream
import AnalyzerBridge.Proofs.Legible
import AnalyzerBridge.Proofs.Linearization
import AnalyzerBridge.Proofs.Traffic
import AnalyzerBridge.Proofs.Concatenation
import AnalyzerBridge.Proofs.Departure
import AnalyzerBridge.Proofs.Hazard
import AnalyzerBridge.Proofs.Declaration
import AnalyzerBridge.Proofs.Repair
import AnalyzerBridge.Proofs.Allotment
import AnalyzerBridge.Proofs.Precedence
import AnalyzerBridge.Proofs.Arrow
import AnalyzerBridge.Proofs.Continuation
import AnalyzerBridge.Proofs.Respelling
import AnalyzerBridge.Proofs.Offset
import AnalyzerBridge.Proofs.Identifier
import AnalyzerBridge.Proofs.Nesting
