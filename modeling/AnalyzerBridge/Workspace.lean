/-
The state that requests work on.

A `Workspace` holds the session, the open documents, the settings once they are
loaded, the number of the next request, and everything shown or logged so far.

Design notes: the analyzer and those who listen to a request may keep a state of
their own; it is the field `surroundings`, of any type.
-/
import AnalyzerBridge.Act
import AnalyzerBridge.Log
import AnalyzerBridge.Service.Position
import AnalyzerBridge.Session
import AnalyzerBridge.Settings.Basic

namespace AnalyzerBridge

/-- An open document. -/
structure Document where
  text : String := ""
  version : Option Int := none
  deriving DecidableEq, Inhabited

/-- A finding as a client shows it. -/
structure Diagnostic where
  range : Range
  message : LooseText
  deriving DecidableEq, Inhabited

/-- The findings of a document as they are sent to a client. -/
structure Publication where
  uri : String
  version : Option Int
  diagnostics : List Diagnostic
  deriving DecidableEq, Inhabited

/-- The state that requests work on. -/
structure Workspace (ε : Type) where
  session : Session := {}
  documents : List (String × Document) := []
  settings : Option Settings := none
  nextNumber : Nat := 1
  published : List Publication := []
  messages : List String := []
  log : List LogRecord := []
  surroundings : ε

namespace Workspace

variable {ε : Type}

/-- Appends log records. -/
def note (records : List LogRecord) : Act (Workspace ε) Unit :=
  Act.change fun w => { w with log := w.log ++ records }

/-- Changes the session. -/
def onSession (f : Session → Session) : Act (Workspace ε) Unit :=
  Act.change fun w => { w with session := f w.session }

/-- A document; one that was never opened is empty. -/
def document (w : Workspace ε) (uri : String) : Document :=
  (w.documents.lookup uri).getD {}

/-- Sets a document. -/
def setDocument (uri : String) (d : Document) : Act (Workspace ε) Unit :=
  Act.change fun w => { w with documents := assign w.documents uri d }

/-- The request is the newest one of its document. -/
def isCurrent (uri requestId : String) : Act (Workspace ε) Bool :=
  Act.look fun w => w.session.isCurrent uri requestId

/-- A fresh request name on a document: its number is never used again. -/
def nextRequestId (uri : String) : Act (Workspace ε) String := fun w =>
  (.ok (uri ++ "#" ++ toString w.nextNumber), { w with nextNumber := w.nextNumber + 1 })

end Workspace

end AnalyzerBridge
