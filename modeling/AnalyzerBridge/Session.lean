/-
The requests of a session, by document.

The newest request of a document is its current one.  While it runs it is in
flight, and a newer request or the closing of the document cancels its token.

* `begin` registers a request and cancels the one in flight;
* `finish` removes a request, if it is still the one in flight;
* `close` forgets the document and cancels what is in flight;
* `step` runs any one operation and answers with what it reports.

Design notes: a token is a number, issued in order, and the session remembers
which ones are cancelled; a cancelled token stays cancelled.
-/

namespace AnalyzerBridge

/-- A cancellation token. -/
abbrev Token := Nat

/-- A request that is running. -/
structure InFlight where
  requestId : String
  token : Token
  deriving DecidableEq

/-- The requests of a session. -/
structure Session where
  inFlight : List (String × InFlight) := []
  latest : List (String × String) := []
  issued : Nat := 0
  cancelled : List Token := []
  deriving DecidableEq, Inhabited

/-- A list of pairs with the value of a key set, the key moved to the front. -/
def assign {α : Type} (pairs : List (String × α)) (key : String) (x : α) : List (String × α) :=
  (key, x) :: pairs.filter fun p => p.1 != key

/-- A list of pairs without a key. -/
def remove {α : Type} (pairs : List (String × α)) (key : String) : List (String × α) :=
  pairs.filter fun p => p.1 != key

namespace Session

/-- A token that belongs to no document. -/
def issue (s : Session) : Token × Session :=
  (s.issued, { s with issued := s.issued + 1 })

/-- Cancels a token. -/
def cancel (s : Session) (t : Token) : Session :=
  { s with cancelled := t :: s.cancelled }

/-- The token is cancelled. -/
def isCancelled (s : Session) (t : Token) : Bool :=
  s.cancelled.contains t

/-- Cancels the token of a request, if there is one. -/
def cancelEntry (s : Session) (entry : Option InFlight) : Session :=
  match entry with
  | some e => s.cancel e.token
  | none => s

/-- Registers a request of a document with a fresh token and cancels the one in flight. -/
def begin (s : Session) (uri requestId : String) : Token × Session :=
  let (token, s) := s.issue
  let displaced := s.inFlight.lookup uri
  let s := { s with
    inFlight := assign s.inFlight uri ⟨requestId, token⟩
    latest := assign s.latest uri requestId }
  (token, s.cancelEntry displaced)

/-- The request is the newest one of its document. -/
def isCurrent (s : Session) (uri requestId : String) : Bool :=
  s.latest.lookup uri == some requestId

/-- Removes a request of a document, if it is the one in flight. -/
def finish (s : Session) (uri requestId : String) : Session :=
  match s.inFlight.lookup uri with
  | some e => if e.requestId == requestId then { s with inFlight := remove s.inFlight uri } else s
  | none => s

/-- Forgets a document and cancels its request in flight. -/
def close (s : Session) (uri : String) : Session :=
  { s with inFlight := remove s.inFlight uri, latest := remove s.latest uri }.cancelEntry
    (s.inFlight.lookup uri)

/-- The request of a document that is in flight. -/
def running (s : Session) (uri : String) : Option String :=
  (s.inFlight.lookup uri).map InFlight.requestId

/-- One operation on a session. -/
inductive Step where
  | begin (uri requestId : String)
  | finish (uri requestId : String)
  | close (uri : String)
  | cancel (token : Token)
  | isCurrent (uri requestId : String)
  | running (uri : String)
  | isCancelled (token : Token)
  deriving DecidableEq

/-- What an operation on a session reports. -/
inductive Reply where
  | nothing
  | flag (b : Bool)
  | request (requestId : Option String)
  deriving DecidableEq

/-- Runs one operation. -/
def step (s : Session) : Step → Reply × Session
  | .begin uri requestId => (.nothing, (s.begin uri requestId).2)
  | .finish uri requestId => (.nothing, s.finish uri requestId)
  | .close uri => (.nothing, s.close uri)
  | .cancel token => (.nothing, s.cancel token)
  | .isCurrent uri requestId => (.flag (s.isCurrent uri requestId), s)
  | .running uri => (.request (s.running uri), s)
  | .isCancelled token => (.flag (s.isCancelled token), s)

end Session

end AnalyzerBridge
