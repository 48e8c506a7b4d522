/-
Reading a stream of a child to its end.

A `Reader` asks its stream for bytes again and again, and appends what it is given
to its sink.  It is done when the stream has ended, or when the stream refuses
because it was closed.

Design notes: to ask and to be answered are steps of their own, since a stream can
be closed in between.
-/

namespace AnalyzerBridge.Supervision

/-- What a stream answers to its reader: the next bytes, none of them at its end, or a refusal. -/
inductive Read where
  | bytes (chunk : List UInt8)
  | refused
  deriving DecidableEq

/-- Where a reader is: about to ask, waiting for an answer, at the end of its stream, or cut off from
it. -/
inductive Phase where
  | between
  | waiting
  | atEnd
  | cutOff
  deriving DecidableEq

/-- A reader of a stream, with the bytes it has read so far. -/
structure Reader where
  phase : Phase := .between
  sink : List UInt8 := []

/-- The most bytes that a reader asks for at once. -/
def readBytes : Nat := 65536

/-- The bytes of a stream as a reader is given them that never waits for some. -/
def pieces (bytes : List UInt8) : List (List UInt8) :=
  (List.range ((bytes.length + (readBytes - 1)) / readBytes)).map fun i =>
    (bytes.drop (i * readBytes)).take readBytes

namespace Reader

/-- The reader asks for bytes, unless it is waiting for some or done.  A closed stream refuses at
once. -/
def ask (r : Reader) (closed : Bool) : Reader :=
  if r.phase = .between then { r with phase := if closed then .cutOff else .waiting } else r

/-- The reader is answered, if it is waiting. -/
def receive (r : Reader) (answer : Read) : Reader :=
  if r.phase = .waiting then
    match answer with
    | .bytes [] => { r with phase := .atEnd }
    | .bytes chunk => { phase := .between, sink := r.sink ++ chunk }
    | .refused => { r with phase := .cutOff }
  else r

/-- The reader asks for nothing more. -/
def isDone (r : Reader) : Bool :=
  r.phase == .atEnd || r.phase == .cutOff

/-- One round of a reader of an open stream. -/
def round (r : Reader) (answer : Read) : Reader :=
  (r.ask false).receive answer

/-- A reader of an open stream that answers so. -/
def drain (answers : List Read) : Reader :=
  answers.foldl round {}

end Reader

end AnalyzerBridge.Supervision
