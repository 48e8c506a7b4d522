/-
Streams of bytes in time.

A `Feed` is what a reader of a pipe will see: chunks with the time of their
arrival, possibly a pattern that is repeated without end, and the time at which
the stream ends.

Support for runs: nothing is proved about this module, and no proof rests on it.
-/

namespace AnalyzerBridge.Shell

/-- A time, in nanoseconds after the start of a run. -/
abbrev Time := Nat

/-- A stream of bytes in time; `ends` is nothing for a stream that never ends. -/
structure Feed where
  chunks : List (Time × List UInt8) := []
  pattern : List UInt8 := []
  ends : Option Time := some 0
  deriving Inhabited

namespace Feed

/-- The stream that repeats a pattern without end. -/
def endless (pattern : List UInt8) : Feed :=
  { pattern := pattern, ends := none }

/-- The stream of bytes that are there at once. -/
def ofBytes (bytes : List UInt8) (arrival : Time) : Feed :=
  { chunks := [(arrival, bytes)], ends := some arrival }

/-- The bytes before the pattern. -/
def bytes (f : Feed) : List UInt8 :=
  f.chunks.flatMap Prod.snd

/-- At least `count` bytes of a repeated pattern. -/
def repeated (pattern : List UInt8) (count : Nat) : List UInt8 :=
  if pattern.isEmpty then [] else (List.replicate (count / pattern.length + 1) pattern).flatten

/-- A pattern from one of its places on. -/
def rotate (pattern : List UInt8) (count : Nat) : List UInt8 :=
  if pattern.isEmpty then []
  else pattern.drop (count % pattern.length) ++ pattern.take (count % pattern.length)

/-- A stream cut after a number of bytes: what was taken, the time by which it was there (nothing if the
reader waits for ever), and the rest. -/
def take (f : Feed) (count : Nat) (now : Time) :
    List (Time × List UInt8) × Option Time × Feed :=
  go f.chunks count now
where
  go : List (Time × List UInt8) → Nat → Time → List (Time × List UInt8) × Option Time × Feed
    | chunks, 0, now => ([], some now, { f with chunks := chunks })
    | [], count + 1, now =>
      if f.pattern.isEmpty then ([], f.ends.map (max now), { f with chunks := [] })
      else
        ([(now, (repeated f.pattern (count + 1)).take (count + 1))], some now,
          { f with chunks := [], pattern := rotate f.pattern (count + 1) })
    | (arrival, chunk) :: rest, count + 1, now =>
      let now := max now arrival
      if chunk.length ≤ count + 1 then
        let p := go rest (count + 1 - chunk.length) now
        ((now, chunk) :: p.1, p.2)
      else
        ([(now, chunk.take (count + 1))], some now,
          { f with chunks := (arrival, chunk.drop (count + 1)) :: rest })

/-- The number of bytes up to the end of the line with the given number, counting from one; all bytes if
there are fewer lines. -/
def lengthOfLines : (lines : Nat) → List UInt8 → Nat
  | 0, _ => 0
  | _, [] => 0
  | lines + 1, b :: rest => lengthOfLines (if b = 10 then lines else lines + 1) rest + 1

/-- The number of bytes that a number of lines takes. -/
def lineBytes (f : Feed) (lines : Nat) : Nat :=
  lengthOfLines lines (f.bytes ++ (List.replicate lines f.pattern).flatten)

/-- A stream whose chunks and pattern are changed. -/
def map (f : Feed) (change : List UInt8 → List UInt8) : Feed :=
  { f with chunks := f.chunks.map fun c => (c.1, change c.2), pattern := change f.pattern }

end Feed

end AnalyzerBridge.Shell
