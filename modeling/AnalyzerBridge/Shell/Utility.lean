/-
The commands that scripts call.

`builtin?` knows them all: the programs that read and write streams and those that
act on the shell itself.

Design notes: a program takes no time of its own; it ends when it has read what
it reads, and a program that has no end of input never ends.

Support for runs: nothing is proved about this module, and no proof rests on it.
-/
import AnalyzerBridge.Shell.Expansion

namespace AnalyzerBridge.Shell

/-! ### Arguments -/

/-- A time that outlasts every run: some thirty thousand years. -/
def endless : Time := Nat.pow 10 21

/-- A time as `sleep` takes it: a decimal number of seconds, minutes, hours or days, or one of the two
names of a time without end. -/
def duration? (text : String) : Option Time :=
  if ["inf", "infinity"].contains (String.ofList (text.toList.map Char.toLower)) then some endless else
  let (number, scale) := match text.toList.reverse with
    | 's' :: rest => (rest.reverse, 1)
    | 'm' :: rest => (rest.reverse, 60)
    | 'h' :: rest => (rest.reverse, 3600)
    | 'd' :: rest => (rest.reverse, 86400)
    | _ => (text.toList, 1)
  let whole := number.takeWhile Text.isAsciiDigit
  let rest := number.dropWhile Text.isAsciiDigit
  let fraction := match rest with
    | '.' :: digits => digits
    | _ => []
  let isExact := rest.isEmpty || rest.length = fraction.length + 1
  if isExact && fraction.all Text.isAsciiDigit && !(whole ++ fraction).isEmpty then
    let digits := (whole ++ fraction).filterMap Text.digitValue?
    some (Text.ofDigits 10 digits * scale * 1000000000 / Nat.pow 10 fraction.length)
  else none

/-- The signals that can be named. -/
def signals : List (String × Nat) := [
  ("EXIT", 0), ("HUP", 1), ("INT", 2), ("QUIT", 3), ("ILL", 4), ("TRAP", 5), ("ABRT", 6),
  ("BUS", 7), ("FPE", 8), ("KILL", 9), ("USR1", 10), ("SEGV", 11), ("USR2", 12), ("PIPE", 13),
  ("ALRM", 14), ("TERM", 15), ("CHLD", 17), ("CONT", 18), ("STOP", 19), ("TSTP", 20), ("TTIN", 21),
  ("TTOU", 22), ("URG", 23), ("WINCH", 28)]

/-- The signal of a name or a number. -/
def signal? (text : String) : Option Nat :=
  match text.toNat? with
  | some n => some n
  | none =>
    let name := String.ofList (text.toList.map Char.toUpper)
    signals.lookup name <|>
      if "SIG".toList.isPrefixOf name.toList then signals.lookup (String.ofList (name.toList.drop 3))
      else none

/-- How a shell reports that a child was killed. -/
def deathNotice? (signal : Nat) : Option String :=
  match signal with
  | 1 => some "Hangup"
  | 3 => some "Quit"
  | 4 => some "Illegal instruction"
  | 6 => some "Aborted"
  | 7 => some "Bus error"
  | 8 => some "Floating point exception"
  | 9 => some "Killed"
  | 10 => some "User defined signal 1"
  | 11 => some "Segmentation fault"
  | 12 => some "User defined signal 2"
  | 14 => some "Alarm clock"
  | 15 => some "Terminated"
  | _ => none

/-! ### Programs on streams -/

/-- The stream of a file that programs can read. -/
def fileFeed? (m : Machine) (path : String) : Option Feed :=
  match path with
  | "-" | "/dev/stdin" => some m.input
  | "/dev/null" => some {}
  | "/dev/zero" => some (Feed.endless [0])
  | _ => none

/-- The whole input. -/
def takeInput : StateM Machine Feed := do
  let m ← get
  set { m with input := ({} : Feed) }
  return m.input

/-- The stream that a program reads: a file, or its input. -/
def openFeed (program : String) (file : Option String) : StateM Machine (Option Feed) := do
  match file with
  | none => return some (← takeInput)
  | some path =>
    match fileFeed? (← get) path with
    | some f => return some f
    | none =>
      let lead := if program == "cat" then "cat: " ++ path
        else program ++ ": cannot open '" ++ path ++ "' for reading"
      report (lead ++ ": No such file or directory")
      return none

/-- Passes files on one after another. -/
def catenate : List (Option String) → Run
  | [] => finish 0
  | file :: rest => do
    match ← openFeed "cat" file with
    | none =>
      let _ ← catenate rest
      finish 1
    | some f =>
      match ← passOn f with
      | .next => catenate rest
      | flow => return flow

/-- Passes the beginning of a stream on: a number of bytes or of lines. -/
def passHead (file : Option String) (bytesOnly : Bool) (count : Nat) : Run := do
  match ← openFeed "head" file with
  | none => finish 1
  | some f =>
    if !bytesOnly && !f.pattern.isEmpty && !f.pattern.contains 10 then return .forever
    let count := if bytesOnly then count else f.lineBytes count
    let (chunks, time, rest) := f.take count (← get).clock
    modify fun m =>
      let m := chunks.foldl (fun m c => m.write m.out c.2 c.1) m
      if file.isNone then { m with input := rest } else m
    waitUntil time 0

/-- Passes the end of a stream on: a number of bytes or of lines. -/
def passTail (file : Option String) (bytesOnly : Bool) (count : Nat) : Run := do
  match ← openFeed "tail" file with
  | none => finish 1
  | some f =>
    match f.ends with
    | none => return .forever
    | some t =>
      let bytes := f.bytes
      let lineEnds := bytes.count 10 + (if bytes.getLast?.any (· != 10) then 1 else 0)
      let skipped := if bytesOnly then bytes.length - count
        else Feed.lengthOfLines (lineEnds - count) bytes
      passOn (Feed.ofBytes (bytes.drop skipped) t)

/-- A set of bytes as `tr` takes it, with its escapes and ranges. -/
def byteSet : (fuel : Nat) → List Char → List UInt8
  | 0, _ => []
  | fuel + 1, text =>
    match text with
    | [] => []
    | '\\' :: rest =>
      let p := escape rest
      let single := if p.2 = 0 then (Text.Utf8.encode (rest.take 1), 1) else p
      single.1 ++ byteSet fuel (rest.drop single.2)
    | a :: '-' :: b :: rest =>
      (List.range (b.toNat + 1 - a.toNat)).map (fun k => UInt8.ofNat (a.toNat + k)) ++ byteSet fuel rest
    | c :: rest => Text.Utf8.encode [c] ++ byteSet fuel rest

/-- A set of bytes, classes included. -/
def byteSetOf (text : String) : List UInt8 :=
  match text with
  | "[:lower:]" => byteSet 4 "a-z".toList
  | "[:upper:]" => byteSet 4 "A-Z".toList
  | "[:digit:]" => byteSet 4 "0-9".toList
  | "[:space:]" => [9, 10, 11, 12, 13, 32]
  | _ => byteSet (text.length + 1) text.toList

/-- A byte after the members of one list are replaced by those of another. -/
def substitute (members replacements : List UInt8) (b : UInt8) : UInt8 :=
  match members.idxOf? b with
  | some k => (replacements[k]? <|> replacements.getLast?).getD b
  | none => b

/-- Whole numbers, one a line. -/
def numberLines (first last : Int) : List UInt8 :=
  let count := (last + 1 - first).toNat
  (List.range count).flatMap fun (k : Nat) => bytesOf (toString (first + (k : Int)) ++ "\n")

/-- How many bytes or lines a program is asked for, and of which file. -/
def headArguments (args : List String) : Bool × Nat × Option String :=
  let number := fun (s : String) => s.toNat?.getD 10
  match args with
  | "-c" :: n :: rest => (true, number n, rest.head?)
  | "-n" :: n :: rest => (false, number n, rest.head?)
  | [] => (false, 10, none)
  | a :: rest =>
    match a.toList with
    | '-' :: 'c' :: n => (true, number (String.ofList n), rest.head?)
    | '-' :: 'n' :: n => (false, number (String.ofList n), rest.head?)
    | '-' :: n => (false, number (String.ofList n), rest.head?)
    | _ => (false, 10, some a)

/-- The programs that are known, apart from the shell. -/
def utilities : List String := ["sleep", "cat", "head", "tail", "tr", "yes", "seq", "wc"]

/-- Sleeps for the sum of its arguments. -/
def sleepFor (args : List String) : Run := do
  if args.isEmpty then
    report "sleep: missing operand\nTry 'sleep --help' for more information."
    finish 1
  else if args.contains "infinity" then return .forever
  else
    match args.find? fun a => (duration? a).isNone with
    | some a =>
      report ("sleep: invalid time interval '" ++ a ++
        "'\nTry 'sleep --help' for more information.")
      finish 1
    | none =>
      let total := (args.filterMap duration?).foldr (· + ·) 0
      waitUntil (some ((← get).clock + total)) 0

/-- Runs a program on streams. -/
def runUtility (program : String) (args : List String) : Run := do
  match program, args with
  | "sleep", args => sleepFor args
  | "cat", [] => catenate [none]
  | "cat", files => catenate (files.map some)
  | "head", args =>
    let (bytesOnly, count, file) := headArguments args
    passHead file bytesOnly count
  | "tail", args =>
    let (bytesOnly, count, file) := headArguments args
    passTail file bytesOnly count
  | "yes", args =>
    passOn (Feed.endless (bytesOf ((if args.isEmpty then "y" else " ".intercalate args) ++ "\n")))
  | "tr", ["-d", members] =>
    passOn ((← takeInput).map fun bytes => bytes.filter fun b => !(byteSetOf members).contains b)
  | "tr", [members, replacements] =>
    passOn ((← takeInput).map fun bytes =>
      bytes.map (substitute (byteSetOf members) (byteSetOf replacements)))
  | "seq", [last] =>
    print (numberLines 1 (last.toInt?.getD 0))
    finish 0
  | "seq", [first, last] =>
    print (numberLines (first.toInt?.getD 0) (last.toInt?.getD 0))
    finish 0
  | "wc", [flag] =>
    let f ← takeInput
    match f.ends with
    | none => return .forever
    | some t =>
      let bytes := f.bytes
      let n := if flag == "-l" then bytes.count 10 else bytes.length
      passOn (Feed.ofBytes (bytesOf (toString n ++ "\n")) t)
  | _, _ => finish 1

/-! ### Tests -/

/-- A comparison of two texts, as numbers or as texts. -/
def compareTexts (a symbol b : String) : Bool :=
  let x := (numberArgument a).1
  let y := (numberArgument b).1
  match symbol with
  | "=" | "==" => a == b
  | "!=" => a != b
  | "-eq" => x == y
  | "-ne" => x != y
  | "-lt" => x < y
  | "-le" => x ≤ y
  | "-gt" => y < x
  | "-ge" => y ≤ x
  | _ => false

/-- The truth of a test. -/
def holds : List String → Bool
  | "!" :: rest => !holds rest
  | [a, symbol, b] => compareTexts a symbol b
  | ["-n", a] => a != ""
  | ["-z", a] => a == ""
  | [_, _] => false
  | [a] => a != ""
  | _ => false

/-! ### The shell itself -/

/-- Ends a builtin that was misused; a special one ends the shell. -/
def misuse (message : String) (special : Bool) : Run := do
  complain message
  let _ ← finish misuseStatus
  return if special then .leave else .next

/-- Leaves the shell. -/
def leaveWith (args : List String) : Run := do
  match args with
  | [] => return .leave
  | a :: _ =>
    match a.toNat? with
    | some n =>
      let _ ← finish (n % 256)
      return .leave
    | none => misuse ("exit: Illegal number: " ++ a) true

/-- Delivers a signal to the shell. -/
def receive (run : Runner) (signal : Nat) : Run := do
  let m ← get
  match if signal = 9 then none else m.traps.lookup signal with
  | some "" => finish 0
  | some action => do
    match ← runScript run action.toList with
    | .next => finish 0
    | flow => return flow
  | none =>
    if signal = 0 || [17, 18, 23, 28].contains signal then finish 0
    else if 19 ≤ signal && signal ≤ 22 then return .forever
    else return .killed signal

/-- Ends a job in the background at once. -/
def endJob (number : Nat) (m : Machine) : Machine :=
  let isLater := fun (t : Option Time) => t.all fun t => m.clock < t
  { m with
    writes := m.writes.filter fun w => w.job != number || w.time ≤ m.clock
    holds := m.holds.map fun h =>
      if h.job = number && isLater h.ends then { h with ends := some m.clock } else h
    jobs := m.jobs.map fun j =>
      if j.number = number && isLater j.ends then { j with ends := some m.clock } else j }

/-- Sends a signal to a process. -/
def signalTo (run : Runner) (signal : Nat) (target : String) : Run := do
  let m ← get
  if target == toString shellNumber || target == "0" || target == "-" ++ toString shellNumber then
    receive run signal
  else
    match target.toInt? with
    | none => misuse ("kill: Illegal number: " ++ target) false
    | some n =>
      match m.jobs.find? fun j => (j.number : Int) == n with
      | some j =>
        if signal != 0 then set (endJob j.number m)
        finish 0
      | none =>
        complain "kill: No such process"
        finish 1

/-- How `kill` is used. -/
def killUsage : String :=
  "kill: Usage: kill [-s sigspec | -signum | -sigspec] [pid | job]... or\nkill -l [exitstatus]"

/-- Sends signals. -/
def sendSignals (run : Runner) (args : List String) : Run := do
  let (signal, targets) := match args with
    | "-s" :: name :: rest => (signal? name, rest)
    | "--" :: rest => (some 15, rest)
    | a :: rest =>
      match a.toList with
      | '-' :: name => (signal? (String.ofList name), rest)
      | _ => (some 15, a :: rest)
    | [] => (some 15, [])
  match signal, targets with
  | _, [] => misuse killUsage false
  | none, _ => misuse "kill: invalid signal number or name" false
  | some signal, targets => deliver signal targets
where
  deliver (signal : Nat) : List String → Run
    | [] => finish 0
    | [target] => signalTo run signal target
    | target :: rest => do
      match ← signalTo run signal target with
      | .next => deliver signal rest
      | flow => return flow

/-- Sets or clears the actions on signals. -/
def setTraps (args : List String) : Run := do
  match args with
  | action :: first :: rest =>
    for name in first :: rest do
      match signal? name with
      | none => complain ("trap: " ++ name ++ ": bad trap")
      | some signal =>
        modify fun m =>
          let others := m.traps.filter fun t => t.1 != signal
          { m with traps := if action == "-" then others else (signal, action) :: others }
    finish 0
  | _ => finish 0

/-- Waits for all jobs, or for one. -/
def waitForJobs (args : List String) : Run := do
  let m ← get
  let awaited := match args with
    | [] => m.jobs
    | numbers => m.jobs.filter fun j => numbers.contains (toString j.number)
  let status := if args.isEmpty then 0 else (awaited.head?.map Job.status).getD 127
  if awaited.any fun j => j.ends.isNone then return .forever
  else waitUntil (some ((awaited.filterMap Job.ends).foldl max m.clock)) status

/-- Reads a line into variables, the rest of it into the last one. -/
def readLineInto (names : List String) : Run := do
  let m ← get
  let f := m.input
  let (chunks, time, rest) := f.take (f.lineBytes 1) m.clock
  let bytes := chunks.flatMap Prod.snd
  let line := (Text.Utf8.decodeLossy bytes).takeWhile (· != '\n')
  set (assignFields names (skipBlanks line) { m with input := rest })
  waitUntil time (if bytes.getLast? == some 10 then 0 else 1)
where
  assignFields : List String → List Char → Machine → Machine
    | [], _, m => m
    | [name], text, m => m.assign name (String.ofList ((skipBlanks text.reverse).reverse))
    | name :: rest, text, m =>
      let isGap := fun c => c == ' ' || c == '\t'
      assignFields rest (skipBlanks (text.dropWhile fun c => !isGap c))
        (m.assign name (String.ofList (text.takeWhile fun c => !isGap c)))

/-- Prints with a format. -/
def printFormatted (args : List String) : Run := do
  match args with
  | [] => misuse "printf: usage: printf format [arg ...]" false
  | format :: args =>
    let f := formatted format args
    for complaint in f.complaints do complain ("printf: " ++ complaint)
    print f.output
    finish (if f.complaints.isEmpty then 0
      else if f.complaints.any fun c => "%".toList.isPrefixOf c.toList then misuseStatus else 1)

/-- Sets variables given as `name=value`. -/
def exportAll (args : List String) : Run := do
  for a in args do
    let name := a.toList.takeWhile (· != '=')
    if name.length < a.length then
      modify fun m => m.assign (String.ofList name) (String.ofList (a.toList.drop (name.length + 1)))
  finish 0

/-- Drops the first arguments. -/
def shiftArguments (args : List String) : Run := do
  let m ← get
  let count := (args.head?.bind String.toNat?).getD 1
  if m.args.length < count then misuse "shift: can't shift that many" true
  else
    set { m with args := m.args.drop count }
    finish 0

/-- The builtins that take no commands as arguments. -/
def builtin? (run : Runner) (name : String) (args : List String) : Option Run :=
  match name with
  | ":" | "true" | "set" | "cd" | "umask" | "ulimit" => some (finish 0)
  | "false" => some (finish 1)
  | "echo" => some do
    print (echoed args)
    finish 0
  | "printf" => some (printFormatted args)
  | "exit" | "return" => some (leaveWith args)
  | "break" => some (pure .breakLoop)
  | "continue" => some (pure .continueLoop)
  | "kill" => some (sendSignals run args)
  | "trap" => some (setTraps args)
  | "wait" => some (waitForJobs args)
  | "read" => some (readLineInto (args.filter (· != "-r")))
  | "export" | "readonly" => some (exportAll args)
  | "unset" => some do
    modify fun m => { m with bindings := m.bindings.filter fun v => !args.contains v.1 }
    finish 0
  | "shift" => some (shiftArguments args)
  | "test" => some (finish (if holds args then 0 else 1))
  | "[" => some (finish (if holds args.dropLast then 0 else 1))
  | "eval" => some (runScript run (" ".intercalate args).toList)
  | _ => none

end AnalyzerBridge.Shell
