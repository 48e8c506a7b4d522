/-
Layers of settings and the reading of single settings.

A layer is a table.  `overlay` puts one layer on another, skipping what it leaves
absent.  The readers below turn the value that a layer gives into a truth value,
a list of arguments or a number of milliseconds.
-/
import AnalyzerBridge.Failure
import AnalyzerBridge.Settings.PurePath

namespace AnalyzerBridge.Settings

/-- One layer on top of another: a value of the upper layer stands unless it is absent. -/
def overlay (upper lower : Table) : Table :=
  upper.foldl (fun t field => if field.2.isNull then t else t.put field.1 field.2) lower

/-- The words that switch a setting on. -/
def onWords : List String := ["1", "true", "yes", "on"]

/-- A value as a truth value.  A number that is no integer, a list, a table and a date say nothing. -/
def asBool (v : Value) (fallback : Bool) : Bool :=
  match v with
  | .bool b => b
  | .int i => i != 0
  | .text s => onWords.contains (String.ofList ((Text.strip s.toList).map Char.toLower))
  | .loose _ => false
  | _ => fallback

/-- A value as a list of arguments: a text is cut at its blanks, and the items of a list are spelled,
absent ones left out. -/
def asArguments? : Value → Option (List String)
  | .text s => some ((Text.words s.toList).map String.ofList)
  | .loose t => some ((Text.words t.replaced.toList).map String.ofList)
  | .list items => some ((items.filter fun v => !v.isNull).map Value.spelled)
  | _ => none

/-- A value as a positive number of milliseconds; `source` names the setting in the refusal. -/
def asTimeout (source : String) (v : Value) : Except Failure Int :=
  match Number.readInteger (Text.strip v.spelled.toList) with
  | .ok ms => if ms ≤ 0 then .error (.breach (.badTimeoutSetting source v)) else .ok ms
  | .error _ => .error (.breach (.badTimeoutSetting source v))

/-- The main class of the analyzer. -/
def analyzerMain : String := "sigma.compiler.ParserCLI"

/-- The arguments that run the analyzer from an archive. -/
def defaultArguments (jar : String) : List String :=
  ["-cp", jar, analyzerMain]

end AnalyzerBridge.Settings
