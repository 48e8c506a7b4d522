/-
Log records.

A record has a level, the part of the library that wrote it, and its message.
Operations return their records in the order of writing.
-/

namespace AnalyzerBridge

/-- How much a record matters. -/
inductive Level where
  | debug
  | info
  | warning
  deriving DecidableEq

/-- The name of a level. -/
def Level.name : Level → String
  | .debug => "DEBUG"
  | .info => "INFO"
  | .warning => "WARNING"

/-- The part of the library that writes a record. -/
inductive Channel where
  | transcript
  | coordinator
  | supervision
  | service
  deriving DecidableEq

/-- The name under which a part logs. -/
def Channel.name : Channel → String
  | .transcript => "ergols.translate"
  | .coordinator => "ergols.coordinator"
  | .supervision => "ergols.process"
  | .service => "ergols.server"

/-- One log record. -/
structure LogRecord where
  level : Level
  channel : Channel
  message : String
  deriving DecidableEq

end AnalyzerBridge
