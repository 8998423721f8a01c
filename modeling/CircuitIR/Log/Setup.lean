/-!
# Loggers

Log entries go to a root logger and to named loggers below it. The root logger has a handler for a file
unless the file is disabled, a handler for the console if it is asked for, and otherwise a handler that
writes nothing.
-/

namespace CircuitIR

/-- What a logger is. -/
structure LoggerInfo where
  name : String
  level : Nat
  /-- Entries also go to the loggers above. -/
  propagate : Bool
deriving DecidableEq, Repr

/-- Where entries are written. -/
inductive LogHandler where
  | file (path : String)
  | console
  | discard
deriving DecidableEq, Repr

namespace Logging

def debugLevel : Nat := 10

def rootName : String := "qirk"

/-- The name of the file when nothing else is said. -/
def defaultFile : String := "qirk.log"

/-- How a handler writes an entry. -/
def entryFormat : String := "[%(call_order)d] %(message)s - %(filename)s - %(funcName)s()"

/-- The root logger keeps its entries to itself. -/
def rootLogger : LoggerInfo := ⟨rootName, debugLevel, false⟩

/-- The logger with a name below the root; the empty name is that of the root itself. -/
def logger (name : String) : LoggerInfo :=
  let below := rootName ++ "."
  if name = "" ∨ name = rootName then rootLogger
  else if below.isPrefixOf name then ⟨name, debugLevel, true⟩
  else ⟨below ++ name, debugLevel, true⟩

/-- The settings that the environment gives. -/
structure Environment where
  file : Option String
  console : Option String

/-- The handlers of the root logger. A file that is named wins over the one in the environment, and an
empty name disables it. -/
def handlers (file : Option String) (env : Environment) : List LogHandler :=
  let path := file.getD (env.file.getD defaultFile)
  let files := if path = "" then [] else [LogHandler.file path]
  let consoles :=
    if (env.console.getD "false").map Char.toLower = "true" then [LogHandler.console] else []
  match files ++ consoles with
  | [] => [.discard]
  | hs => hs

def lastComponent (path : String) : String :=
  let step (stack : List String) (part : String) : List String :=
    if part = "" ∨ part = "." then stack
    else if part = ".." then stack.drop 1
    else part :: stack
  ((path.splitOn "/").foldl step []).headD ""

end Logging

/-- The level below which a handler ignores entries. -/
def LogHandler.level : LogHandler → Nat
  | discard => 0
  | _ => Logging.debugLevel

/-- The handler writes and numbers entries. -/
def LogHandler.isWriting : LogHandler → Bool
  | discard => false
  | _ => true

end CircuitIR
