import CircuitIR.Log.Entry

/-!
# Numbering of log entries

One counter is shared by all handlers. Each handler that an entry reaches advances the counter and gives
the entry its value, and a reset sets the counter back to zero.
-/

namespace CircuitIR

/-- What happens to the log. -/
inductive LogEvent where
  | written (entry : LogEntry)
  | reset
deriving DecidableEq, Repr

/-- An entry with the number that each handler gives it. -/
structure NumberedEntry where
  numbers : List Nat
  entry : LogEntry
deriving DecidableEq, Repr

/-- The entries with their numbers, for some handlers and from a value of the counter on. -/
def numberEntries (handlers : Nat) : Nat → List LogEvent → List NumberedEntry
  | _, [] => []
  | _, .reset :: events => numberEntries handlers 0 events
  | counter, .written entry :: events =>
    ⟨(List.range handlers).map fun i => counter + i + 1, entry⟩
      :: numberEntries handlers (counter + handlers) events

end CircuitIR
