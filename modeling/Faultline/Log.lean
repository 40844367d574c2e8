/-
# Log — what an engine tells while it works

An entry has a level, a message and named fields. A field set again replaces the
earlier one.
-/

namespace Faultline

inductive LogValue where
  | text (s : String)
  | number (n : Int)
  deriving DecidableEq, Inhabited

inductive LogLevel where
  | debug
  | info
  | error
  deriving DecidableEq, Inhabited

abbrev LogFields := List (String × LogValue)

structure LogEntry where
  level : LogLevel
  message : String
  fields : LogFields
  deriving DecidableEq, Inhabited

namespace LogFields

def put (fields : LogFields) (key : String) (value : LogValue) : LogFields :=
  fields.filter (fun f => f.1 != key) ++ [(key, value)]

end LogFields

def LogLevel.name : LogLevel → String
  | .debug => "debug"
  | .info => "info"
  | .error => "error"

end Faultline
