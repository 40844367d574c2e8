/-
# Settings.Basic — what a check is told to do

The settings come from defaults, a file and the command line. The time limit is
kept as text until it is needed, so that an empty one means no limit.
-/
import Faultline.Settings.Duration

namespace Faultline

structure Settings where
  solver : String := "gini"
  timeout : String := ""
  jobs : Int := 1
  color : Bool := false
  exclude : List String := []
  dump : Bool := false
  model : Bool := false
  verbose : Bool := false
  deriving DecidableEq, Inhabited

namespace Settings

def blank : Settings :=
  { solver := "", jobs := 0 }

def limit (s : Settings) : Except DurationError Int :=
  if s.timeout.isEmpty then .ok 0 else Duration.parse s.timeout

end Settings

end Faultline
