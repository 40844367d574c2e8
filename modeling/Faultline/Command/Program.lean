/-
# Command.Program — what a command does to the outside

A command reads and writes files, prints, complains and logs. `Program` is the plan
of such a run, in which each step depends on the answers to the steps before. It can
be carried out for real or, by `Program.run`, in a small world of files.
-/
import Faultline.Command.World

namespace Faultline.Command

inductive Program (α : Type) where
  | done (a : α)
  | read (path : String) (next : Except FileError String → Program α)
  | write (path text : String) (next : Except FileError Unit → Program α)
  | print (text : String) (next : Program α)
  | complain (text : String) (next : Program α)
  | log (entries : List LogEntry) (next : Program α)

namespace Program

variable {α β : Type}

def bind : Program α → (α → Program β) → Program β
  | done a, f => f a
  | read path next, f => read path fun r => (next r).bind f
  | write path text next, f => write path text fun r => (next r).bind f
  | print text next, f => print text (next.bind f)
  | complain text next, f => complain text (next.bind f)
  | log entries next, f => log entries (next.bind f)

instance : Monad Program where
  pure := done
  bind := bind

def readFile (path : String) : Program (Except FileError String) := read path done

def writeFile (path text : String) : Program (Except FileError Unit) := write path text done

def out (text : String) : Program Unit := print text (done ())

def err (text : String) : Program Unit := complain text (done ())

def tell (entries : List LogEntry) : Program Unit := log entries (done ())

end Program

/-- Carries a plan out in a small world. -/
def Program.run {α : Type} : Program α → World → α × World
  | .done a, w => (a, w)
  | .read path next, w => (next (w.read path)).run w
  | .write path text next, w =>
    match w.write path text with
    | .ok w => (next (.ok ())).run w
    | .error e => (next (.error e)).run w
  | .print text next, w => next.run { w with stdout := w.stdout ++ text }
  | .complain text next, w => next.run { w with stderr := w.stderr ++ text }
  | .log entries next, w => next.run { w with log := w.log ++ entries }

end Faultline.Command
