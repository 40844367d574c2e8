/-
# Main — the command line

Carries out the plan of a command: files are read and written, reports go to the
standard output, and everything else to the standard error output.
-/
import Faultline.Command.Run

open Faultline Command

def fileError (e : IO.Error) : FileError :=
  match e with
  | .noFileOrDirectory _ _ _ => .absent
  | e => .other (toString e)

def logText (e : LogEntry) : String :=
  let fields := e.fields.map fun (k, v) =>
    match v with
    | .text s => " " ++ k ++ "=" ++ Text.quote s
    | .number n => " " ++ k ++ "=" ++ toString n
  "level=" ++ e.level.name ++ " msg=" ++ Text.quote e.message ++ String.join fields

def carryOut {α : Type} : Program α → IO α
  | .done a => pure a
  | .read path next => do
    let r ← try
        let text ← IO.FS.readFile path
        pure (Except.ok text)
      catch e => pure (.error (fileError e))
    carryOut (next r)
  | .write path text next => do
    let r ← try
        IO.FS.writeFile path text
        pure (Except.ok ())
      catch e => pure (.error (fileError e))
    carryOut (next r)
  | .print text next => do
    IO.print text
    carryOut next
  | .complain text next => do
    IO.eprint text
    carryOut next
  | .log entries next => do
    for e in entries do
      IO.eprintln (logText e)
    carryOut next

def main (words : List String) : IO UInt32 :=
  carryOut (program words)
