/-
# Command.Flags — options in front of the arguments

An option is a word with one or two dashes in front. A switch may be followed by `=`
and a truth value; any other option takes what follows `=` or else the next word.
Options end at two dashes alone or at the first word that is no option.
-/
import Faultline.Text.Number
import Faultline.Text.Quoted

namespace Faultline.Command

inductive FlagKind where
  | switch
  | text
  | number
  deriving DecidableEq, Inhabited

inductive FlagValue where
  | switch (b : Bool)
  | text (s : String)
  | number (n : Int)
  deriving DecidableEq, Inhabited

abbrev FlagSpec := List (String × FlagKind)

structure Flags where
  given : List (String × FlagValue)
  args : List String
  deriving DecidableEq, Inhabited

inductive FlagError where
  | help
  | form (word : String)
  | unknown (name : String)
  | missing (name : String)
  | switch (name value : String)
  | number (name value : String) (fault : Text.NumberFault)
  deriving DecidableEq, Inhabited

def FlagError.message : FlagError → String
  | .help => "flag: help requested"
  | .form w => "bad flag syntax: " ++ w
  | .unknown n => "flag provided but not defined: -" ++ n
  | .missing n => "flag needs an argument: -" ++ n
  | .switch n v => "invalid boolean value " ++ Text.quote v ++ " for -" ++ n ++ ": parse error"
  | .number n v f => "invalid value " ++ Text.quote v ++ " for flag -" ++ n ++ ": "
      ++ (match f with
        | .form => "parse error"
        | .range => "value out of range")

namespace Flags

def truth? (s : String) : Option Bool :=
  if ["1", "t", "T", "TRUE", "true", "True"].contains s then some true
  else if ["0", "f", "F", "FALSE", "false", "False"].contains s then some false
  else none

/-- What stands before and after the first `=`, which is not the first character. -/
def splitValue (body : List Char) : String × Option String :=
  match body with
  | [] => ("", none)
  | c :: cs =>
    let name := cs.takeWhile (· != '=')
    match cs.drop name.length with
    | _ :: value => (String.ofList (c :: name), some (String.ofList value))
    | [] => (String.ofList (c :: name), none)

/-- The word without its dashes, if it is an option. -/
def body? (w : String) : Option (List Char) :=
  match w.toList with
  | '-' :: '-' :: cs => some cs
  | '-' :: c :: cs => some (c :: cs)
  | _ => none

/-- The value of an option, and the words after it. -/
def valueOf (name : String) (kind : FlagKind) (value? : Option String) (rest : List String) :
    Except FlagError (FlagValue × List String) :=
  match kind with
  | .switch =>
    match value? with
    | none => .ok (.switch true, rest)
    | some v =>
      match truth? v with
      | some b => .ok (.switch b, rest)
      | none => .error (.switch name v)
  | kind =>
    match value?, rest with
    | some v, rest => parsed kind v rest
    | none, v :: rest => parsed kind v rest
    | none, [] => .error (.missing name)
where
  parsed (kind : FlagKind) (v : String) (rest : List String) :
      Except FlagError (FlagValue × List String) :=
    match kind with
    | .number =>
      match Text.integer v with
      | .ok n => .ok (.number n, rest)
      | .error f => .error (.number name v f)
    | _ => .ok (.text v, rest)

def parseFrom (spec : FlagSpec) : Nat → List String → List (String × FlagValue) →
    Except FlagError Flags
  | fuel + 1, w :: rest, given =>
    if w == "--" then .ok ⟨given, rest⟩
    else match body? w with
      | none => .ok ⟨given, w :: rest⟩
      | some body =>
        if body.head? == some '-' || body.head? == some '=' then .error (.form w)
        else
          let (name, value?) := splitValue body
          match spec.lookup name with
          | none => .error (if name == "help" || name == "h" then .help else .unknown name)
          | some kind =>
            match valueOf name kind value? rest with
            | .error e => .error e
            | .ok (v, rest) => parseFrom spec fuel rest ((name, v) :: given)
  | _, args, given => .ok ⟨given, args⟩

def parse (spec : FlagSpec) (words : List String) : Except FlagError Flags :=
  parseFrom spec (words.length + 1) words []

def switch? (f : Flags) (name : String) : Option Bool :=
  match f.given.lookup name with
  | some (.switch b) => some b
  | _ => none

def text? (f : Flags) (name : String) : Option String :=
  match f.given.lookup name with
  | some (.text s) => some s
  | _ => none

def number? (f : Flags) (name : String) : Option Int :=
  match f.given.lookup name with
  | some (.number n) => some n
  | _ => none

end Flags

end Faultline.Command
