import Sfz.Opcode.Catalog
import Sfz.Path

/-!
The arguments of a command line as options and plain arguments. An option is written `--name`, with its
value after an equals sign or in the next argument; `--` ends the options. A value in the next argument
does not begin with a dash, unless it is a single dash.

Arguments are read in their order, and the first one that is not accepted decides. What has its value in
an argument of its own, and a plain argument, is looked at when something follows that it cannot belong
to.
-/

namespace Sfz.CommandLine

inductive UsageError
  | helpRequested
  | missingCommand
  | unknownCommand (name : String)
  | unknownOption (text : String)
  | missingValue (option : String)
  | unexpectedValue (option : String)
  | repeatedOption (option : String)
  | unexpectedArgument (text : String)
  | missingArgument (name : String)
  | emptyPath (name : String)
  | badValue (option value : String)
  | badFilter (error : FilterError)
  deriving DecidableEq

def UsageError.message : UsageError → String
  | .helpRequested => "usage: sfzlint [-v] [--spec FILE] lint PATH | list"
  | .missingCommand => "error: a command is required: lint or list"
  | .unknownCommand name => "error: unknown command " ++ name
  | .unknownOption text => "error: unknown option " ++ text
  | .missingValue option => "error: option --" ++ option ++ " needs a value"
  | .unexpectedValue option => "error: option --" ++ option ++ " takes no value"
  | .repeatedOption option => "error: option --" ++ option ++ " is given more than once"
  | .unexpectedArgument text => "error: unexpected argument " ++ text
  | .missingArgument name => "error: missing argument " ++ name
  | .emptyPath name => "error: empty path for " ++ name
  | .badValue option value => "error: option --" ++ option ++ " has no value " ++ value
  | .badFilter error => "error: " ++ error.message

inductive Arity
  | flag
  | single
  | many
  deriving DecidableEq

inductive Item
  | option (name : String) (values : List String)
  | argument (text : String)
  deriving DecidableEq

structure Grammar (σ : Type) where
  options : List (String × Arity)
  accept : Item → σ → Except UsageError σ

structure Progress (σ : Type) where
  state : σ
  pending : Option Item := none

variable {σ : Type}

namespace Progress

def settle (g : Grammar σ) (p : Progress σ) : Except UsageError σ :=
  match p.pending with
  | none => .ok p.state
  | some item => g.accept item p.state

def add (g : Grammar σ) (p : Progress σ) (item : Item) : Except UsageError (Progress σ) := do
  return { state := ← g.accept item (← p.settle g) }

def await (g : Grammar σ) (p : Progress σ) (item : Item) : Except UsageError (Progress σ) := do
  return { state := ← p.settle g, pending := some item }

end Progress

inductive Shape
  | separator
  | long (name : String) (value : Option String)
  | short (letters : List Char)
  | plain

def shapeOf (arg : String) : Shape :=
  match arg.toList with
  | ['-', '-'] => .separator
  | '-' :: '-' :: cs =>
    let value :=
      match cs.dropWhile (· ≠ '=') with
      | _ :: value => some (String.ofList value)
      | [] => none
    .long (String.ofList (cs.takeWhile (· ≠ '='))) value
  | '-' :: c :: cs => .short (c :: cs)
  | _ => .plain

def isValue (arg : String) : Bool :=
  match shapeOf arg with
  | .plain => true
  | _ => false

def help (g : Grammar σ) (p : Progress σ) : UsageError :=
  match p.settle g with
  | .error e => e
  | .ok _ => .helpRequested

def readShort (g : Grammar σ) : Progress σ → List Char → Except UsageError (Progress σ)
  | p, [] => .ok p
  | p, 'v' :: cs => do readShort g (← p.add g (.option "verbose" [])) cs
  | p, 'h' :: _ => .error (help g p)
  | _, c :: _ => .error (.unknownOption ("-" ++ c.toString))

/-- If plain arguments are not accepted, the first one ends the reading, and it is left with those after it.
-/
def read (g : Grammar σ) (acceptPlain : Bool) (p : Progress σ) :
    List String → Except UsageError (Progress σ × List String)
  | [] => .ok (p, [])
  | arg :: rest => do
    match shapeOf arg with
    | .separator =>
      match acceptPlain, rest with
      | true, _ => return (← rest.foldlM (fun p text => p.await g (.argument text)) p, [])
      | false, [] => return (p, [])
      | false, next :: _ => throw (.unexpectedArgument next)
    | .plain =>
      if acceptPlain then read g acceptPlain (← p.await g (.argument arg)) rest
      else return (p, arg :: rest)
    | .short letters => read g acceptPlain (← readShort g p letters) rest
    | .long name value =>
      match g.options.lookup name, value with
      | none, none => throw (if name == "help" then help g p else .unknownOption arg)
      | none, some _ => throw (.unknownOption arg)
      | some .flag, none => read g acceptPlain (← p.add g (.option name [])) rest
      | some .flag, some _ => throw (.unexpectedValue name)
      | some _, some v => read g acceptPlain (← p.add g (.option name [v])) rest
      | some .single, none =>
        match rest with
        | [] => throw (.missingValue name)
        | v :: rest =>
          if isValue v then read g acceptPlain (← p.await g (.option name [v])) rest
          else throw (.missingValue name)
      | some .many, none =>
        let values := rest.takeWhile isValue
        if values.isEmpty then throw (.missingValue name)
        else
          read g acceptPlain (← p.await g (.option name values)) (rest.dropWhile isValue)
termination_by args => args.length
decreasing_by
  all_goals simp only [List.length_cons]
  all_goals try omega
  all_goals exact Nat.lt_succ_of_le (List.dropWhile_sublist _).length_le

def readAll (g : Grammar σ) (state : σ) (args : List String) : Except UsageError σ := do
  let (p, _) ← read g true { state } args
  p.settle g

def once {α : Type} (name : String) (known : Option α) (value : Except UsageError α) :
    Except UsageError (Option α) :=
  if known.isSome then .error (.repeatedOption name) else value.map some

def raise (name : String) (known : Bool) : Except UsageError Bool :=
  if known then .error (.repeatedOption name) else .ok true

def path (name text : String) : Except UsageError Path :=
  if text.isEmpty then .error (.emptyPath name) else .ok ⟨text⟩

end Sfz.CommandLine
