import Sfz.CommandLine.Arguments
import Sfz.Lint
import Sfz.Opcode.Load
import Sfz.Opcode.Standard

/-!
The command line: `lint` checks a file or the instrument files below a directory, `list` shows the
entries of the opcode table. Running it on a file tree gives the lines to print and the exit code, which
is 0 if there is no error, 1 if an instrument has one, and 2 if the command could not be carried out.
-/

namespace Sfz.CommandLine

inductive Command
  | lint (path : Path) (format : Finding.Format) (settings : Settings)
  | list (search : Option String) (filters : List Filter) (path : Option Path)
  deriving DecidableEq

structure Invocation where
  table : Option Path
  command : Command
  deriving DecidableEq

structure Globals where
  table : Option Path := none

def globalOptions : List (String × Arity) :=
  [("verbose", .flag), ("spec", .single)]

namespace Globals

def accept : Item → Globals → Except UsageError Globals
  | .option "spec" [text], s => do return { s with table := ← once "spec" s.table (path "spec" text) }
  | .option _ _, s => .ok s
  | .argument text, _ => .error (.unexpectedArgument text)

def grammar : Grammar Globals :=
  ⟨globalOptions, accept⟩

end Globals

def format (text : String) : Except UsageError Finding.Format :=
  match text with
  | "default" => .ok .full
  | "nopath" => .ok .nopath
  | "json" => .ok .json
  | other => .error (.badValue "format" other)

def version (text : String) : Except UsageError Version :=
  match Version.ofName? text with
  | some v => .ok v
  | none => .error (.badValue "spec-version" text)

structure LintArguments where
  globals : Globals := {}
  start : Option Path := none
  format : Option Finding.Format := none
  versions : List Version := []
  basePath : Option Path := none
  skipFiles : Bool := false
  failFast : Bool := false

namespace LintArguments

def accept : Item → LintArguments → Except UsageError LintArguments
  | .argument text, s =>
    if s.start.isSome then .error (.unexpectedArgument text)
    else do return { s with start := some (← path "PATH" text) }
  | .option "format" [text], s => do
    return { s with format := ← once "format" s.format (CommandLine.format text) }
  | .option "spec-version" texts, s => do
    return { s with versions := s.versions ++ (← texts.mapM version) }
  | .option "rel-path" [text], s => do
    return { s with basePath := ← once "rel-path" s.basePath (path "rel-path" text) }
  | .option "no-file-check" _, s => do
    return { s with skipFiles := ← raise "no-file-check" s.skipFiles }
  | .option "fail-fast" _, s => do return { s with failFast := ← raise "fail-fast" s.failFast }
  | item, s => do return { s with globals := ← s.globals.accept item }

def grammar : Grammar LintArguments where
  options :=
    [("format", .single), ("spec-version", .many), ("rel-path", .single), ("no-file-check", .flag),
      ("fail-fast", .flag)] ++ globalOptions
  accept := accept

def command (s : LintArguments) : Except UsageError Command :=
  match s.start with
  | none => .error (.missingArgument "PATH")
  | some start =>
    .ok (.lint start (s.format.getD .full)
      { basePath := s.basePath, versions := s.versions, checkFiles := !s.skipFiles,
        failFast := s.failFast })

end LintArguments

structure ListArguments where
  globals : Globals := {}
  search : Option String := none
  filters : List Filter := []
  start : Option Path := none

namespace ListArguments

def accept : Item → ListArguments → Except UsageError ListArguments
  | .option "search" [text], s => do
    return { s with search := ← once "search" s.search (.ok text) }
  | .option "filter" [text], s => do
    return { s with filters := s.filters ++ [← (Filter.parse text).mapError .badFilter] }
  | .option "path" [text], s => do return { s with start := ← once "path" s.start (path "path" text) }
  | item, s => do return { s with globals := ← s.globals.accept item }

def grammar : Grammar ListArguments where
  options := [("search", .single), ("filter", .single), ("path", .single)] ++ globalOptions
  accept := accept

def command (s : ListArguments) : Command :=
  .list s.search s.filters s.start

end ListArguments

def helpFor : List String → UsageError
  | [] => .helpRequested
  | name :: more =>
    if ["lint", "list", "help"].contains name then
      match more with
      | [] => .helpRequested
      | next :: _ => .unknownCommand next
    else .unknownCommand name

/-- What stands before the name of a command is looked at to its end after the command, and a table given
after the name has precedence. -/
def parse (args : List String) : Except UsageError Invocation := do
  let (p, rest) ← read Globals.grammar false { state := {} } args
  match rest with
  | [] => throw .missingCommand
  | "lint" :: rest =>
    let s ← readAll LintArguments.grammar {} rest
    let command ← s.command
    let globals ← p.settle Globals.grammar
    return ⟨s.globals.table.or globals.table, command⟩
  | "list" :: rest =>
    let s ← readAll ListArguments.grammar {} rest
    let globals ← p.settle Globals.grammar
    return ⟨s.globals.table.or globals.table, s.command⟩
  | "help" :: names => throw (helpFor names)
  | name :: _ => throw (.unknownCommand name)

inductive Failure
  | usage (error : UsageError)
  | table (file : Path) (error : LoadError)
  | standardTable (error : TableError)
  | search (start overlong : Path)
  deriving DecidableEq

namespace Failure

def message : Failure → String
  | .usage error => error.message
  | .table file error => "sfzlint: load opcode table " ++ file.text ++ ": " ++ error.chain
  | .standardTable error => "sfzlint: load built-in opcode table: " ++ error.message
  | .search start overlong =>
    "sfzlint: walk directory " ++ start.text ++ ": IO error for operation on " ++ overlong.text ++ ": " ++
      FileError.nameTooLong.message ++ ": " ++ FileError.nameTooLong.message

def code : Failure → Nat
  | .usage .helpRequested => 0
  | _ => 2

end Failure

structure Outcome where
  lines : List String
  code : Nat
  deriving DecidableEq

def registry (t : FileTree) : Option Path → Except Failure Registry
  | some file => (Registry.load t file).mapError (.table file)
  | none => Registry.standard.mapError .standardTable

def instruments (t : FileTree) (start : Path) : Except Failure (List Path) :=
  match t.overlong? start with
  | some overlong => .error (.search start overlong)
  | none => .ok (t.instruments start)

def lintOutcome (t : FileTree) (r : Registry) (files : List Path) (format : Finding.Format)
    (settings : Settings) : Outcome :=
  let reports := (t.lintAll r settings false files).1
  let findings := reports.flatMap (fun report => report.2.remaining)
  ⟨findings.map (Finding.render format), if findings.any Finding.isError then 1 else 0⟩

def usedLine? (r : Registry) (selected : List Entry) (isRestricted : Bool) (name : String) :
    Option String :=
  match r.lookup name with
  | some m =>
    if selected.any (fun e => e.name == m.entry.name) then
      some (padEnd Entry.nameWidth name ++ " " ++ m.entry.line)
    else none
  | none => if isRestricted then none else some (padEnd Entry.nameWidth name ++ " unknown")

def listOutcome (t : FileTree) (r : Registry) (search : Option String) (filters : List Filter)
    (files : Option (List Path)) : Outcome :=
  let selected := r.select search filters
  let lines :=
    match files with
    | none => selected.map Entry.line
    | some files =>
      (t.usedOpcodes files).filterMap (usedLine? r selected (search.isSome || !filters.isEmpty))
  ⟨lines, 0⟩

def Invocation.run (t : FileTree) (i : Invocation) : Except Failure Outcome := do
  let r ← registry t i.table
  match i.command with
  | .lint start format settings => return lintOutcome t r (← instruments t start) format settings
  | .list search filters start => return listOutcome t r search filters (← start.mapM (instruments t))

def run (t : FileTree) (args : List String) : Except Failure Outcome :=
  match parse args with
  | .error e => .error (.usage e)
  | .ok i => i.run t

end Sfz.CommandLine
