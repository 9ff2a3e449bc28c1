import Sfz.File.Tree
import Sfz.Json
import Sfz.Node
import Sfz.Number.Shortest
import Sfz.Opcode.Entry

namespace Sfz

inductive Severity
  | error
  | warning
  deriving DecidableEq

namespace Severity

def name : Severity → String
  | .error => "error"
  | .warning => "warning"

def letter : Severity → String
  | .error => "E"
  | .warning => "W"

end Severity

structure Position where
  file : Path
  span : Span
  deriving DecidableEq

namespace Position

def text (p : Position) : String :=
  p.file.text ++ ":" ++ toString p.span.line ++ ":" ++ toString p.span.column

def cmp (a b : Position) : Ordering :=
  (a.file.cmp b.file).then
    ((compare a.span.line b.span.line).then (compare a.span.column b.span.column))

def le (a b : Position) : Bool :=
  (a.cmp b).isLE

end Position

inductive SourceError
  | unreadable (file : Path) (cause : FileError)
  | malformed (file : Path) (error : SyntaxError)
  deriving DecidableEq

def SourceError.message : SourceError → String
  | .unreadable file cause => "cannot read " ++ file.text ++ ": " ++ cause.message
  | .malformed file error => file.text ++ ":" ++ error.message

inductive Problem
  | syntaxError (cause : SyntaxError.Cause)
  | unreadableFile (cause : FileError)
  | undefinedMacro
  | undefinedMacroInPath (name : String)
  | opcodeOutsideHeader
  | includeNotFound (written : String)
  | includeCycle (written : String)
  | includeFailed (error : SourceError)
  | headerVersion (version : Version) (selected : List Version)
  | repeatedHeader (kind : HeaderKind)
  | duplicateOpcode
  | unknownOpcode
  | opcodeVersion (version : Version) (selected : List Version)
  | wrongType (expected : ValueType) (value : String)
  | noOption (value : String) (options : List String)
  | outOfRange (value : String) (min max : Binary64)
  | belowMinimum (value : String) (min : Binary64)
  | aboveMaximum (value : String) (max : Binary64)
  | negativeCurve
  | undefinedCurve (index : Int)
  | invertedRange (low lowValue high highValue : String)
  | fileNotFound
  | caseMismatch (actual : String)
  | stated (severity : Severity) (message : String)
  deriving DecidableEq

namespace Problem

def severity : Problem → Severity
  | .repeatedHeader _ | .duplicateOpcode | .unknownOpcode | .noOption .. | .outOfRange ..
  | .belowMinimum .. | .aboveMaximum .. | .negativeCurve | .undefinedCurve _ | .invertedRange ..
  | .caseMismatch _ => .warning
  | .stated s _ => s
  | _ => .error

def message : Problem → String
  | .syntaxError cause => cause.message
  | .unreadableFile cause => "cannot read file: " ++ cause.message
  | .undefinedMacro => "undefined macro"
  | .undefinedMacroInPath name => "undefined macro $" ++ name
  | .opcodeOutsideHeader => "opcode outside of header"
  | .includeNotFound written => "include not found: " ++ written
  | .includeCycle written => "include cycle detected at " ++ written
  | .includeFailed error => error.message
  | .headerVersion v selected => "header spec " ++ v.name ++ " not in " ++ Version.listText selected
  | .repeatedHeader kind => "only one " ++ kind.name ++ " header allowed"
  | .duplicateOpcode => "duplicate opcode"
  | .unknownOpcode => "unknown opcode"
  | .opcodeVersion v selected =>
    "opcode spec " ++ v.name ++ " is not one of " ++ Version.listText selected
  | .wrongType expected value => "expected " ++ expected.name ++ " got " ++ value
  | .noOption value options => value ++ " not one of " ++ bracketed options
  | .outOfRange value min max =>
    value ++ " not in range " ++ min.boundText ++ " to " ++ max.boundText
  | .belowMinimum value min => value ++ " less than minimum of " ++ min.boundText
  | .aboveMaximum value max => value ++ " greater than maximum of " ++ max.boundText
  | .negativeCurve => "negative curve_index"
  | .undefinedCurve index => "curve " ++ toString index ++ " referenced but not defined"
  | .invertedRange low lowValue high highValue =>
    low ++ " " ++ lowValue ++ " greater than " ++ high ++ " " ++ highValue
  | .fileNotFound => "file not found"
  | .caseMismatch actual => "case mismatch: found " ++ actual
  | .stated _ message => message

end Problem

structure Finding where
  problem : Problem
  position : Position
  opcode : Option String := none
  deriving DecidableEq

namespace Finding

def severity (f : Finding) : Severity :=
  f.problem.severity

def message (f : Finding) : String :=
  f.problem.message

def isError (f : Finding) : Bool :=
  f.severity == .error

def text (f : Finding) : String :=
  match f.opcode with
  | some name => f.message ++ " (" ++ name ++ ")"
  | none => f.message

def lineFor (file : String) (f : Finding) : String :=
  let s := f.position.span
  file ++ ":" ++ toString s.line ++ ":" ++ toString s.column ++ ":" ++ f.severity.letter ++ " " ++
    f.text

def toJson (f : Finding) : Json :=
  .object ([("path", .string f.position.file.text), ("line", .nat f.position.span.line),
    ("column", .nat f.position.span.column), ("severity", .string f.severity.name),
    ("message", .string f.message)] ++
    (f.opcode.map (fun name => ("opcode", Json.string name))).toList)

inductive Format
  | full
  | nopath
  | json
  deriving DecidableEq

def render (format : Format) (f : Finding) : String :=
  match format with
  | .full => lineFor f.position.file.text f
  | .nopath => lineFor (f.position.file.fileName?.getD f.position.file.text) f
  | .json => f.toJson.compact

end Finding

end Sfz
