import Sfz.HeaderKind

namespace Sfz

/-- Line and column count from one, the column in characters. -/
structure Span where
  line : Nat
  column : Nat
  deriving DecidableEq

namespace Span

def start : Span :=
  ⟨1, 1⟩

def next (s : Span) (c : Char) : Span :=
  if c = '\n' then ⟨s.line + 1, 1⟩ else ⟨s.line, s.column + 1⟩

def right (s : Span) (n : Nat) : Span :=
  ⟨s.line, s.column + n⟩

end Span

inductive Node
  | header (kind : HeaderKind) (span : Span)
  | opcode (name value : String) (span : Span)
  | define (name value : String) (span : Span)
  | inclusion (path : String) (span : Span)
  deriving DecidableEq

namespace Node

def span : Node → Span
  | .header _ s => s
  | .opcode _ _ s => s
  | .define _ _ s => s
  | .inclusion _ s => s

end Node

inductive SyntaxError.Cause
  | unterminatedComment
  | malformedDefine
  | malformedInclude
  | unknownHeader (name : String)
  | unexpectedInput
  deriving DecidableEq

structure SyntaxError where
  span : Span
  cause : SyntaxError.Cause
  deriving DecidableEq

namespace SyntaxError

def Cause.message : Cause → String
  | .unterminatedComment => "unterminated block comment"
  | .malformedDefine => "malformed #define"
  | .malformedInclude => "malformed #include"
  | .unknownHeader name => "unknown header <" ++ name ++ ">"
  | .unexpectedInput => "unexpected input"

def message (e : SyntaxError) : String :=
  s!"{e.span.line}:{e.span.column}: {e.cause.message}"

end SyntaxError

end Sfz
