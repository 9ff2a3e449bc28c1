import Sfz.Node

/-!
Comments. A line comment runs from `//` to the end of its line and a block comment from `/*` to the
next `*/`. Blanking writes spaces over both, so that every other character keeps its place.
-/

namespace Sfz.Comment

inductive Mode
  | code
  | line
  | block (opener : Span)
  deriving DecidableEq

def blank (c : Char) : Char :=
  if c = '\n' ∨ c = '\r' then c else ' '

/-- The error is the opener of a block comment that is never closed. -/
def blankFrom : Mode → Span → List Char → Except Span (List Char)
  | .block opener, _, [] => .error opener
  | _, _, [] => .ok []
  | .code, s, '/' :: '/' :: cs => do return ' ' :: ' ' :: (← blankFrom .line (s.right 2) cs)
  | .code, s, '/' :: '*' :: cs => do return ' ' :: ' ' :: (← blankFrom (.block s) (s.right 2) cs)
  | .code, s, c :: cs => do return c :: (← blankFrom .code (s.next c) cs)
  | .line, s, c :: cs => do
    return blank c :: (← blankFrom (if c = '\n' then .code else .line) (s.next c) cs)
  | .block _, s, '*' :: '/' :: cs => do
    return ' ' :: ' ' :: (← blankFrom .code (s.right 2) cs)
  | .block opener, s, c :: cs => do return blank c :: (← blankFrom (.block opener) (s.next c) cs)

def blankComments (cs : List Char) : Except SyntaxError (List Char) :=
  (blankFrom .code .start cs).mapError (fun opener => ⟨opener, .unterminatedComment⟩)

end Sfz.Comment
