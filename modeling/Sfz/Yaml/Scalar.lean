import Sfz.Json.Reader
import Sfz.Yaml.Mark

/-!
Scalars of YAML documents that are written within their lines: plain ones, which end where the
surrounding structure goes on, and quoted ones. A scalar may run over several lines. One line break
between its words is read as a space, and of several the first is dropped; blanks around line breaks do
not count.
-/

namespace Sfz.Yaml

/-- Blanks and line breaks that await the next character of a scalar, latest first: blanks only, or the
first line break, unless it was escaped, and the further ones. -/
inductive Gap
  | blanks (cs : List Char)
  | broken (first : Option Char) (more : List Char)

namespace Gap

def none : Gap :=
  .blanks []

def read : Gap → List Char
  | .blanks cs => cs
  | .broken (some '\n') [] => [' ']
  | .broken (some '\n') more => more
  | .broken (some c) more => more ++ [c]
  | .broken .none more => more

def push (c : Char) : Gap → Gap
  | .blanks cs => if isBreak c then .broken (some c) [] else .blanks (c :: cs)
  | .broken first more => if isBreak c then .broken first (c :: more) else .broken first more

def isBroken : Gap → Bool
  | .blanks _ => false
  | .broken .. => true

def isEmpty : Gap → Bool
  | .blanks cs => cs.isEmpty
  | .broken .. => false

end Gap

structure PlainContext where
  inFlow : Bool
  indent : Nat

def endsPlain (inFlow : Bool) (c : Char) (rest : List Char) : Bool :=
  (c == ':' && atGap rest) || (inFlow && isFlowMark c)

def isStrayColon (inFlow : Bool) (c : Char) : List Char → Bool
  | d :: _ => inFlow && c == ':' && (isFlowMark d || d == '?')
  | [] => false

def resumes (ctx : PlainContext) (column : Nat) (cs : List Char) : Bool :=
  (ctx.inFlow || ctx.indent ≤ column) && !(column == 0 && atDocumentMark cs)

/-- Gives the text, whether a line break follows it, and the rest after the gap. -/
def plainFrom? (ctx : PlainContext) (done : List Char) (gap : Gap) (m : Mark) :
    List Char → Option (String × Bool × Rest)
  | [] => some (String.ofList done.reverse, gap.isBroken, ⟨m, []⟩)
  | c :: cs =>
    if isBreak c || isBlank c then
      if c == '\t' && gap.isBroken && m.column < ctx.indent then none
      else plainFrom? ctx done (gap.push c) (m.after c) cs
    else if (!gap.isEmpty && c == '#') || (gap.isBroken && !resumes ctx m.column (c :: cs)) then
      some (String.ofList done.reverse, gap.isBroken, ⟨m, c :: cs⟩)
    else if isStrayColon ctx.inFlow c cs then none
    else if endsPlain ctx.inFlow c cs then
      some (String.ofList done.reverse, gap.isBroken, ⟨m, c :: cs⟩)
    else plainFrom? ctx (c :: (gap.read ++ done)) .none (m.after c) cs

def plain? (ctx : PlainContext) (r : Rest) : Option (String × Bool × Rest) :=
  plainFrom? ctx [] .none r.mark r.chars

def singleQuoted? (done : List Char) (gap : Gap) (m : Mark) : List Char → Option (String × Rest)
  | [] => none
  | '\'' :: '\'' :: cs =>
    singleQuoted? ('\'' :: (gap.read ++ done)) .none ((m.after '\'').after '\'') cs
  | '\'' :: cs => some (String.ofList (gap.read ++ done).reverse, ⟨m.after '\'', cs⟩)
  | c :: cs =>
    if m.column == 0 && atDocumentMark (c :: cs) then none
    else if isBreak c || isBlank c then singleQuoted? done (gap.push c) (m.after c) cs
    else singleQuoted? (c :: (gap.read ++ done)) .none (m.after c) cs

def shortEscape? : Char → Option Char
  | '0' => some '\x00'
  | 'a' => some '\x07'
  | 'b' => some '\x08'
  | 't' => some '\t'
  | '\t' => some '\t'
  | 'n' => some '\n'
  | 'v' => some '\x0b'
  | 'f' => some '\x0c'
  | 'r' => some '\r'
  | 'e' => some '\x1b'
  | ' ' => some ' '
  | '"' => some '"'
  | '/' => some '/'
  | '\\' => some '\\'
  | 'N' => some '\u0085'
  | '_' => some '\u00a0'
  | 'L' => some '\u2028'
  | 'P' => some '\u2029'
  | _ => none

def hexEscape? : Char → Option Nat
  | 'x' => some 2
  | 'u' => some 4
  | 'U' => some 8
  | _ => none

def codeChar? (digits : List Char) : Option Char := do
  let values ← digits.mapM Json.hexValue?
  let code := values.foldl (fun n d => 16 * n + d) 0
  if code < 0xd800 ∨ (0xe000 ≤ code ∧ code < 0x110000) then some (Char.ofNat code) else none

def escape? : List Char → Option (Char × Nat)
  | [] => none
  | c :: rest =>
    match hexEscape? c with
    | some n =>
      let digits := rest.take n
      if digits.length = n then (codeChar? digits).map (fun x => (x, n + 1)) else none
    | none => (shortEscape? c).map (fun x => (x, 1))

/-- The number says how many of the next characters belong to an escape that has been read. -/
def doubleQuoted? (done : List Char) (gap : Gap) (escaped : Nat) (m : Mark) :
    List Char → Option (String × Rest)
  | [] => none
  | c :: cs =>
    match escaped with
    | n + 1 => doubleQuoted? done gap n (m.after c) cs
    | 0 =>
      if m.column == 0 && atDocumentMark (c :: cs) then none
      else if isBreak c || isBlank c then doubleQuoted? done (gap.push c) 0 (m.after c) cs
      else if c == '"' then some (String.ofList (gap.read ++ done).reverse, ⟨m.after c, cs⟩)
      else if c == '\\' then
        if cs.head?.any isBreak then
          doubleQuoted? (gap.read ++ done) (.broken none []) 1 (m.after c) cs
        else
          match escape? cs with
          | none => none
          | some (x, n) => doubleQuoted? (x :: (gap.read ++ done)) .none n (m.after c) cs
      else doubleQuoted? (c :: (gap.read ++ done)) .none 0 (m.after c) cs

def quoted? (r : Rest) : Option (String × Rest) :=
  match r.chars with
  | '\'' :: cs => singleQuoted? [] .none (r.mark.after '\'') cs
  | '"' :: cs => doubleQuoted? [] .none 0 (r.mark.after '"') cs
  | _ => none

end Sfz.Yaml
