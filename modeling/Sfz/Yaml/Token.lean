import Sfz.Yaml.Block
import Sfz.Yaml.Scalar
import Sfz.Yaml.Tag

/-!
The structure of a YAML document as a list of tokens. Collections are written with brackets, or by their
columns: a column further to the right than the surrounding ones begins a collection, and a column
further to the left ends those to its right.

A key need not be announced: a node is a key if a colon follows it on its line, not too far from its
start. So every node that may be a key keeps a slot for the tokens that would come before it. Where a
collection is given by columns, a node at the column of the collection has to be a key.
-/

namespace Sfz.Yaml

inductive Style
  | plain
  | quoted
  | literal
  | folded
  deriving DecidableEq

inductive Token
  | directive (d : Directive)
  | documentStart
  | documentEnd
  | blockSequence
  | blockMapping
  | blockEnd
  | entry
  | key
  | value
  | flowSequence
  | flowSequenceEnd
  | flowMapping
  | flowMappingEnd
  | comma
  | anchor (name : String)
  | reference (name : String)
  | tag (name : TagName)
  | scalar (text : String) (style : Style)
  deriving DecidableEq

def maxDepth : Nat := 128

structure PossibleKey where
  slot : Nat
  start : Mark
  isRequired : Bool

def maxKeyBytes : Nat := 1024

def PossibleKey.isStale (k : PossibleKey) (now : Mark) : Bool :=
  k.start.line < now.line || k.start.offset + maxKeyBytes < now.offset

/-- How far a document has been read: what is left, the slots of tokens, the columns of the open
collections, innermost first, the last node if it may be a key, the same for the nodes around the open
brackets, and whether a key may come next. -/
structure Scan where
  rest : Rest
  slots : Array (List Token) := #[]
  indents : List Nat := []
  key : Option PossibleKey := none
  outer : List (Option PossibleKey) := []
  keyAllowed : Bool := true

namespace Scan

def inFlow (s : Scan) : Bool :=
  !s.outer.isEmpty

def push (s : Scan) (t : Token) : Scan :=
  { s with slots := s.slots.push [t] }

/-- A tab is no blank where it would count as indentation, and the mark of byte order is one at the start of a
line. -/
def gap (inFlow keyAllowed inComment : Bool) (m : Mark) : List Char → Rest × Bool
  | [] => (⟨m, []⟩, keyAllowed)
  | c :: cs =>
    if isBreak c then gap inFlow (keyAllowed || !inFlow) false (m.after c) cs
    else if inComment || c == ' ' || (c == '\t' && (inFlow || !keyAllowed)) ||
        (c == '\ufeff' && m.column == 0) then
      gap inFlow keyAllowed inComment (m.after c) cs
    else if c == '#' then gap inFlow keyAllowed true (m.after c) cs
    else (⟨m, c :: cs⟩, keyAllowed)

def skipGap (s : Scan) : Scan :=
  let (rest, keyAllowed) := gap s.inFlow s.keyAllowed false s.rest.mark s.rest.chars
  { s with rest, keyAllowed }

def fresh? (now : Mark) : Option PossibleKey → Option (Option PossibleKey)
  | none => some none
  | some k => if !k.isStale now then some (some k) else if k.isRequired then none else some none

def dropStale? (s : Scan) : Option Scan := do
  let key ← fresh? s.rest.mark s.key
  let outer ← s.outer.mapM (fresh? s.rest.mark)
  return { s with key, outer }

def dropKey? (s : Scan) : Option Scan :=
  if s.key.any (·.isRequired) then none else some { s with key := none }

def saveKey? (s : Scan) : Option Scan :=
  if s.keyAllowed then do
    let isRequired := !s.inFlow && s.indents.head? == some s.rest.column
    let key : PossibleKey := ⟨s.slots.size, s.rest.mark, isRequired⟩
    let s ← s.dropKey?
    return { s with key := some key, slots := s.slots.push [] }
  else some s

def unroll (s : Scan) (column : Nat) : Scan :=
  if s.inFlow then s
  else
    { s with
      slots := (s.indents.takeWhile (column < ·)).foldl (fun ts _ => ts.push [.blockEnd]) s.slots
      indents := s.indents.dropWhile (column < ·) }

def unrollAll (s : Scan) : Scan :=
  if s.inFlow then s
  else
    { s with slots := s.indents.foldl (fun ts _ => ts.push [.blockEnd]) s.slots, indents := [] }

def opensAt (s : Scan) (column : Nat) : Bool :=
  !s.inFlow && s.indents.head?.all (· < column)

def roll (s : Scan) (start : Token) : Scan :=
  if s.opensAt s.rest.column then { s.push start with indents := s.rest.column :: s.indents } else s

def take (s : Scan) (t : Token) (n : Nat) (keyAllowed : Bool) : Scan :=
  { s.push t with rest := s.rest.skip n, keyAllowed }

def documentMark? (s : Scan) (t : Token) : Option Scan :=
  (s.unrollAll.dropKey?).map (fun s => s.take t 3 false)

def directive? (s : Scan) : Option Scan := do
  let s ← s.unrollAll.dropKey?
  let (d, rest) ← Directive.parse? s.rest
  return { s.push (.directive d) with rest, keyAllowed := false }

def openBracket? (s : Scan) (t : Token) : Option Scan := do
  if maxDepth ≤ s.outer.length then none
  else
    let s ← s.saveKey?
    let outer := s.key :: s.outer
    return { s.take t 1 true with key := none, outer }

def closeBracket? (s : Scan) (t : Token) : Option Scan := do
  let s ← s.dropKey?
  match s.outer with
  | [] => none
  | key :: outer => return { s.take t 1 false with key, outer }

def entry? (s : Scan) : Option Scan :=
  if s.inFlow || !s.keyAllowed then none
  else ((s.roll .blockSequence).dropKey?).map (fun s => s.take .entry 1 true)

def key? (s : Scan) : Option Scan :=
  if !s.inFlow && !s.keyAllowed then none
  else ((s.roll .blockMapping).dropKey?).map (fun s => s.take .key 1 (!s.inFlow))

def value? (s : Scan) : Option Scan :=
  match s.key with
  | some k =>
    let column := k.start.column
    let s :=
      if s.opensAt column then
        { s with
          slots := s.slots.setIfInBounds k.slot [.blockMapping, .key], indents := column :: s.indents }
      else { s with slots := s.slots.setIfInBounds k.slot [.key] }
    some { s.take .value 1 false with key := none }
  | none =>
    if !s.inFlow && !s.keyAllowed then none
    else some ((s.roll .blockMapping).take .value 1 (!s.inFlow))

def name? (s : Scan) (token : String → Token) : Option Scan := do
  let s ← s.saveKey?
  let name := (s.rest.chars.drop 1).takeWhile isNameChar
  let s := s.take (token (String.ofList name)) (name.length + 1) false
  if name.isEmpty || !(atGap s.rest.chars || s.rest.chars.head?.any "?:,]\x7d%@\x60".toList.contains) then
    none
  else some s

def tag? (s : Scan) : Option Scan := do
  let s ← s.saveKey?
  let (name, rest) ← TagName.parse? s.rest
  if atGap rest.chars || (s.inFlow && rest.chars.head? == some ',') then
    return { s.push (.tag name) with rest, keyAllowed := false }
  else none

def block? (s : Scan) (literal : Bool) : Option Scan := do
  let s ← s.dropKey?
  let (text, rest) ← Yaml.block? literal s.indents.head? s.rest
  let style := if literal then Style.literal else .folded
  return { s.push (.scalar text style) with rest, keyAllowed := true }

def quoted? (s : Scan) : Option Scan := do
  let s ← s.saveKey?
  let (text, rest) ← Yaml.quoted? s.rest
  return { s.push (.scalar text .quoted) with rest, keyAllowed := false }

def plain? (s : Scan) : Option Scan := do
  let s ← s.saveKey?
  let (text, isBroken, rest) ← Yaml.plain? ⟨s.inFlow, (s.indents.head?.map (· + 1)).getD 0⟩ s.rest
  return { s.push (.scalar text .plain) with rest, keyAllowed := isBroken }

def isIndicator (c : Char) : Bool :=
  isBlank c || isFlowMark c || "-?:#&*!|>'\"%@\x60".toList.contains c

def startsPlain (inFlow : Bool) (c : Char) (rest : List Char) : Bool :=
  !isIndicator c || (c == '-' && !atGap rest) || (!inFlow && (c == '?' || c == ':') && !atGap rest)

def next? (s : Scan) (c : Char) (cs : List Char) : Option Scan :=
  if s.rest.column == 0 && c == '%' then s.directive?
  else if s.rest.column == 0 && atMark '-' (c :: cs) then s.documentMark? .documentStart
  else if s.rest.column == 0 && atMark '.' (c :: cs) then s.documentMark? .documentEnd
  else if c == '[' then s.openBracket? .flowSequence
  else if c == '\x7b' then s.openBracket? .flowMapping
  else if c == ']' then s.closeBracket? .flowSequenceEnd
  else if c == '\x7d' then s.closeBracket? .flowMappingEnd
  else if c == ',' then (s.dropKey?).map (fun s => s.take .comma 1 true)
  else if c == '-' && atGap cs then s.entry?
  else if c == '?' && (s.inFlow || atGap cs) then s.key?
  else if c == ':' && (s.inFlow || atGap cs) then s.value?
  else if c == '*' then s.name? .reference
  else if c == '&' then s.name? .anchor
  else if c == '!' then s.tag?
  else if c == '|' && !s.inFlow then s.block? true
  else if c == '>' && !s.inFlow then s.block? false
  else if c == '\'' || c == '"' then s.quoted?
  else if startsPlain s.inFlow c cs then s.plain?
  else none

def finish? (s : Scan) : Option (List Token) :=
  (s.unrollAll.dropKey?).map (fun s => s.slots.toList.flatten)

def run? : Nat → Scan → Option (List Token)
  | 0, _ => none
  | n + 1, s =>
    match s.skipGap.dropStale? with
    | none => none
    | some s =>
      let s := s.unroll s.rest.column
      match s.rest.chars with
      | [] => s.finish?
      | c :: cs =>
        match s.next? c cs with
        | none => none
        | some s => run? n s

end Scan

def Token.scan? (cs : List Char) : Option (List Token) :=
  Scan.run? (cs.length + 1) { rest := { chars := cs } }

end Sfz.Yaml
