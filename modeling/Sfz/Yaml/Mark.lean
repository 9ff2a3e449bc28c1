namespace Sfz.Yaml

def isBreak (c : Char) : Bool :=
  c == '\n' || c == '\u2028' || c == '\u2029'

def isBlank (c : Char) : Bool :=
  c == ' ' || c == '\t'

def atGap : List Char → Bool
  | [] => true
  | c :: _ => isBlank c || isBreak c

def atMark (mark : Char) : List Char → Bool
  | a :: b :: c :: rest => a == mark && b == mark && c == mark && atGap rest
  | _ => false

def atDocumentMark (cs : List Char) : Bool :=
  atMark '-' cs || atMark '.' cs

def isFlowMark (c : Char) : Bool :=
  c == ',' || c == '[' || c == ']' || c == '\x7b' || c == '\x7d'

def isNameChar (c : Char) : Bool :=
  c.isAlphanum || c == '_' || c == '-'

structure Mark where
  offset : Nat := 0
  line : Nat := 0
  column : Nat := 0

def Mark.after (m : Mark) (c : Char) : Mark :=
  if isBreak c then ⟨m.offset + c.utf8Size, m.line + 1, 0⟩
  else ⟨m.offset + c.utf8Size, m.line, m.column + 1⟩

structure Rest where
  mark : Mark := {}
  chars : List Char

namespace Rest

def skip (r : Rest) (n : Nat) : Rest :=
  ⟨(r.chars.take n).foldl Mark.after r.mark, r.chars.drop n⟩

def skipWhile (r : Rest) (p : Char → Bool) : Rest :=
  r.skip (r.chars.takeWhile p).length

def column (r : Rest) : Nat :=
  r.mark.column

def atDocumentMark (r : Rest) : Bool :=
  r.column == 0 && Yaml.atDocumentMark r.chars

def endLine? (r : Rest) : Option Rest :=
  let r := r.skipWhile isBlank
  let r := if r.chars.head? = some '#' then r.skipWhile (fun c => !isBreak c) else r
  match r.chars with
  | [] => some r
  | c :: _ => if isBreak c then some (r.skip 1) else none

end Rest

end Sfz.Yaml
