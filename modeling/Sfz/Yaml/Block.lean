import Sfz.Yaml.Mark

/-!
Scalars in blocks. A bar or an angle bracket at the end of a line announces a scalar that is made up of
the lines below, as far as they are indented. After a bar the lines are kept as they stand. After an
angle bracket a line break between two lines that begin with no blank is read as a space, or dropped if
empty lines follow.
-/

namespace Sfz.Yaml

inductive Chomping
  | strip
  | clip
  | keep
  deriving DecidableEq

structure BlockHeader where
  chomping : Chomping := .clip
  increment : Option Nat := none

namespace BlockHeader

def chomping? : Char → Option Chomping
  | '+' => some .keep
  | '-' => some .strip
  | _ => none

def increment? (c : Char) : Option Nat :=
  if c.isDigit && c != '0' then some (c.toNat - '0'.toNat) else none

def parse : List Char → BlockHeader × Nat
  | [] => ({}, 0)
  | c :: cs =>
    match chomping? c, increment? c with
    | some chomping, _ =>
      match cs.head?.bind increment? with
      | some n => (⟨chomping, some n⟩, 2)
      | none => (⟨chomping, none⟩, 1)
    | none, some n =>
      match cs.head?.bind chomping? with
      | some chomping => (⟨chomping, some n⟩, 2)
      | none => (⟨.clip, some n⟩, 1)
    | none, none => ({}, 0)

end BlockHeader

def leadingColumn? (column greatest : Nat) : List Char → Option Nat
  | [] => some (max column greatest)
  | c :: cs =>
    if c == ' ' then leadingColumn? (column + 1) greatest cs
    else if isBreak c then leadingColumn? 0 (max column greatest) cs
    else if c == '\t' then none
    else some (max column greatest)

/-- How far a block has been read: the text and the line breaks after it, latest first, except for the
first of these; whether the last line began with a blank, and whether a line is being read. -/
structure BlockState where
  done : List Char := []
  firstBreak : Option Char := none
  moreBreaks : List Char := []
  startedBlank : Bool := false
  inLine : Bool := false

namespace BlockState

def joint (s : BlockState) (literal : Bool) (c : Char) : List Char :=
  if !literal && s.firstBreak == some '\n' && !s.startedBlank && !isBlank c then
    if s.moreBreaks.isEmpty then ' ' :: s.done else s.moreBreaks ++ s.done
  else s.moreBreaks ++ (s.firstBreak.toList ++ s.done)

def text (s : BlockState) (chomping : Chomping) : String :=
  String.ofList
    (match chomping with
      | .strip => s.done
      | .clip => s.firstBreak.toList ++ s.done
      | .keep => s.moreBreaks ++ (s.firstBreak.toList ++ s.done)).reverse

end BlockState

def blockLines? (literal : Bool) (indent : Nat) (s : BlockState) (m : Mark) :
    List Char → Option (BlockState × Rest)
  | [] => some (s, ⟨m, []⟩)
  | c :: cs =>
    if s.inLine then
      if isBreak c then
        blockLines? literal indent { s with firstBreak := some c, inLine := false } (m.after c) cs
      else blockLines? literal indent { s with done := c :: s.done } (m.after c) cs
    else if isBreak c then
      blockLines? literal indent { s with moreBreaks := c :: s.moreBreaks } (m.after c) cs
    else if m.column < indent && c == ' ' then blockLines? literal indent s (m.after c) cs
    else if m.column < indent && c == '\t' then none
    else if m.column == indent then
      blockLines? literal indent
        { done := c :: s.joint literal c, startedBlank := isBlank c, inLine := true } (m.after c) cs
    else some (s, ⟨m, c :: cs⟩)

def block? (literal : Bool) (outer : Option Nat) (r : Rest) : Option (String × Rest) := do
  let r := r.skip 1
  let (header, n) := BlockHeader.parse r.chars
  let r ← (r.skip n).endLine?
  let indent ←
    match header.increment with
    | some n => some (outer.getD 0 + n)
    | none =>
      (leadingColumn? r.column 0 r.chars).map
        (fun column => max column (max ((outer.map (· + 1)).getD 0) 1))
  let (s, r) ← blockLines? literal indent {} r.mark r.chars
  return (s.text header.chomping, r)

end Sfz.Yaml
