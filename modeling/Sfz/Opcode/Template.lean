import Sfz.Number.Digits

/-!
Templates of opcode names. An uppercase letter, or a run of one letter, is a slot that stands for a
number; everything else is literal. A slot takes a whole run of digits, so it may touch neither a
literal digit nor another slot. A slot right after `cc` is a controller slot and may be spelled with
another infix.
-/

namespace Sfz

open Number

structure IndexRange where
  min : Nat
  max : Nat
  deriving DecidableEq

namespace IndexRange

def full : IndexRange :=
  ⟨0, maxIndex⟩

def contains (r : IndexRange) (n : Nat) : Bool :=
  r.min ≤ n && n ≤ r.max

def isInverted (r : IndexRange) : Bool :=
  r.max < r.min

end IndexRange

structure SlotRanges where
  declared : List (Char × IndexRange)
  controller : IndexRange
  deriving DecidableEq

inductive Segment
  | literal (text : List Char)
  | slot (letter : Char) (range : IndexRange)
  deriving DecidableEq

structure Template where
  text : String
  segments : List Segment
  deriving DecidableEq

inductive TemplateError
  | empty
  | ambiguousSlot (letter : Char)
  | unknownSlot (letter : Char)
  deriving DecidableEq

namespace Template

inductive Piece
  | literal (text : List Char)
  | slot (letter : Char)
  deriving DecidableEq

def pieces : List Char → List Piece
  | [] => []
  | c :: cs =>
    if c.isUpper then
      match pieces cs with
      | .slot d :: rest => if c = d then .slot d :: rest else .slot c :: .slot d :: rest
      | rest => .slot c :: rest
    else
      match pieces cs with
      | .literal t :: rest => .literal (c :: t) :: rest
      | rest => .literal [c] :: rest

def crowdedBefore? : List Piece → Option Char
  | .slot _ :: .slot l :: _ => some l
  | .literal t :: .slot l :: rest =>
    if t.getLast?.any Char.isDigit then some l else crowdedBefore? (.slot l :: rest)
  | _ :: rest => crowdedBefore? rest
  | [] => none

def crowdedAfter? : List Piece → Option Char
  | .slot l :: .literal t :: rest =>
    if t.head?.any Char.isDigit then some l else crowdedAfter? (.literal t :: rest)
  | _ :: rest => crowdedAfter? rest
  | [] => none

def endsInCc (t : List Char) : Bool :=
  ['c', 'c'].isSuffixOf t

def slotRange (ranges : SlotRanges) (afterCc : Bool) (letter : Char) : IndexRange :=
  match ranges.declared.lookup letter with
  | some r => r
  | none => if afterCc then ranges.controller else .full

def withRanges (ranges : SlotRanges) : Bool → List Piece → List Segment
  | _, [] => []
  | _, .literal t :: rest => .literal t :: withRanges ranges (endsInCc t) rest
  | afterCc, .slot l :: rest => .slot l (slotRange ranges afterCc l) :: withRanges ranges false rest

def compile (text : String) (ranges : SlotRanges) : Except TemplateError Template :=
  if text.isEmpty then .error .empty
  else
    let ps := pieces text.toList
    match crowdedBefore? ps with
    | some l => .error (.ambiguousSlot l)
    | none =>
      match crowdedAfter? ps with
      | some l => .error (.ambiguousSlot l)
      | none =>
        match ranges.declared.find? (fun d => !ps.contains (.slot d.1)) with
        | some d => .error (.unknownSlot d.1)
        | none => .ok ⟨text, withRanges ranges false ps⟩

def isLiteral (t : Template) : Bool :=
  t.segments.all (fun s => s matches .literal _)

/-- The flag says whether a digit stands before. -/
def collapse : Bool → List Char → List Char
  | _, [] => []
  | afterDigit, c :: cs =>
    if c.isDigit then
      if afterDigit then collapse true cs else '#' :: collapse true cs
    else c :: collapse false cs

def shapeOf (name : List Char) : List Char :=
  collapse false name

def sampleName : List Segment → List Char
  | [] => []
  | .literal t :: rest => t ++ sampleName rest
  | .slot _ _ :: rest => '0' :: sampleName rest

def shape (t : Template) : List Char :=
  shapeOf (sampleName t.segments)

def takeIndex? (range : IndexRange) (name : List Char) : Option (Nat × List Char) := do
  let n ← index? (name.takeWhile Char.isDigit)
  if range.contains n then some (n, name.dropWhile Char.isDigit) else none

def matchSegments? : List Segment → List Char → Option (List (Char × Nat))
  | [], name => if name.isEmpty then some [] else none
  | .literal t :: rest, name => do
    let name ← t.isPrefixOf? name
    matchSegments? rest name
  | .slot l range :: rest, name => do
    let (n, name) ← takeIndex? range name
    let slots ← matchSegments? rest name
    return (l, n) :: slots

def match? (t : Template) (name : String) : Option (List (Char × Nat)) :=
  matchSegments? t.segments name.toList

/-- The infixes that may stand before a controller slot, the longest first. -/
def spellings : List String :=
  ["_oncc", "_cc", "cc"]

def spellingOf? (t : List Char) : Option (List Char × String) :=
  spellings.findSome? (fun s => (s.toList.isSuffixOf? t).map (fun stem => (stem, s)))

structure ControllerSlot where
  before : List Segment
  stem : List Char
  spelling : String
  rest : List Segment

def findController? : List Segment → Option ControllerSlot
  | .literal t :: .slot l r :: rest =>
    match spellingOf? t with
    | some (stem, s) => some ⟨[], stem, s, .slot l r :: rest⟩
    | none =>
      (findController? (.slot l r :: rest)).map (fun c => { c with before := .literal t :: c.before })
  | s :: rest => (findController? rest).map (fun c => { c with before := s :: c.before })
  | [] => none

def controllerSlot? (t : Template) : Option ControllerSlot :=
  findController? t.segments

def segmentsText : List Segment → List Char
  | [] => []
  | .literal t :: rest => t ++ segmentsText rest
  | .slot l _ :: rest => l :: segmentsText rest

def ControllerSlot.respell (c : ControllerSlot) (spelling : String) : Template :=
  let segments := c.before ++ .literal (c.stem ++ spelling.toList) :: c.rest
  ⟨String.ofList (segmentsText segments), segments⟩

end Template

end Sfz
