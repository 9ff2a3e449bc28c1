import Std.Data.HashMap
import Sfz.Yaml

/-!
Reading YAML documents. A text holds one document, and an empty text the empty one. A sequence that is
the value of a key may begin at the key's column.

A node with an anchor gets a number, which is how many names of anchors there are before it, and a name
that is referred to stands for the last number that it has got. If names are used again, several nodes may
have one number, and then the last of these nodes counts.
-/

namespace Sfz.Yaml

structure Place where
  inBlock : Bool
  atKey : Bool

/-- How far a document has been read: the tokens that are left, the number that the name of an anchor
stands for, the index of the node of each number, the nodes with an anchor in the order in which they
begin, and how many parts the document has so far. -/
structure Reading where
  tokens : List Token
  anchors : Std.HashMap String Nat := ∅
  indices : Array Nat := #[]
  nodes : Array Yaml := #[]
  parts : Nat := 0

namespace Reading

def advance (s : Reading) (parts : Nat) (tokens : List Token) : Reading :=
  { s with tokens, parts := s.parts + parts }

def start (s : Reading) (name : String) : Reading :=
  let number := s.anchors.size
  let index := s.nodes.size
  { s with
    anchors := s.anchors.insert name number
    indices :=
      if number < s.indices.size then s.indices.setIfInBounds number index else s.indices.push index
    nodes := s.nodes.push empty }

def finish (s : Reading) (index : Nat) (node : Yaml) : Reading :=
  { s with nodes := s.nodes.setIfInBounds index node }

def refer? (s : Reading) (name : String) : Option (Yaml × Reading) :=
  (s.anchors[name]?).map (fun number => (.reference number, s))

def node? (s : Reading) (number : Nat) : Option Yaml :=
  (s.indices[number]?).bind (fun index => s.nodes[index]?)

end Reading

structure Properties where
  anchor : Option String := none
  tag : Option TagName := none

def Properties.parse : List Token → Properties × List Token
  | .anchor a :: .tag t :: ts => (⟨some a, some t⟩, ts)
  | .tag t :: .anchor a :: ts => (⟨some a, some t⟩, ts)
  | .anchor a :: ts => (⟨some a, none⟩, ts)
  | .tag t :: ts => (⟨none, some t⟩, ts)
  | ts => ({}, ts)

def Properties.isEmpty (p : Properties) : Bool :=
  p.anchor.isNone && p.tag.isNone

def atBlockField : List Token → Bool
  | .key :: _ => true
  | .value :: _ => true
  | .blockEnd :: _ => true
  | _ => false

def atFlowEnd : List Token → Bool
  | .comma :: _ => true
  | .flowSequenceEnd :: _ => true
  | .flowMappingEnd :: _ => true
  | _ => false

def omitted (s : Reading) : Yaml × Reading :=
  (empty, s.advance 1 s.tokens)

abbrev Handles := List (String × List UInt8)

mutual

/-- Each step uses up one unit of the first argument; the second is how deep further nodes may lie. -/
def node? (handles : Handles) : Nat → Nat → Place → Reading → Option (Yaml × Reading)
  | 0, _, _, _ => none
  | n + 1, depth, place, s =>
    match s.tokens with
    | .reference name :: ts => (s.advance 1 ts).refer? name
    | ts => do
      let (properties, ts) := Properties.parse ts
      let tag ←
        match properties.tag with
        | none => some none
        | some t => (t.resolve? handles).map some
      let s := s.advance 0 ts
      match properties.anchor with
      | none => content? handles n depth place (!properties.isEmpty) tag s
      | some name =>
        let index := s.nodes.size
        let (node, s) ← content? handles n depth place true tag (s.start name)
        return (node, s.finish index node)

def content? (handles : Handles) :
    Nat → Nat → Place → Bool → Option String → Reading → Option (Yaml × Reading)
  | 0, _, _, _, _, _ => none
  | _ + 1, 0, _, _, _, _ => none
  | n + 1, depth + 1, place, mayOmit, tag, s =>
    match s.tokens with
    | .scalar text style :: ts => some (.scalar text style tag, s.advance 1 ts)
    | .flowSequence :: ts => flowItems? handles n depth true [] (s.advance 1 ts)
    | .flowMapping :: ts => flowFields? handles n depth true [] (s.advance 1 ts)
    | ts =>
      match ts, place.inBlock, place.atKey with
      | .entry :: _, _, true => alignedItems? handles n depth [] (s.advance 1 ts)
      | .blockSequence :: ts, true, _ => blockItems? handles n depth [] (s.advance 1 ts)
      | .blockMapping :: ts, true, _ => blockFields? handles n depth [] (s.advance 1 ts)
      | _, _, _ => if mayOmit then some (.scalar "" .plain tag, s.advance 1 ts) else none

def blockItems? (handles : Handles) : Nat → Nat → List Yaml → Reading → Option (Yaml × Reading)
  | 0, _, _, _ => none
  | n + 1, depth, done, s =>
    match s.tokens with
    | .blockEnd :: ts => some (.sequence done.reverse, s.advance 1 ts)
    | .entry :: ts => do
      let s := s.advance 0 ts
      let (item, s) ←
        match ts with
        | .entry :: _ => some (omitted s)
        | .blockEnd :: _ => some (omitted s)
        | _ => node? handles n depth ⟨true, false⟩ s
      blockItems? handles n depth (item :: done) s
    | _ => none

def alignedItems? (handles : Handles) : Nat → Nat → List Yaml → Reading → Option (Yaml × Reading)
  | 0, _, _, _ => none
  | n + 1, depth, done, s =>
    match s.tokens with
    | .entry :: ts => do
      let s := s.advance 0 ts
      let (item, s) ←
        match ts with
        | .entry :: _ => some (omitted s)
        | _ => if atBlockField ts then some (omitted s) else node? handles n depth ⟨true, false⟩ s
      alignedItems? handles n depth (item :: done) s
    | ts => some (.sequence done.reverse, s.advance 1 ts)

def blockField? (handles : Handles) : Nat → Nat → Reading → Option (Yaml × Reading)
  | 0, _, _ => none
  | n + 1, depth, s =>
    if atBlockField s.tokens then some (omitted s) else node? handles n depth ⟨true, true⟩ s

def blockFields? (handles : Handles) :
    Nat → Nat → List (Yaml × Yaml) → Reading → Option (Yaml × Reading)
  | 0, _, _, _ => none
  | n + 1, depth, done, s =>
    match s.tokens with
    | .blockEnd :: ts => some (.mapping done.reverse, s.advance 1 ts)
    | .key :: ts => do
      let (key, s) ← blockField? handles n depth (s.advance 0 ts)
      let (value, s) ←
        match s.tokens with
        | .value :: ts => blockField? handles n depth (s.advance 0 ts)
        | _ => some (omitted s)
      blockFields? handles n depth ((key, value) :: done) s
    | _ => none

def flowField? (handles : Handles) : Nat → Nat → Reading → Option (Yaml × Reading)
  | 0, _, _ => none
  | n + 1, depth, s =>
    if atFlowEnd s.tokens then some (omitted s) else node? handles n depth ⟨false, false⟩ s

def flowPair? (handles : Handles) : Nat → Nat → Reading → Option ((Yaml × Yaml) × Reading)
  | 0, _, _ => none
  | n + 1, depth, s => do
    let (key, s) ←
      match s.tokens with
      | .value :: _ => some (omitted s)
      | _ => flowField? handles n depth s
    let (value, s) ←
      match s.tokens with
      | .value :: ts => flowField? handles n depth (s.advance 0 ts)
      | _ => some (omitted s)
    return ((key, value), s)

def flowItems? (handles : Handles) :
    Nat → Nat → Bool → List Yaml → Reading → Option (Yaml × Reading)
  | 0, _, _, _, _ => none
  | n + 1, depth, isFirst, done, s =>
    match s.tokens, isFirst with
    | .flowSequenceEnd :: ts, _ => some (.sequence done.reverse, s.advance 1 ts)
    | .comma :: .flowSequenceEnd :: ts, false => some (.sequence done.reverse, s.advance 1 ts)
    | .comma :: ts, false => do
      let (item, s) ← flowItem? handles n depth (s.advance 0 ts)
      flowItems? handles n depth false (item :: done) s
    | _, false => none
    | _, true => do
      let (item, s) ← flowItem? handles n depth s
      flowItems? handles n depth false (item :: done) s

def flowItem? (handles : Handles) : Nat → Nat → Reading → Option (Yaml × Reading)
  | 0, _, _ => none
  | n + 1, depth, s =>
    match s.tokens with
    | .key :: ts => do
      let (field, s) ← flowPair? handles n depth (s.advance 2 ts)
      return (.mapping [field], s)
    | _ => node? handles n depth ⟨false, false⟩ s

def flowFields? (handles : Handles) :
    Nat → Nat → Bool → List (Yaml × Yaml) → Reading → Option (Yaml × Reading)
  | 0, _, _, _, _ => none
  | n + 1, depth, isFirst, done, s =>
    match s.tokens, isFirst with
    | .flowMappingEnd :: ts, _ => some (.mapping done.reverse, s.advance 1 ts)
    | .comma :: .flowMappingEnd :: ts, false => some (.mapping done.reverse, s.advance 1 ts)
    | .comma :: ts, false => do
      let (field, s) ← flowMember? handles n depth (s.advance 0 ts)
      flowFields? handles n depth false (field :: done) s
    | _, false => none
    | _, true => do
      let (field, s) ← flowMember? handles n depth s
      flowFields? handles n depth false (field :: done) s

def flowMember? (handles : Handles) : Nat → Nat → Reading → Option ((Yaml × Yaml) × Reading)
  | 0, _, _ => none
  | n + 1, depth, s =>
    match s.tokens with
    | .key :: ts => flowPair? handles n depth (s.advance 0 ts)
    | _ => do
      let (key, s) ← node? handles n depth ⟨false, false⟩ s
      let (value, s) := omitted s
      return ((key, value), s)

end

def directives : List Token → List Directive × List Token
  | .directive d :: ts =>
    let (ds, ts) := directives ts
    (d :: ds, ts)
  | ts => ([], ts)

def handles? (ds : List Directive) : Option Handles :=
  let versions := ds.filterMap (fun d => match d with
    | .version major minor => some (major, minor)
    | .tag .. => none)
  let defined := ds.filterMap (fun d => match d with
    | .tag handle start => some (handle, start)
    | .version .. => none)
  if versions.length ≤ 1 && versions.all (fun v => v.1 == 1 && (v.2 == 1 || v.2 == 2)) &&
      (defined.map Prod.fst).eraseDups.length == defined.length then
    some (defined ++ TagName.handles)
  else none

def maxReferences : Nat := 100

def root? (handles : Handles) (ts : List Token) : Option Yaml := do
  let (root, s) ← node? handles (4 * ts.length + 4) maxDepth ⟨true, false⟩ { tokens := ts }
  if s.tokens.all (· == .documentEnd) then
    ((root.expand? s.node? maxDepth).run (maxReferences * s.parts)).map Prod.fst
  else none

def isBare (ts : List Token) : Bool :=
  ts.all (· == .documentEnd)

def ofTokens? (ts : List Token) : Option Yaml :=
  let (ds, ts) := directives ts
  match ts with
  | .documentStart :: ts => do
    let handles ← handles? ds
    if isBare ts then some empty else root? handles ts
  | [] => if ds.isEmpty then some empty else none
  | ts => if ds.isEmpty then root? TagName.handles ts else none

def isAllowed (c : Char) : Bool :=
  c == '\t' || c == '\n' || c == '\r' || (0x20 ≤ c.toNat && c.toNat ≤ 0x7e) || c == '\u0085' ||
    (0xa0 ≤ c.toNat && c.toNat ≤ 0xfffd) || 0x10000 ≤ c.toNat

def normalizeBreaks (done : List Char) : List Char → List Char
  | [] => done.reverse
  | '\r' :: '\n' :: cs => normalizeBreaks ('\n' :: done) cs
  | c :: cs => normalizeBreaks ((if c == '\r' || c == '\u0085' then '\n' else c) :: done) cs

def parse? (text : String) : Option Yaml :=
  let cs := text.toList
  if cs.all isAllowed then (Token.scan? (normalizeBreaks [] cs)).bind ofTokens? else none

end Sfz.Yaml
