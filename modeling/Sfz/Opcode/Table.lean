import Sfz.Opcode.Entry
import Sfz.Opcode.Template

namespace Sfz

inductive RowType
  | integer
  | float
  | enum
  | string
  | note
  | path
  deriving DecidableEq

namespace RowType

def all : List RowType :=
  [.integer, .float, .enum, .string, .note, .path]

def name : RowType → String
  | .integer => "integer"
  | .float => "float"
  | .enum => "enum"
  | .string => "string"
  | .note => "note"
  | .path => "path"

def ofName? (s : String) : Option RowType :=
  all.find? (fun t => t.name == s)

end RowType

/-- The ranges of slots are keyed by the slot as written. -/
structure Row where
  name : String
  type : RowType := .string
  min : Option Binary64 := none
  max : Option Binary64 := none
  options : List String := []
  index : List (String × IndexRange) := []
  spellings : List String := []
  aliases : List String := []
  modulates : Option String := none
  version : Option Version := none
  deriving DecidableEq

structure Table where
  controllerRange : IndexRange := ⟨0, 255⟩
  rows : List Row := []
  deriving DecidableEq

inductive TableError
  | emptyTemplate
  | duplicate (name : String)
  | ambiguousSlot (template : String) (slot : Char)
  | unknownSlot (template slot : String)
  | invertedRange (template min max : String)
  | enumWithoutOptions (name : String)
  | noControllerSlot (template : String)
  | unknownSpelling (template spelling : String)
  deriving DecidableEq

namespace TableError

def message : TableError → String
  | .emptyTemplate => "opcode template is empty"
  | .duplicate name => "duplicate opcode template " ++ name
  | .ambiguousSlot t slot =>
    "template " ++ t ++ ": slot " ++ slot.toString ++ " touches a literal digit or another slot"
  | .unknownSlot t slot =>
    "template " ++ t ++ ": index range declared for " ++ slot ++ " which is not a slot"
  | .invertedRange t min max => "template " ++ t ++ ": range " ++ min ++ " to " ++ max ++ " is inverted"
  | .enumWithoutOptions name => "enum opcode " ++ name ++ " declares no options"
  | .noControllerSlot t => "template " ++ t ++ " declares cc spellings but has no controller slot"
  | .unknownSpelling t s => "template " ++ t ++ ": unknown cc spelling " ++ s

def ofTemplate (text : String) : TemplateError → TableError
  | .empty => .emptyTemplate
  | .ambiguousSlot l => .ambiguousSlot text l
  | .unknownSlot l => .unknownSlot text l.toString

end TableError

inductive Pattern
  | exact (text : String)
  | template (t : Template)
  | variant (t : Template)
  deriving DecidableEq

structure Rule where
  entry : Entry
  isAlias : Bool
  pattern : Pattern
  deriving DecidableEq

namespace Row

def letter? (key : String) : Option Char :=
  match key.toList with
  | [c] => if c.isUpper then some c else none
  | _ => none

def declaredRanges (name : String) :
    List (String × IndexRange) → Except TableError (List (Char × IndexRange))
  | [] => .ok []
  | (key, range) :: rest =>
    match letter? key with
    | none => .error (.unknownSlot name key)
    | some l =>
      if range.isInverted then .error (.invertedRange name (toString range.min) (toString range.max))
      else do
        let others ← declaredRanges name rest
        return (l, range) :: others

def compileTemplate (text : String) (ranges : SlotRanges) : Except TableError Template :=
  (Template.compile text ranges).mapError (TableError.ofTemplate text)

def checkBounds (r : Row) : Except TableError Unit :=
  match r.min, r.max with
  | some lo, some hi =>
    if hi.lt lo then .error (.invertedRange r.name lo.boundText hi.boundText) else .ok ()
  | _, _ => .ok ()

def valueType (r : Row) : Except TableError ValueType :=
  match r.type with
  | .integer => .ok .integer
  | .float => .ok .float
  | .enum => if r.options.isEmpty then .error (.enumWithoutOptions r.name) else .ok (.enum r.options)
  | .string => .ok .string
  | .note => .ok .note
  | .path => .ok .path

def checkSpellings (r : Row) : Except TableError Unit :=
  match r.spellings.find? (fun s => !Template.spellings.contains s) with
  | some s => .error (.unknownSpelling r.name s)
  | none => .ok ()

def basePattern (t : Template) : Pattern :=
  if t.isLiteral then .exact t.text else .template t

def variants (c : Template.ControllerSlot) (spellings : List String) : List Pattern :=
  (spellings.filter (· ≠ c.spelling)).map (fun s => .variant (c.respell s))

/-- Declared spellings need a controller slot, except in an alias. -/
def patterns (t : Template) (spellings : List String) (isAlias : Bool) :
    Except TableError (List Pattern) :=
  if spellings.isEmpty then .ok [basePattern t]
  else
    match t.controllerSlot? with
    | some c => .ok (basePattern t :: variants c spellings)
    | none => if isAlias then .ok [basePattern t] else .error (.noControllerSlot t.text)

def aliasRanges (ranges : SlotRanges) (name : String) : SlotRanges :=
  { ranges with declared := ranges.declared.filter (fun d => name.toList.contains d.1) }

def aliasPatterns (ranges : SlotRanges) (spellings : List String) :
    List String → Except TableError (List Pattern)
  | [] => .ok []
  | name :: rest => do
    let t ← compileTemplate name (aliasRanges ranges name)
    let ps ← patterns t spellings true
    let others ← aliasPatterns ranges spellings rest
    return ps ++ others

def compile (controller : IndexRange) (r : Row) : Except TableError (Entry × List Rule) := do
  let declared ← declaredRanges r.name r.index
  let ranges : SlotRanges := ⟨declared, controller⟩
  let template ← compileTemplate r.name ranges
  r.checkBounds
  let type ← r.valueType
  r.checkSpellings
  let own ← patterns template r.spellings false
  let others ← aliasPatterns ranges r.spellings r.aliases
  let entry : Entry :=
    ⟨r.name, type, ⟨r.min, r.max⟩, r.aliases, r.spellings, r.modulates, r.version⟩
  return (entry, own.map (⟨entry, false, ·⟩) ++ others.map (⟨entry, true, ·⟩))

end Row

namespace Table

def compileRows (controller : IndexRange) (seen : List String) :
    List Row → Except TableError (List (Entry × List Rule))
  | [] => .ok []
  | r :: rest =>
    if seen.contains r.name then .error (.duplicate r.name)
    else do
      let compiled ← r.compile controller
      let others ← compileRows controller (r.name :: seen) rest
      return compiled :: others

def compile (t : Table) : Except TableError (List (Entry × List Rule)) :=
  let c := t.controllerRange
  if c.isInverted then
    .error (.invertedRange "controller_range" (toString c.min) (toString c.max))
  else compileRows c [] t.rows

end Table

end Sfz
