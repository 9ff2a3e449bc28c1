import Sfz.Number.Shortest
import Sfz.Version

namespace Sfz

inductive ValueType
  | integer
  | float
  | enum (options : List String)
  | string
  | note
  | path
  deriving DecidableEq

structure Bounds where
  min : Option Binary64
  max : Option Binary64
  deriving DecidableEq

structure Entry where
  name : String
  type : ValueType
  bounds : Bounds
  aliases : List String
  spellings : List String
  modulates : Option String
  version : Option Version
  deriving DecidableEq

def ValueType.name : ValueType → String
  | .integer => "integer"
  | .float => "float"
  | .enum _ => "enum"
  | .string => "string"
  | .note => "note"
  | .path => "path"

def bracketed (items : List String) : String :=
  "[" ++ ", ".intercalate items ++ "]"

def padEnd (width : Nat) (s : String) : String :=
  s ++ String.ofList (List.replicate (width - s.length) ' ')

namespace Entry

def typeText (e : Entry) : String :=
  match e.type, e.bounds.min, e.bounds.max with
  | .enum options, _, _ => "enum " ++ bracketed options
  | t, some lo, some hi => t.name ++ " " ++ lo.boundText ++ " to " ++ hi.boundText
  | t, some lo, none => t.name ++ " >= " ++ lo.boundText
  | t, none, some hi => t.name ++ " <= " ++ hi.boundText
  | t, none, none => t.name

def nameWidth : Nat := 28

def versionWidth : Nat := 12

def line (e : Entry) : String :=
  padEnd nameWidth e.name ++ " " ++
    padEnd versionWidth ((e.version.map Version.name).getD "-") ++ " " ++ e.typeText ++
    (if e.aliases.isEmpty then "" else "  aliases: " ++ ", ".intercalate e.aliases) ++
    (match e.modulates with
      | some target => "  modulates: " ++ target
      | none => "")

end Entry

end Sfz
