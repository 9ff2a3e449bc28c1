import Sfz.Data
import Sfz.Number.Numeral
import Sfz.Yaml.Token

/-!
Documents of the data language YAML as trees. A scalar is a text together with how it is written and with
its tag: plain scalars denote numbers or stand for nothing, unless a tag says otherwise. A reference gives
the number of a node, which is put in its place before the document is used.
-/

namespace Sfz

inductive Yaml
  | scalar (text : String) (style : Yaml.Style) (tag : Option String)
  | sequence (items : List Yaml)
  | mapping (fields : List (Yaml × Yaml))
  | reference (number : Nat)

namespace Yaml

open Number

def empty : Yaml :=
  .scalar "" .plain none

/-- Each step into a node, and each reference, uses up one unit of the depth; the state is how many references
may still be met. -/
def expand? (node? : Nat → Option Yaml) : Nat → Yaml → StateT Nat Option Yaml
  | 0, _ => failure
  | _ + 1, .scalar text style tag => return .scalar text style tag
  | depth + 1, .sequence items => return .sequence (← items.mapM (expand? node? depth))
  | depth + 1, .mapping fields => do
    let fields ← fields.mapM (fun f => do
      let key ← expand? node? depth f.1
      let value ← expand? node? depth f.2
      return (key, value))
    return .mapping fields
  | depth + 1, .reference number => do
    match ← get, node? number with
    | left + 1, some node =>
      set left
      expand? node? depth node
    | _, _ => failure

def nulls : List String :=
  ["~", "null", "Null", "NULL"]

def infinities : List String :=
  [".inf", ".Inf", ".INF"]

def nans : List String :=
  [".nan", ".NaN", ".NAN"]

def nullTag : String := "tag:yaml.org,2002:null"

def integerTag : String := "tag:yaml.org,2002:int"

def floatTag : String := "tag:yaml.org,2002:float"

def dropPlus : List Char → List Char
  | '+' :: cs => cs
  | cs => cs

def finite? (cs : List Char) : Option Binary64 :=
  match (Numeral.parse? cs).map Numeral.toBinary64 with
  | some (.finite negative units) => some (.finite negative units)
  | _ => none

def number? (text : String) : Option Binary64 :=
  let cs := text.toList
  if nans.contains text then some .nan
  else if infinities.contains (String.ofList (dropPlus cs)) then some (.infinite false)
  else
    match cs with
    | '-' :: rest =>
      if infinities.contains (String.ofList rest) then some (.infinite true) else finite? cs
    | '+' :: '-' :: _ => none
    | '+' :: rest => finite? rest
    | _ => finite? cs

def digitOf? (base : Nat) (c : Char) : Option Nat :=
  (Json.hexValue? c).filter (· < base)

def based? (base : Nat) (cs : List Char) : Option Nat :=
  if cs.isEmpty then none
  else (cs.mapM (digitOf? base)).map (fun ds => ds.foldl (fun n d => base * n + d) 0)

def natural? (text : String) : Option Nat :=
  match dropPlus text.toList with
  | '0' :: 'x' :: cs => based? 16 cs
  | '0' :: 'o' :: cs => based? 8 cs
  | '0' :: 'b' :: cs => based? 2 cs
  | ['0'] => some 0
  | '0' :: _ => none
  | cs => based? 10 cs

def isNumeric (style : Style) (tag : Option String) (expected : String) : Bool :=
  style == .plain || (style == .literal && tag == some expected)

/-- A tag on a plain text says that the value is there, except for the tag of nothing, which asks for a text
that stands for nothing. -/
def present? : Yaml → Option (Option Yaml)
  | .scalar text .plain none =>
    some (if text.isEmpty || nulls.contains text then none else some (.scalar text .plain none))
  | .scalar text .plain (some tag) =>
    if tag == nullTag then if nulls.contains text then some none else none
    else some (some (.scalar text .plain (some tag)))
  | v => some (some v)

def choice? : Yaml → Option String
  | .scalar text style (some tag) =>
    match tag.toList with
    | '!' :: name =>
      if style == .plain && (text.isEmpty || nulls.contains text) then some (String.ofList name)
      else none
    | _ => some text
  | .scalar text _ none => some text
  | _ => none

def text? : Yaml → Option String
  | .scalar text _ _ => some text
  | _ => none

def fields? : Yaml → Option (List (String × Yaml))
  | .mapping fields => fields.mapM (fun f => f.1.text?.map (·, f.2))
  | .scalar "" .plain _ => some []
  | _ => none

instance : Data Yaml where
  present? := present?
  text? := text?
  number?
    | .scalar text style tag => if isNumeric style tag floatTag then number? text else none
    | _ => none
  index?
    | .scalar text style tag =>
      if isNumeric style tag integerTag then (natural? text).filter (· ≤ maxIndex) else none
    | _ => none
  choice? := choice?
  items?
    | .sequence items => some items
    | .scalar "" .plain _ => some []
    | _ => none
  fields? := fields?
  record? _ := fields?

end Yaml

end Sfz
