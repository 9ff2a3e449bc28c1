import Sfz.Json.Reader
import Sfz.Number.Stepwise

namespace Sfz

class Data (α : Type) where
  present? : α → Option (Option α)
  text? : α → Option String
  number? : α → Option Binary64
  index? : α → Option Nat
  choice? : α → Option String
  items? : α → Option (List α)
  fields? : α → Option (List (String × α))
  record? : List String → α → Option (List (String × α))

namespace Data

variable {α β : Type} [Data α]

def optional? (read : α → Option β) (v : α) : Option (Option β) := do
  match ← present? v with
  | none => return none
  | some v => return some (← read v)

def list? (read : α → Option β) (v : α) : Option (List β) :=
  (items? v).bind (·.mapM read)

def exactRecord? (keys : List String) (v : α) : Option (List (String × α)) :=
  (record? keys v).filter (fun fields =>
    let found := fields.map Prod.fst
    found.all keys.contains && found.eraseDups.length == found.length)

def field? (fields : List (String × α)) (key : String) (read : α → Option β) (default : β) :
    Option β :=
  match fields.lookup key with
  | some v => read v
  | none => some default

end Data

namespace Json

def lastFields : List (String × Json) → List (String × Json)
  | [] => []
  | f :: rest => if rest.any (fun g => g.1 == f.1) then lastFields rest else f :: lastFields rest

/-- A record may also be the list of its values in the order of its keys. A choice may also be an object
whose only field is null and has the name of the choice. -/
instance : Data Json where
  present?
    | .null => some none
    | v => some (some v)
  text?
    | .string s => some s
    | _ => none
  number?
    | .number n => some n.stepwise
    | _ => none
  index?
    | .number n => n.index?
    | _ => none
  choice?
    | .string s => some s
    | .object fields =>
      match lastFields fields with
      | [(name, .null)] => some name
      | _ => none
    | _ => none
  items?
    | .array items => some items
    | _ => none
  fields?
    | .object fields => some (lastFields fields)
    | _ => none
  record? keys
    | .object fields => some (lastFields fields)
    | .array items => if items.length ≤ keys.length then some (keys.zip items) else none
    | _ => none

end Json

end Sfz
