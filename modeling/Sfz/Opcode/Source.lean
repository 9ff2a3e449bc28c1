import Sfz.Data
import Sfz.Opcode.Table

namespace Sfz

open Data

variable {α : Type} [Data α]

def IndexRange.ofData? (v : α) : Option IndexRange :=
  match list? index? v with
  | some [min, max] => some ⟨min, max⟩
  | _ => none

namespace Row

def insertRange (key : String) (range : IndexRange) :
    List (String × IndexRange) → List (String × IndexRange)
  | [] => [(key, range)]
  | (k, r) :: rest =>
    if key < k then (key, range) :: (k, r) :: rest
    else if key = k then (key, range) :: rest
    else (k, r) :: insertRange key range rest

/-- Of two ranges for one key the last counts. -/
def rangesOfData? (v : α) : Option (List (String × IndexRange)) := do
  let fields ← fields? v
  let ranges ← fields.mapM (fun f => (IndexRange.ofData? f.2).map (f.1, ·))
  return ranges.foldl (fun sorted f => insertRange f.1 f.2 sorted) []

def keys : List String :=
  ["name", "type", "min", "max", "options", "index", "cc_spellings", "aliases", "modulates", "version"]

def ofData? (v : α) : Option Row := do
  let fields ← exactRecord? keys v
  let name ← (← fields.lookup "name") |> text?
  let type ← field? fields "type" (fun v => (choice? v).bind RowType.ofName?) .string
  let min ← field? fields "min" (optional? number?) none
  let max ← field? fields "max" (optional? number?) none
  let options ← field? fields "options" (list? text?) []
  let index ← field? fields "index" rangesOfData? []
  let spellings ← field? fields "cc_spellings" (list? text?) []
  let aliases ← field? fields "aliases" (list? text?) []
  let modulates ← field? fields "modulates" (optional? text?) none
  let version ← field? fields "version" (optional? (fun v => (choice? v).bind Version.ofName?)) none
  return { name, type, min, max, options, index, spellings, aliases, modulates, version }

end Row

namespace Table

def keys : List String :=
  ["controller_range", "opcodes"]

def ofData? (v : α) : Option Table := do
  let fields ← exactRecord? keys v
  let controllerRange ← field? fields "controller_range" IndexRange.ofData? ⟨0, 255⟩
  let rows ← field? fields "opcodes" (list? Row.ofData?) []
  return { controllerRange, rows }

end Table

end Sfz
