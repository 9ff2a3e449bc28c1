import Sfz.Finding
import Sfz.Number.Digits
import Sfz.Text.Blank

/-!
Documents: the headers of an instrument in order, each with its settings, and the macro definitions.
A header inherits from the nearest header of broader scope before it: a region from a group, a master or
a global header, a group from a master or a global header, a master from a global header. Control, curve,
effect and midi headers stand alone.
-/

namespace Sfz

structure Setting where
  name : String
  value : String
  position : Position
  deriving DecidableEq

structure Definition where
  name : String
  value : String
  position : Position
  deriving DecidableEq

structure Header where
  kind : HeaderKind
  position : Position
  settings : Array Setting
  parent : Option Nat
  control : Option Nat
  deriving DecidableEq

def Header.get? (h : Header) (name : String) : Option Setting :=
  h.settings.toList.reverse.find? (fun s => s.name == name)

structure Document where
  root : Path
  headers : Array Header
  definitions : Array Definition
  deriving DecidableEq

namespace Document

def settings (d : Document) : List (Nat × Setting) :=
  d.headers.toList.zipIdx.flatMap (fun h => h.1.settings.toList.map (fun s => (h.2, s)))

def lookup (d : Document) (name : String) (id : Nat) : Option Setting :=
  match d.headers[id]? with
  | none => none
  | some h =>
    match h.get? name with
    | some s => some s
    | none =>
      match h.parent with
      | some p => if p < id then d.lookup name p else none
      | none => none
termination_by id

def controlOf (d : Document) (id : Nat) : Option Header := do
  let h ← d.headers[id]?
  let c ← h.control
  d.headers[c]?

def curveIndex? (value : String) : Option Nat :=
  match Text.trim value.toList with
  | '+' :: digits => Number.index? digits
  | digits => Number.index? digits

def insertIndex (n : Nat) : List Nat → List Nat
  | [] => [n]
  | m :: rest => if n < m then n :: m :: rest else if n = m then m :: rest else m :: insertIndex n rest

def curves (d : Document) : List Nat :=
  (d.headers.toList.filterMap (fun h =>
    if h.kind = .curve then (h.get? "curve_index").bind (fun s => curveIndex? s.value) else none)).foldr
      insertIndex []

end Document

end Sfz
