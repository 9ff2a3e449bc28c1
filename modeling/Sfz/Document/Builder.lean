import Sfz.Document

namespace Sfz

structure Scope where
  global : Option Nat := none
  master : Option Nat := none
  group : Option Nat := none
  control : Option Nat := none
  deriving DecidableEq

namespace Scope

def parent (s : Scope) : HeaderKind → Option Nat
  | .region => s.group.or (s.master.or s.global)
  | .group => s.master.or s.global
  | .master => s.global
  | _ => none

def enter (s : Scope) (id : Nat) : HeaderKind → Scope
  | .global => { s with global := some id, master := none, group := none }
  | .master => { s with master := some id, group := none }
  | .group => { s with group := some id }
  | .control => { s with control := some id }
  | _ => s

end Scope

structure Builder where
  document : Document
  scope : Scope
  deriving DecidableEq

namespace Builder

def empty (root : Path) : Builder :=
  ⟨⟨root, #[], #[]⟩, {}⟩

def openHeader (b : Builder) (kind : HeaderKind) (position : Position) : Builder :=
  let d := b.document
  let scope := b.scope.enter d.headers.size kind
  let header : Header := ⟨kind, position, #[], b.scope.parent kind, scope.control⟩
  ⟨{ d with headers := d.headers.push header }, scope⟩

def isOpen (b : Builder) : Bool :=
  0 < b.document.headers.size

def assign (b : Builder) (s : Setting) : Builder :=
  let d := b.document
  let headers := d.headers.modify (d.headers.size - 1)
    (fun h => { h with settings := h.settings.push s })
  ⟨{ d with headers := headers }, b.scope⟩

def define (b : Builder) (m : Definition) : Builder :=
  let d := b.document
  ⟨{ d with definitions := d.definitions.push m }, b.scope⟩

end Builder

end Sfz
