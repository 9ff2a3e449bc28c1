import Sfz.Version

namespace Sfz

inductive HeaderKind
  | region
  | group
  | control
  | global
  | curve
  | effect
  | master
  | midi
  deriving DecidableEq

namespace HeaderKind

def all : List HeaderKind :=
  [.region, .group, .control, .global, .curve, .effect, .master, .midi]

def name : HeaderKind → String
  | .region => "region"
  | .group => "group"
  | .control => "control"
  | .global => "global"
  | .curve => "curve"
  | .effect => "effect"
  | .master => "master"
  | .midi => "midi"

def ofName? (s : String) : Option HeaderKind :=
  all.find? (fun k => k.name == s)

def version : HeaderKind → Version
  | .region | .group => .v1
  | .control | .global | .curve | .effect => .v2
  | .master | .midi => .aria

def isSingle : HeaderKind → Bool
  | .control | .global | .midi => true
  | _ => false

theorem ofName?_name (k : HeaderKind) : ofName? k.name = some k := by
  cases k <;> decide

theorem name_of_ofName? {s : String} {k : HeaderKind} (h : ofName? s = some k) : k.name = s := by
  simpa using List.find?_some h

end HeaderKind

end Sfz
