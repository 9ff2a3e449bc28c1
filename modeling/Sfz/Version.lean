namespace Sfz

inductive Version
  | v1
  | v2
  | aria
  | linuxsampler
  | cakewalk
  deriving DecidableEq

namespace Version

def all : List Version :=
  [.v1, .v2, .aria, .linuxsampler, .cakewalk]

def name : Version → String
  | .v1 => "v1"
  | .v2 => "v2"
  | .aria => "aria"
  | .linuxsampler => "linuxsampler"
  | .cakewalk => "cakewalk"

def ofName? (s : String) : Option Version :=
  all.find? (fun v => v.name == s)

def implied : Version → List Version
  | .v1 => [.v1]
  | .v2 => [.v1, .v2]
  | .aria => [.v1, .v2, .aria]
  | .linuxsampler => [.v1, .v2, .linuxsampler]
  | .cakewalk => [.v1, .cakewalk]

def allowed (selected : List Version) : List Version :=
  all.filter (fun v => selected.any (fun s => s.implied.contains v))

def listText (selected : List Version) : String :=
  "[" ++ ", ".intercalate (selected.map name) ++ "]"

end Version

end Sfz
