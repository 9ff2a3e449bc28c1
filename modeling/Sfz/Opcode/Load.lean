import Sfz.File.Tree
import Sfz.Opcode.Registry
import Sfz.Opcode.Source
import Sfz.Yaml.Reader

namespace Sfz

inductive LoadError
  | unreadable (file : Path) (cause : FileError)
  | malformed
  | invalid (error : TableError)
  deriving DecidableEq

namespace LoadError

def message : LoadError → String
  | .unreadable file cause => "cannot read opcode table " ++ file.text ++ ": " ++ cause.message
  | .malformed => "malformed opcode table"
  | .invalid error => error.message

def chain (e : LoadError) : String :=
  match e with
  | .unreadable _ cause => e.message ++ ": " ++ cause.message
  | _ => e.message

end LoadError

namespace Registry

def ofTable? (t : Option Table) : Except LoadError Registry :=
  match t with
  | none => .error .malformed
  | some t => (Registry.build t).mapError .invalid

def ofJson (j : Json) : Except LoadError Registry :=
  ofTable? (Table.ofData? j)

def ofYaml (text : String) : Except LoadError Registry :=
  ofTable? ((Yaml.parse? text).bind Table.ofData?)

def load (t : FileTree) (file : Path) : Except LoadError Registry :=
  match t.read file with
  | .error cause => .error (.unreadable file cause)
  | .ok text => ofYaml text

end Registry

end Sfz
