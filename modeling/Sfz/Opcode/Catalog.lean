import Sfz.Opcode.Registry
import Sfz.Text.Blank

namespace Sfz

open Text

inductive FilterKey
  | version
  | type
  | modulates
  deriving DecidableEq

namespace FilterKey

def all : List FilterKey :=
  [.version, .type, .modulates]

def name : FilterKey → String
  | .version => "version"
  | .type => "type"
  | .modulates => "modulates"

def ofName? (s : String) : Option FilterKey :=
  all.find? (fun k => k.name == s)

end FilterKey

structure Filter where
  key : FilterKey
  value : String
  deriving DecidableEq

inductive FilterError
  | noEquals (text : String)
  | unknownKey (key : String)
  deriving DecidableEq

def FilterError.message : FilterError → String
  | .noEquals text => "expected key=value, got " ++ text
  | .unknownKey key => "unknown filter key " ++ key ++ ", expected version, type or modulates"

namespace Filter

def parse (text : String) : Except FilterError Filter :=
  let cs := text.toList
  match cs.dropWhile (· ≠ '=') with
  | [] => .error (.noEquals text)
  | _ :: value =>
    let key := String.ofList (trim (cs.takeWhile (· ≠ '=')))
    match FilterKey.ofName? key with
    | some k => .ok ⟨k, String.ofList (trim value)⟩
    | none => .error (.unknownKey key)

def accepts (f : Filter) (e : Entry) : Bool :=
  match f.key with
  | .version => e.version.any (fun v => v.name == f.value)
  | .type => e.type.name == f.value
  | .modulates => e.modulates == some f.value

end Filter

def holdsChars (needle : List Char) : List Char → Bool
  | [] => needle.isEmpty
  | c :: cs => needle.isPrefixOf (c :: cs) || holdsChars needle cs

def holdsText (needle text : String) : Bool :=
  holdsChars needle.toList text.toList

namespace Registry

def select (r : Registry) (search : Option String) (filters : List Filter) : List Entry :=
  r.entries.filter (fun e =>
    search.all (fun needle => holdsText needle e.name || e.aliases.any (holdsText needle)) &&
      filters.all (fun f => f.accepts e))

end Registry

end Sfz
