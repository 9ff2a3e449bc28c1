import Std.Data.HashMap
import Sfz.File.Tree
import Sfz.Text.Lowercase

/-!
Sample paths. A value is followed name by name through the listings of directories, so that a name that
differs only in case is told apart from one that is there. Both separators are accepted. Listings are
read once and kept, by the components of the directory.
-/

namespace Sfz.Sample

open Text

inductive Status
  | found
  | generated
  | missing
  | caseMismatch (actual : String)
  deriving DecidableEq

def normalizeChars (cs : List Char) : List Char :=
  cs.map (fun c => if c = '\\' then '/' else c)

def normalize (value : String) : String :=
  String.ofList (normalizeChars value.toList)

def withDefault (defaultPath : Option String) (value : String) : String :=
  match defaultPath.map normalize with
  | none => normalize value
  | some start =>
    if start.isEmpty then normalize value
    else if start.toList.getLast? = some '/' then start ++ normalize value
    else start ++ "/" ++ normalize value

def isGenerated (value : String) : Bool :=
  value.toList.head? == some '*'

structure Listings where
  known : Std.HashMap (List Path.Component) (Option (List String))

namespace Listings

def empty : Listings :=
  ⟨∅⟩

def list (t : FileTree) (c : Listings) (dir : Path) : Option (List String) × Listings :=
  match c.known[dir.components]? with
  | some names => (names, c)
  | none =>
    let names := t.list? dir
    (names, ⟨c.known.insert dir.components names⟩)

end Listings

def resolvePart? (names : List String) (part : String) : Option String :=
  if names.contains part then some part
  else names.find? (fun n => lowercase n == lowercase part)

def follow (t : FileTree) : Listings → Path → List String → Option (List String) × Listings
  | c, _, [] => (some [], c)
  | c, dir, part :: rest =>
    if part == ".." then
      let (out, c) := follow t c (dir.join ⟨part⟩) rest
      (out.map (part :: ·), c)
    else
      match c.list t dir with
      | (none, c) => (none, c)
      | (some names, c) =>
        match resolvePart? names part with
        | none => (none, c)
        | some actual =>
          let (out, c) := follow t c (dir.join ⟨actual⟩) rest
          (out.map (actual :: ·), c)

def parts (value : String) : List String :=
  (Path.mk value).pieces.filter (fun p => !Path.isIdle p)

def check (t : FileTree) (c : Listings) (base : Path) (value : String) : Status × Listings :=
  if isGenerated value then (.generated, c)
  else
    let written := normalize value
    let dir : Path := if (Path.mk written).isAbsolute then ⟨"/"⟩ else base
    match follow t c dir (parts written) with
    | (none, c) => (.missing, c)
    | (some [], c) => (.missing, c)
    | (some names, c) =>
      (if names = parts written then .found else .caseMismatch ("/".intercalate names), c)

end Sfz.Sample
