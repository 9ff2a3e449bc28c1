import Sfz.CommandLine

namespace Sfz

structure Picture where
  tree : FileTree
  read : List (List String) := []
  texts : List String := []

namespace Picture

def names (path : String) : List String :=
  ((Path.mk path).pieces.filter (fun p => !Path.isIdle p)).reverse

def pathOf (names : List String) : String :=
  "/" ++ "/".intercalate names.reverse

def maxTextBytes : UInt64 := 0x100000

def maxDepth : Nat := 100

def add (p : Picture) (path : String) (o : FileObject) : Picture :=
  { p with tree := p.tree.put ⟨path⟩ o }

def addFile (p : Picture) (path : String) : IO Picture := do
  let info ← (← IO.FS.realPath path).metadata
  if info.byteSize ≤ maxTextBytes || FileTree.isInstrument ⟨path⟩ then
    let text := String.fromUTF8? (← IO.FS.readBinFile path)
    let texts := if FileTree.isInstrument ⟨path⟩ then text.toList ++ p.texts else p.texts
    return { p.add path (.file text) with texts }
  else return p.add path (.file none)

/-- Links to directories are kept as links, and what they lead to is added as well. -/
def addDirectory : Nat → List String → Picture → IO Picture
  | 0, _, p => return p
  | depth + 1, dir, p => do
    if p.read.contains dir then return p
    let mut p := { p with tree := p.tree.putDirectory ⟨pathOf dir⟩, read := dir :: p.read }
    for entry in ← (← IO.FS.realPath (pathOf dir)).readDir do
      let here := pathOf (entry.fileName :: dir)
      try
        match (← entry.path.symlinkMetadata).type with
        | .dir => p ← addDirectory depth (entry.fileName :: dir) p
        | .symlink =>
          let target := (← IO.FS.realPath here).toString
          match (← entry.path.metadata).type with
          | .dir => p ← addDirectory depth (names target) (p.add here (.link ⟨target⟩))
          | _ => p ← p.addFile here
        | _ => p ← p.addFile here
      catch _ => p := p.add here (.link ⟨entry.fileName⟩)
    return p

def stepsUp (p : Picture) : Nat :=
  (p.texts.map (fun text =>
    ((Text.lines text.toList).map (fun line =>
      ((Path.mk (Sample.normalize (String.ofList line))).pieces.filter
        (fun piece => piece.endsWith "..")).length)).foldl max 0)).foldl max 0

def start? (arg : String) : IO (Option (List String)) := do
  try
    let path ← IO.FS.realPath arg
    let dir := names path.toString
    if ← path.isDir then return some dir
    else return if ← path.pathExists then some dir.tail else none
  catch _ => return none

def valueOf (arg : String) : String :=
  match CommandLine.shapeOf arg with
  | .long _ (some value) => value
  | _ => arg

def take (args : List String) : IO Picture := do
  let working := names (← IO.currentDir).toString
  let tree :=
    match FileTree.empty.makeDirectories? 0 working.reverse with
    | some (t, l) => { t with working := l }
    | none => .empty
  let mut p : Picture := { tree }
  let mut starts : List (List String) := []
  for arg in args do
    match ← start? (valueOf arg) with
    | some dir => starts := dir :: starts
    | none => pure ()
  for dir in starts do
    p ← addDirectory maxDepth dir p
  let up := p.stepsUp
  for dir in starts do
    if 0 < up then
      p ← addDirectory maxDepth (dir.drop up) { p with read := [] }
  return p

end Picture

end Sfz

def main (args : List String) : IO UInt32 := do
  let picture ← Sfz.Picture.take args
  match Sfz.CommandLine.run picture.tree args with
  | .ok outcome =>
    for line in outcome.lines do
      IO.println line
    return outcome.code.toUInt32
  | .error failure =>
    IO.eprintln failure.message
    return failure.code.toUInt32
