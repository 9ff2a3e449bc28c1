import Sfz.Check
import Sfz.Inclusion
import Sfz.Report

namespace Sfz

def SourceError.finding (root : Path) : SourceError → Finding
  | .unreadable _ cause => ⟨.unreadableFile cause, ⟨root, .start⟩, none⟩
  | .malformed file e => ⟨.syntaxError e.cause, ⟨file, e.span⟩, none⟩

namespace FileTree

def findings (t : FileTree) (r : Registry) (settings : Settings) (root : Path) : List Finding :=
  match t.resolve root settings.basePath .empty with
  | .error e => [e.finding root]
  | .ok s => s.findings.toList ++ s.builder.document.check t r settings

def lint (t : FileTree) (r : Registry) (settings : Settings) (root : Path) : Report :=
  .ofFindings (t.findings r settings root)

/-- A run that is stopped looks at no further file; failing fast stops it after the first report with an
error. -/
def lintAll (t : FileTree) (r : Registry) (settings : Settings) :
    Bool → List Path → List (Path × Report) × Bool
  | stopped, [] => ([], stopped)
  | true, _ :: _ => ([], true)
  | false, p :: rest =>
    let report := t.lint r settings p
    let (others, stopped) := t.lintAll r settings (settings.failFast && report.hasErrors) rest
    ((p, report) :: others, stopped)

def isInstrument (p : Path) : Bool :=
  p.extension?.any (fun e => e.map Char.toLower == "sfz")

/-- Links to directories are not passed. Each step into a directory uses up one unit of the first argument. -/
def instrumentsBelow (t : FileTree) : Nat → Path → Directory → List Path
  | 0, _, _ => []
  | n + 1, p, d =>
    d.entries.flatMap (fun e =>
      let q := p.join ⟨e.1⟩
      match t.object? e.2 with
      | some (.file _) => if isInstrument q then [q] else []
      | some (.link _) => if isInstrument q && t.isFile q then [q] else []
      | some (.directory inner) => instrumentsBelow t n q inner
      | none => [])

def directoryAt? (t : FileTree) (p : Path) : Option Directory :=
  match t.locate p with
  | .ok l => t.directory? l
  | .error _ => none

def instruments (t : FileTree) (p : Path) : List Path :=
  match t.directoryAt? p with
  | some d => (t.instrumentsBelow t.objects.size p d).mergeSort (fun a b => (a.cmp b).isLE)
  | none => [p]

def overlongBelow? (t : FileTree) : Nat → Path → Directory → Option Path
  | 0, _, _ => none
  | n + 1, p, d =>
    d.entries.findSome? (fun e =>
      match t.directory? e.2 with
      | some inner =>
        let q := p.join ⟨e.1⟩
        if maxPathBytes < q.text.utf8ByteSize then some q else overlongBelow? t n q inner
      | none => none)

def overlong? (t : FileTree) (p : Path) : Option Path :=
  (t.directoryAt? p).bind (t.overlongBelow? t.objects.size p)

def usedOpcodes (t : FileTree) (roots : List Path) : List String :=
  let names := roots.flatMap (fun root =>
    match t.resolve root none .empty with
    | .ok s => s.builder.document.settings.map (fun a => a.2.name)
    | .error _ => [])
  (names.mergeSort (fun a b => (compare a b).isLE)).eraseReps

end FileTree

end Sfz
