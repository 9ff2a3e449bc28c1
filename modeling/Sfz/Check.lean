import Sfz.Check.Sample
import Sfz.Check.Structure
import Sfz.Check.Value
import Sfz.Opcode.Registry
import Sfz.Settings
import Sfz.Text.Word

namespace Sfz

open Text

def openReferences : List Char → Nat
  | [] => 0
  | c :: cs => (if c = '$' && cs.head?.any isWordChar then 1 else 0) + openReferences cs

namespace Setting

def finding (s : Setting) (p : Problem) : Finding :=
  ⟨p, s.position, some s.name⟩

def openReferences (s : Setting) : Nat :=
  Sfz.openReferences s.value.toList

def versionFindings (settings : Settings) (s : Setting) (e : Entry) : List Finding :=
  match settings.allowedVersions, e.version with
  | some allowed, some v =>
    if allowed.contains v then [] else [s.finding (.opcodeVersion v settings.versions)]
  | _, _ => []

/-- A value is not looked at while it has references to macros. -/
def findings (r : Registry) (settings : Settings) (s : Setting) : List Finding :=
  List.replicate s.openReferences (s.finding .undefinedMacro) ++
    match r.lookup s.name with
    | none => [s.finding .unknownOpcode]
    | some m =>
      s.versionFindings settings m.entry ++
        if 0 < s.openReferences then []
        else ((m.entry.check? s.value).map s.finding).toList

def namesFile (r : Registry) (s : Setting) : Bool :=
  s.openReferences == 0 && (r.lookup s.name).any (fun m => m.entry.type == .path)

end Setting

namespace Document

def sampleValue (d : Document) (id : Nat) (s : Setting) : String :=
  let start := (d.controlOf id).bind (fun c => c.get? "default_path")
  Sample.withDefault (start.map (·.value)) s.value

def sampleBase (settings : Settings) (s : Setting) : Path :=
  match settings.basePath with
  | some dir => dir
  | none => s.position.file.parent?.getD ⟨"."⟩

def sampleProblem? : Sample.Status → Option Problem
  | .found | .generated => none
  | .missing => some .fileNotFound
  | .caseMismatch actual => some (.caseMismatch actual)

def sampleFindings (t : FileTree) (settings : Settings) (d : Document) :
    Sample.Listings → List (Nat × Setting) → List Finding
  | _, [] => []
  | c, (id, s) :: rest =>
    if Sample.isGenerated s.value then sampleFindings t settings d c rest
    else
      let (status, c) := Sample.check t c (sampleBase settings s) (d.sampleValue id s)
      ((sampleProblem? status).map s.finding).toList ++ sampleFindings t settings d c rest

def checkSettings (d : Document) (r : Registry) (settings : Settings) : List Finding :=
  d.settings.flatMap (fun s => s.2.findings r settings)

def checkSamples (d : Document) (t : FileTree) (r : Registry) (settings : Settings) :
    List Finding :=
  sampleFindings t settings d .empty (d.settings.filter (fun s => s.2.namesFile r))

def check (d : Document) (t : FileTree) (r : Registry) (settings : Settings) : List Finding :=
  d.checkHeaders settings.allowedVersions settings.versions ++ d.checkDuplicates ++
    d.checkSettings r settings ++ d.checkCurves ++ d.checkRanges ++
    if settings.checkFiles then d.checkSamples t r settings else []

end Document

end Sfz
