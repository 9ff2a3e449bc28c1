import Sfz.Document.Builder
import Sfz.File.Canonical
import Sfz.Macro
import Sfz.Node.Parser
import Sfz.Text.Lowercase

/-!
Resolving an instrument: the nodes of the root file and of the files that it includes become one
document, with macros expanded. An included file stands in place of its directive. The keys of the files
that are open at a time form a chain without repetition, so nesting ends: a directive that names a file
with a key of the chain is refused.
-/

namespace Sfz

def FileTree.nodes (t : FileTree) (file : Path) : Except SourceError (List Node) :=
  match t.read file with
  | .error cause => .error (.unreadable file cause)
  | .ok text => (Node.parse text).mapError (SourceError.malformed file)

def Path.directory (p : Path) : Path :=
  p.parent?.getD ⟨"."⟩

structure Resolution where
  builder : Builder
  findings : Array Finding
  macros : MacroTable

namespace Resolution

def report (s : Resolution) (f : Finding) : Resolution :=
  { s with findings := s.findings.push f }

def define (s : Resolution) (name value : String) (pos : Position) : Resolution :=
  { s with
    macros := s.macros.define name value
    builder := s.builder.define ⟨name, value, pos⟩ }

def assign (s : Resolution) (raw value : String) (pos : Position) : Resolution :=
  let name := s.macros.expand raw
  let s := { s with
    findings := name.undefined.foldl (fun fs _ => fs.push ⟨.undefinedMacro, pos, some raw⟩) s.findings }
  let setting : Setting := ⟨Text.lowercase name.text, (s.macros.expand value).text, pos⟩
  if s.builder.isOpen then { s with builder := s.builder.assign setting }
  else s.report ⟨.opcodeOutsideHeader, pos, some setting.name⟩

end Resolution

structure Opened (chain : List FileKey) where
  file : Path
  key : FileKey
  nodes : List Node
  isShort : key.IsShort
  isNew : key ∉ chain

def openInclude (t : FileTree) (chain : List FileKey) (macros : MacroTable) (base : Path)
    (raw : String) : Except Problem (Opened chain) :=
  let expanded := macros.expand raw
  match expanded.undefined with
  | name :: _ => .error (.undefinedMacroInPath name)
  | [] =>
    let written := String.ofList (expanded.text.toList.map (fun c => if c = '\\' then '/' else c))
    let target := base.join ⟨written⟩
    match hf : t.locateFile? target with
    | none => .error (.includeNotFound written)
    | some _ =>
      if hc : t.key target ∈ chain then .error (.includeCycle written)
      else
        match t.nodes target with
        | .error e => .error (.includeFailed e)
        | .ok nodes => .ok ⟨target, t.key target, nodes, FileTree.isShort_key hf, hc⟩

def splice (t : FileTree) (chain : List FileKey) (file base : Path) :
    List Node → Resolution → Resolution
  | [], s => s
  | .header kind span :: rest, s =>
    splice t chain file base rest { s with builder := s.builder.openHeader kind ⟨file, span⟩ }
  | .define name value span :: rest, s =>
    splice t chain file base rest (s.define name value ⟨file, span⟩)
  | .opcode name value span :: rest, s =>
    splice t chain file base rest (s.assign name value ⟨file, span⟩)
  | .inclusion raw span :: rest, s =>
    match openInclude t chain s.macros base raw with
    | .error p => splice t chain file base rest (s.report ⟨p, ⟨file, span⟩, none⟩)
    | .ok o =>
      splice t chain file base rest
        (splice t (o.key :: chain) o.file o.file.directory o.nodes s)
termination_by nodes => (FileKey.outside chain, nodes.length)
decreasing_by
  all_goals first
    | (apply Prod.Lex.left; exact o.isShort.outside_cons_lt o.isNew)
    | (apply Prod.Lex.right; simp)

/-- The directives of the root file are resolved against the given directory, or else against the file's own.
-/
def FileTree.resolve (t : FileTree) (root : Path) (base : Option Path) (macros : MacroTable) :
    Except SourceError Resolution := do
  let nodes ← t.nodes root
  return splice t [t.key root] root (base.getD root.directory) nodes ⟨.empty root, #[], macros⟩

end Sfz
