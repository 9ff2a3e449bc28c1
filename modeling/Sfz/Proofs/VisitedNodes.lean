import Sfz.Proofs.FilePaths
import Sfz.Proofs.InclusionRun
import Sfz.Proofs.ScopeLinks

namespace Sfz

open Text

def Visit.node? : Visit → Option (Path × Node)
  | .node file n => some (file, n)
  | _ => none

def Visit.nodes (vs : List Visit) : List (Path × Node) :=
  vs.filterMap Visit.node?

def Node.header? : Path × Node → Option (HeaderKind × Position)
  | (file, .header kind span) => some (kind, ⟨file, span⟩)
  | _ => none

def MacroTable.setting (m : MacroTable) (name value : String) (p : Position) : Setting :=
  ⟨lowercase (m.expand name).text, (m.expand value).text, p⟩

def latest? : Nat → Option Nat
  | 0 => none
  | n + 1 => some n

def opcodes (m : MacroTable) (headers : Nat) : List (Path × Node) → List (Option Nat × Setting)
  | [] => []
  | (_, .header ..) :: ns => opcodes m (headers + 1) ns
  | (_, .define name value _) :: ns => opcodes (m.define name value) headers ns
  | (file, .opcode name value span) :: ns =>
    (latest? headers, m.setting name value ⟨file, span⟩) :: opcodes m headers ns
  | (_, .inclusion ..) :: ns => opcodes m headers ns

def attached (os : List (Option Nat × Setting)) : List (Nat × Setting) :=
  os.filterMap (fun o => o.1.map (fun id => (id, o.2)))

def detached (os : List (Option Nat × Setting)) : List Finding :=
  os.filterMap (fun o =>
    if o.1.isNone then some ⟨.opcodeOutsideHeader, o.2.position, some o.2.name⟩ else none)

def Finding.isOutside (f : Finding) : Bool :=
  f.isError && f.message == "opcode outside of header"

def Document.outline (d : Document) : List (HeaderKind × Position) :=
  d.headers.toList.map (fun h => (h.kind, h.position))

namespace Builder

theorem modify_length {α : Type} (xs : List α) (x : α) (f : α → α) :
    (xs ++ [x]).modify xs.length f = xs ++ [f x] := by
  induction xs with
  | nil => rfl
  | cons y xs ih => rw [List.cons_append, List.length_cons, List.modify_succ_cons, ih, List.cons_append]

theorem settings_openHeader (b : Builder) (kind : HeaderKind) (p : Position) :
    (b.openHeader kind p).document.settings = b.document.settings := by
  unfold Document.settings
  rw [headers_openHeader, Array.toList_push, List.zipIdx_append, List.flatMap_append]
  simp

theorem settings_assign (b : Builder) (s : Setting) {id : Nat} (hid : b.document.headers.size = id + 1) :
    (b.assign s).document.settings = b.document.settings ++ [(id, s)] := by
  have hne : b.document.headers.toList ≠ [] := by
    intro hnil
    have hlength := congrArg List.length hnil
    rw [Array.length_toList, hid] at hlength
    cases hlength
  obtain ⟨hs, h, hheaders⟩ := (List.eq_nil_or_concat b.document.headers.toList).resolve_left hne
  rw [List.concat_eq_append] at hheaders
  have hlength : hs.length = id := by
    have hsize := congrArg List.length hheaders
    rw [Array.length_toList, List.length_append, List.length_singleton] at hsize
    omega
  have hassign : (b.assign s).document.headers.toList = hs ++ [{ h with settings := h.settings.push s }] := by
    have hindex : b.document.headers.size - 1 = hs.length := by omega
    have hmodify : (b.assign s).document.headers = b.document.headers.modify (b.document.headers.size - 1)
      (fun h => { h with settings := h.settings.push s }) := rfl
    rw [hmodify, Array.toList_modify, hindex, hheaders, modify_length]
  unfold Document.settings
  rw [hassign, hheaders, List.zipIdx_append, List.zipIdx_append, List.flatMap_append, List.flatMap_append,
    hlength]
  simp

theorem map_assign {α : Type} {g : Header → α}
    (hg : ∀ (h : Header) (settings : Array Setting), g { h with settings := settings } = g h)
    (b : Builder) (s : Setting) :
    (b.assign s).document.headers.toList.map g = b.document.headers.toList.map g := by
  apply List.ext_getElem?
  intro i
  rw [List.getElem?_map, List.getElem?_map, Array.getElem?_toList, Array.getElem?_toList, headers_assign]
  split
  · rw [Option.map_map]
    congr 1
    funext h
    exact hg h _
  · rfl

end Builder

namespace Resolution

def found (s : Resolution) (file : Path) : Node → List Finding
  | .opcode name value span =>
    List.replicate (s.macros.expand name).undefined.length ⟨.undefinedMacro, ⟨file, span⟩, some name⟩ ++
      if s.builder.isOpen then []
      else [⟨.opcodeOutsideHeader, ⟨file, span⟩, some (s.macros.setting name value ⟨file, span⟩).name⟩]
  | _ => []

theorem foldl_push {α β : Type} (names : List α) (x : β) (fs : Array β) :
    names.foldl (fun fs _ => fs.push x) fs = fs ++ (List.replicate names.length x).toArray := by
  rw [List.foldl_push_eq_append, List.map_const']

theorem visit_findings (s : Resolution) (fs : Array Finding) (file : Path) (n : Node) :
    ({ s with findings := fs } : Resolution).visit file n =
      { s.visit file n with findings := fs ++ (s.found file n).toArray } := by
  cases n with
  | header kind span => simp [visit, found]
  | define name value span => simp [visit, found, define]
  | inclusion raw span => simp [visit, found]
  | opcode name value span =>
    simp only [visit, found, assign, report, foldl_push, MacroTable.setting]
    cases s.builder.isOpen with
    | true => simp
    | false =>
      simp only [Bool.false_eq_true, if_false, mk.injEq, and_true, true_and]
      apply Array.ext'
      simp only [Array.toList_append, Array.toList_push, List.append_assoc]

theorem toList_findings_visit (s : Resolution) (file : Path) (n : Node) :
    (s.visit file n).findings.toList = s.findings.toList ++ s.found file n := by
  have h := congrArg Resolution.findings (s.visit_findings s.findings file n)
  rw [show (⟨s.builder, s.findings, s.macros⟩ : Resolution) = s from rfl] at h
  rw [h, Array.toList_append]

theorem visit_opcode (s : Resolution) (file : Path) (name value : String) (span : Span) :
    (s.visit file (.opcode name value span)).macros = s.macros ∧
    (s.visit file (.opcode name value span)).builder =
      if s.builder.isOpen then s.builder.assign (s.macros.setting name value ⟨file, span⟩) else s.builder := by
  simp only [visit, assign, report, MacroTable.setting]
  cases s.builder.isOpen with
  | true => exact ⟨rfl, rfl⟩
  | false => exact ⟨rfl, rfl⟩

def opcodes (s : Resolution) (ns : List (Path × Node)) : List (Option Nat × Setting) :=
  Sfz.opcodes s.macros s.builder.document.headers.size ns

theorem opcodes_visit (s : Resolution) (file : Path) (n : Node) (ns : List (Path × Node)) :
    s.opcodes ((file, n) :: ns) = s.opcodes [(file, n)] ++ (s.visit file n).opcodes ns := by
  cases n with
  | header kind span =>
    have hsize : (s.visit file (.header kind span)).builder.document.headers.size =
      s.builder.document.headers.size + 1 := Array.size_push ..
    simp only [opcodes, hsize]
    rfl
  | define name value span => rfl
  | inclusion raw span => rfl
  | opcode name value span =>
    obtain ⟨hmacros, hbuilder⟩ := s.visit_opcode file name value span
    have hsize : (s.visit file (.opcode name value span)).builder.document.headers.size =
        s.builder.document.headers.size := by
      rw [hbuilder]
      split
      · exact Builder.size_assign _ _
      · rfl
    simp only [opcodes, hmacros, hsize]
    rfl

structure Absorbs (s : Resolution) (ns : List (Path × Node)) (s' : Resolution) : Prop where
  headers : s'.builder.document.outline = s.builder.document.outline ++ ns.filterMap Node.header?
  settings : s'.builder.document.settings = s.builder.document.settings ++ attached (s.opcodes ns)
  outside : s'.findings.toList.filter Finding.isOutside =
    s.findings.toList.filter Finding.isOutside ++ detached (s.opcodes ns)
  later : ∀ ms, s.opcodes (ns ++ ms) = s.opcodes ns ++ s'.opcodes ms

theorem absorbs_nil (s : Resolution) : s.Absorbs [] s := by
  refine ⟨?_, ?_, ?_, ?_⟩
  · exact (List.append_nil _).symm
  · exact (List.append_nil _).symm
  · exact (List.append_nil _).symm
  · intro ms
    rfl

theorem Absorbs.trans {s s' s'' : Resolution} {ns ms : List (Path × Node)} (h : s.Absorbs ns s')
    (h' : s'.Absorbs ms s'') : s.Absorbs (ns ++ ms) s'' := by
  refine ⟨?_, ?_, ?_, ?_⟩
  · rw [h'.headers, h.headers, List.filterMap_append, List.append_assoc]
  · rw [h'.settings, h.settings, h.later, attached, attached, attached, List.filterMap_append,
      List.append_assoc]
  · rw [h'.outside, h.outside, h.later, detached, detached, detached, List.filterMap_append,
      List.append_assoc]
  · intro ls
    rw [List.append_assoc, h.later, h'.later, h.later, List.append_assoc]

theorem isOutside_found (s : Resolution) (file : Path) (n : Node) :
    (s.found file n).filter Finding.isOutside = detached (s.opcodes [(file, n)]) := by
  cases n with
  | header kind span => rfl
  | define name value span => rfl
  | inclusion raw span => rfl
  | opcode name value span =>
    have hundefined : ((List.replicate (s.macros.expand name).undefined.length
        (⟨.undefinedMacro, ⟨file, span⟩, some name⟩ : Finding)).filter Finding.isOutside) = [] := by
      apply List.filter_eq_nil_iff.mpr
      intro f hf
      have hmessage : f.message = "undefined macro" := by
        rw [List.eq_of_mem_replicate hf]
        rfl
      rw [Finding.isOutside, hmessage]
      simp
    rw [found, List.filter_append, hundefined, List.nil_append, Builder.isOpen, opcodes, Sfz.opcodes]
    cases s.builder.document.headers.size with
    | zero => rfl
    | succ id => rfl

theorem absorbs_visit (s : Resolution) (file : Path) (n : Node) :
    s.Absorbs [(file, n)] (s.visit file n) := by
  refine ⟨?_, ?_, ?_, s.opcodes_visit file n⟩
  · cases n with
    | header kind span =>
      have hheaders : (s.visit file (.header kind span)).builder.document.headers.toList =
          s.builder.document.headers.toList ++ [⟨kind, ⟨file, span⟩, #[], s.builder.scope.parent kind,
            (s.builder.scope.enter s.builder.document.headers.size kind).control⟩] :=
        Array.toList_push ..
      rw [Document.outline, hheaders, List.map_append]
      rfl
    | define name value span => exact (List.append_nil _).symm
    | inclusion raw span => exact (List.append_nil _).symm
    | opcode name value span =>
      rw [(s.visit_opcode file name value span).2, Document.outline, Document.outline]
      split
      · rw [Builder.map_assign (fun _ _ => rfl)]
        exact (List.append_nil _).symm
      · exact (List.append_nil _).symm
  · cases n with
    | header kind span => exact (s.builder.settings_openHeader kind ⟨file, span⟩).trans (List.append_nil _).symm
    | define name value span => exact (List.append_nil _).symm
    | inclusion raw span => exact (List.append_nil _).symm
    | opcode name value span =>
      rw [(s.visit_opcode file name value span).2, Builder.isOpen, opcodes, Sfz.opcodes]
      cases hsize : s.builder.document.headers.size with
      | zero => simp [latest?, attached, Sfz.opcodes]
      | succ id =>
        rw [if_pos (by simp), Builder.settings_assign _ _ hsize]
        rfl
  · rw [toList_findings_visit, List.filter_append, isOutside_found]

end Resolution

theorem isOutside_refusal {t : FileTree} {chain : List FileKey} {macros : MacroTable} {base : Path}
    {raw : String} {problem : Problem} (h : openInclude t chain macros base raw = .error problem)
    (p : Position) : Finding.isOutside ⟨problem, p, none⟩ = false := by
  have hwords : ∀ {words rest : String} {c : Char}, c ∈ words.toList → c ∈ (words ++ rest).toList := by
    intro words rest c hc
    rw [String.toList_append]
    exact List.mem_append_left _ hc
  have hcolon : ':' ∉ "opcode outside of header".toList := by decide
  obtain ⟨c, hc, hout⟩ : ∃ c ∈ problem.message.toList, c ∉ "opcode outside of header".toList := by
    cases openInclude_eq_iff.mp h with
    | undefined => exact ⟨'$', hwords (by decide : '$' ∈ "undefined macro $".toList), by decide⟩
    | missing => exact ⟨':', hwords (by decide : ':' ∈ "include not found: ".toList), hcolon⟩
    | cycle => exact ⟨'y', hwords (by decide : 'y' ∈ "include cycle detected at ".toList), by decide⟩
    | @failed l e =>
      cases e with
      | unreadable file cause =>
        exact ⟨':', hwords (by simp : ':' ∈ ("cannot read " ++ file.text ++ ": ").toList), hcolon⟩
      | malformed file error => exact ⟨':', hwords (by simp), hcolon⟩
  have hmessage : (problem.message == "opcode outside of header") = false := by
    rw [beq_eq_false_iff_ne]
    intro heq
    rw [heq] at hc
    exact hout hc
  rw [Finding.isOutside, Finding.message, hmessage, Bool.and_false]

theorem Step.absorbs {t : FileTree} {p q : Point} {v : Visit} (h : Step t p v q) :
    p.state.Absorbs (Visit.nodes [v]) q.state := by
  cases h with
  | leave l file base outer s => exact s.absorbs_nil
  | enter l file base ns outer s span h => exact s.absorbs_nil
  | @node l file base ns outer s n hn => exact s.absorbs_visit file n
  | @refuse l file base ns outer s raw span problem h =>
    refine ⟨(List.append_nil _).symm, (List.append_nil _).symm, ?_, fun ms => rfl⟩
    rw [Resolution.report, Array.toList_push, List.filter_append, List.filter_singleton,
      isOutside_refusal h]
    rfl

theorem Run.absorbs {t : FileTree} {p q : Point} {vs : List Visit} (h : Run t p vs q) :
    p.state.Absorbs (Visit.nodes vs) q.state := by
  induction h with
  | refl p => exact p.state.absorbs_nil
  | @cons p q r v vs hs _ ih =>
    have hnodes : Visit.nodes (v :: vs) = Visit.nodes [v] ++ Visit.nodes vs :=
      List.filterMap_append (l := [v])
    rw [hnodes]
    exact hs.absorbs.trans ih

def FileTree.organ : FileTree :=
  .ofTexts [("organ.sfz", 1), ("pipes.sfz", 2)]
    ["tune=5\n#include \"pipes.sfz\"\nKEY=$low", "pan=0\n#define $low 36\n<region>"]
    ⟨by decide, by decide, by decide⟩

end Sfz
