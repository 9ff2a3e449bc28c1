import Sfz.Proofs.ErasedDirectives
import Sfz.Proofs.Splicing
import Sfz.Proofs.VisitedNodes

/-!
A directive that is refused leaves nothing behind but a finding, and one that is obeyed only adds to what is
known. Where files have canonical paths, an instrument with a refused directive resolves as it does with spaces in
the place of the directive.
-/

namespace Sfz

inductive FileTree.Refuses (t : FileTree) (chain : List FileKey) (macros : MacroTable) (base : Path)
    (raw : String) : Prop
  | undefined {name : String} (hu : name ∈ (macros.expand raw).undefined)
  | missing (hl : t.locateFile? (base.join ⟨macros.written raw⟩) = none)
  | cycle {l : Location} (hl : t.locateFile? (base.join ⟨macros.written raw⟩) = some l)
      (hc : t.key (base.join ⟨macros.written raw⟩) ∈ chain)
  | unreadable {cause : FileError} (hr : t.read (base.join ⟨macros.written raw⟩) = .error cause)
  | malformed {text : String} {e : SyntaxError} (hr : t.read (base.join ⟨macros.written raw⟩) = .ok text)
      (hp : Node.parse text = .error e)

theorem FileTree.refuses_iff {t : FileTree} {chain : List FileKey} {macros : MacroTable} {base : Path}
    {raw : String} : t.Refuses chain macros base raw ↔
      ∃ problem, openInclude t chain macros base raw = .error problem := by
  constructor
  · intro h
    cases hopen : openInclude t chain macros base raw with
    | error problem => exact ⟨problem, rfl⟩
    | ok o =>
      cases openInclude_eq_iff.mp hopen with
      | opened hu hf hl hk hn =>
        rw [hf] at hl hk hn
        obtain ⟨text, hread, hparse⟩ := nodes_eq_ok.mp hn
        cases h with
        | undefined hname => simp [hu] at hname
        | missing hnone => simp [hl] at hnone
        | cycle hl' hc => exact absurd (hk ▸ hc) o.isNew
        | unreadable hr => simp [hread] at hr
        | malformed hr hp =>
          obtain rfl := Except.ok.inj (hread.symm.trans hr)
          simp [hparse] at hp
  · rintro ⟨problem, hopen⟩
    cases openInclude_eq_iff.mp hopen with
    | undefined hu => exact .undefined (by rw [hu]; exact List.mem_cons_self ..)
    | missing hu hl => exact .missing hl
    | cycle hu hl hc => exact .cycle hl hc
    | failed hu hl hc hn =>
      cases hread : t.read (base.join ⟨macros.written raw⟩) with
      | error cause => exact .unreadable hread
      | ok text =>
        cases hparse : Node.parse text with
        | error e => exact .malformed hread hparse
        | ok ns =>
          have hok := nodes_eq_ok.mpr ⟨text, hread, hparse⟩
          rw [hn] at hok
          cases hok

structure Finding.Refusal (f : Finding) (p : Position) : Prop where
  severity : f.severity = .error
  opcode : f.opcode = none
  position : f.position = p

theorem refusal_of_openInclude {t : FileTree} {chain : List FileKey} {macros : MacroTable} {base : Path}
    {raw : String} {problem : Problem} (h : openInclude t chain macros base raw = .error problem)
    (p : Position) : Finding.Refusal ⟨problem, p, none⟩ p := by
  refine ⟨?_, rfl, rfl⟩
  cases openInclude_eq_iff.mp h with
  | undefined => rfl
  | missing => rfl
  | cycle => rfl
  | failed => rfl

def Header.bare (h : Header) : Header :=
  { h with settings := #[] }

namespace Resolution

structure Extends (s s' : Resolution) : Prop where
  findings : s.findings.toList <+: s'.findings.toList
  headers : s.builder.document.headers.toList.map Header.bare <+: s'.builder.document.headers.toList.map Header.bare
  definitions : s.builder.document.definitions.toList <+: s'.builder.document.definitions.toList
  macros : s.macros.definitions <:+ s'.macros.definitions

namespace Extends

variable {s s' s'' : Resolution}

theorem refl (s : Resolution) : s.Extends s :=
  ⟨List.prefix_rfl, List.prefix_rfl, List.prefix_rfl, List.suffix_rfl⟩

theorem trans (h : s.Extends s') (h' : s'.Extends s'') : s.Extends s'' :=
  ⟨h.findings.trans h'.findings, h.headers.trans h'.headers, h.definitions.trans h'.definitions,
    h.macros.trans h'.macros⟩

theorem report (s : Resolution) (f : Finding) : s.Extends (s.report f) := by
  refine ⟨?_, List.prefix_rfl, List.prefix_rfl, List.suffix_rfl⟩
  rw [Resolution.report, Array.toList_push]
  exact List.prefix_append ..

theorem visit (s : Resolution) (file : Path) (n : Node) : s.Extends (s.visit file n) := by
  have hfindings : s.findings.toList <+: (s.visit file n).findings.toList := by
    rw [toList_findings_visit]
    exact List.prefix_append ..
  cases n with
  | header kind span =>
    refine ⟨hfindings, ?_, List.prefix_rfl, List.suffix_rfl⟩
    rw [Resolution.visit, Builder.headers_openHeader, Array.toList_push, List.map_append]
    exact List.prefix_append ..
  | define name value span =>
    refine ⟨hfindings, List.prefix_rfl, ?_, List.suffix_cons ..⟩
    rw [Resolution.visit, Resolution.define, Builder.define, Array.toList_push]
    exact List.prefix_append ..
  | inclusion raw span => exact refl s
  | opcode name value span =>
    obtain ⟨hmacros, hbuilder⟩ := s.visit_opcode file name value span
    refine ⟨hfindings, ?_, ?_, ?_⟩
    · rw [hbuilder]
      split
      · rw [Builder.map_assign (fun _ _ => rfl)]
      · exact List.prefix_rfl
    · rw [hbuilder]
      split
      · exact List.prefix_rfl
      · exact List.prefix_rfl
    · rw [hmacros]

theorem splice (t : FileTree) (chain : List FileKey) (file base : Path) (ns : List Node) (s : Resolution) :
    s.Extends (Sfz.splice t chain file base ns s) := by
  induction chain, file, base, ns, s using splice_induction (t := t) with
  | nil chain file base s =>
    rw [splice_nil]
    exact refl s
  | visit chain file base n ns s hn ih =>
    rw [splice_visit _ _ _ _ hn]
    exact (visit s file n).trans ih
  | refuse chain file base raw span ns s problem h ih =>
    rw [splice_refuse _ _ _ _ h]
    exact (report s _).trans ih
  | enter chain file base raw span ns s o h ih ih' =>
    rw [splice_enter _ _ _ _ h]
    exact ih.trans ih'

end Extends

end Resolution

theorem splice_findings (t : FileTree) (chain : List FileKey) (file base : Path) (ns : List Node)
    (s : Resolution) : ∃ new : Array Finding, ∀ fs, splice t chain file base ns { s with findings := fs } =
      { splice t chain file base ns s with findings := fs ++ new } := by
  induction chain, file, base, ns, s using splice_induction (t := t) with
  | nil chain file base s =>
    refine ⟨#[], fun fs => ?_⟩
    rw [splice_nil, splice_nil, Array.append_empty]
  | visit chain file base n ns s hn ih =>
    obtain ⟨new, hnew⟩ := ih
    refine ⟨(s.found file n).toArray ++ new, fun fs => ?_⟩
    rw [splice_visit _ _ _ _ hn, splice_visit _ _ _ _ hn, Resolution.visit_findings, hnew, Array.append_assoc]
  | refuse chain file base raw span ns s problem h ih =>
    obtain ⟨new, hnew⟩ := ih
    refine ⟨#[⟨problem, ⟨file, span⟩, none⟩] ++ new, fun fs => ?_⟩
    have h' : openInclude t chain ({ s with findings := fs } : Resolution).macros base raw = .error problem := h
    have hreport : ({ s with findings := fs } : Resolution).report ⟨problem, ⟨file, span⟩, none⟩ =
        { s.report ⟨problem, ⟨file, span⟩, none⟩ with findings := fs ++ #[⟨problem, ⟨file, span⟩, none⟩] } := by
      rw [Resolution.report, Resolution.report, Array.push_eq_append]
    rw [splice_refuse _ _ _ _ h', splice_refuse _ _ _ _ h, hreport, hnew, Array.append_assoc]
  | enter chain file base raw span ns s o h ih ih' =>
    obtain ⟨new, hnew⟩ := ih
    obtain ⟨new', hnew'⟩ := ih'
    refine ⟨new ++ new', fun fs => ?_⟩
    have h' : openInclude t chain ({ s with findings := fs } : Resolution).macros base raw = .ok o := h
    rw [splice_enter _ _ _ _ h', splice_enter _ _ _ _ h, hnew, hnew', Array.append_assoc]

theorem splice_eq_of_findings {t t' : FileTree} {chain : List FileKey} {file base : Path} {ns : List Node}
    {s : Resolution} {fs : Array Finding} (h : splice t' chain file base ns { s with findings := fs } =
      splice t chain file base ns { s with findings := fs }) :
    splice t' chain file base ns s = splice t chain file base ns s := by
  obtain ⟨new, hnew⟩ := splice_findings t chain file base ns s
  obtain ⟨new', hnew'⟩ := splice_findings t' chain file base ns s
  rw [hnew, hnew', Resolution.mk.injEq] at h
  obtain ⟨hbuilder, hfindings, hmacros⟩ := h
  obtain rfl : new' = new := (Array.append_right_inj fs).mp hfindings
  rw [show splice t' chain file base ns s = _ from hnew' s.findings,
    show splice t chain file base ns s = _ from hnew s.findings]
  dsimp only
  rw [hbuilder, hmacros]

section Directive

variable {t : FileTree} {chain : List FileKey} {base : Path} {raw : String} {s : Resolution}

theorem splice_refuses (h : t.Refuses chain s.macros base raw) (file : Path) (span : Span) :
    ∃ f : Finding, f.Refusal ⟨file, span⟩ ∧ ∀ ns, splice t chain file base (.inclusion raw span :: ns) s =
      splice t chain file base ns (s.report f) := by
  obtain ⟨problem, hopen⟩ := FileTree.refuses_iff.mp h
  exact ⟨_, refusal_of_openInclude hopen ⟨file, span⟩, fun ns => splice_refuse _ _ _ _ hopen ns⟩

theorem splice_obeys (h : ¬t.Refuses chain s.macros base raw) (file : Path) (span : Span) :
    ∃ ns, t.isFile (base.join ⟨s.macros.written raw⟩) = true ∧ t.key (base.join ⟨s.macros.written raw⟩) ∉ chain ∧
      t.nodes (base.join ⟨s.macros.written raw⟩) = .ok ns ∧
      splice t chain file base [.inclusion raw span] s = splice t (t.key (base.join ⟨s.macros.written raw⟩) :: chain)
        (base.join ⟨s.macros.written raw⟩) (base.join ⟨s.macros.written raw⟩).directory ns s := by
  cases hopen : openInclude t chain s.macros base raw with
  | error problem => exact absurd (FileTree.refuses_iff.mpr ⟨problem, hopen⟩) h
  | ok o =>
    cases openInclude_eq_iff.mp hopen with
    | opened hu hf hl hk hn =>
      rw [splice_enter _ _ _ _ hopen, splice_nil, ← hf, ← hk, FileTree.isFile, hl]
      exact ⟨o.nodes, rfl, o.isNew, hn, rfl⟩

theorem splice_without_refused (h : t.Refuses chain s.macros base raw) (file : Path) (span : Span)
    (ns : List Node) : ∃ f late, f.Refusal ⟨file, span⟩ ∧
      splice t chain file base (.inclusion raw span :: ns) s =
        { splice t chain file base ns s with findings := s.findings.push f ++ late } ∧
      (splice t chain file base ns s).findings = s.findings ++ late := by
  obtain ⟨f, hf, hsplice⟩ := splice_refuses h file span
  obtain ⟨late, hlate⟩ := splice_findings t chain file base ns s
  refine ⟨f, late, hf, (hsplice ns).trans (hlate (s.findings.push f)), ?_⟩
  exact congrArg Resolution.findings (hlate s.findings)

end Directive

theorem FileTree.Guards.splice_without {t : FileTree} {root : Path} {l : Location} (h : t.Guards root l)
    {rel : Option Path} {macros : MacroTable} {before after : List Node} {raw : String} {span : Span}
    (hfiles : (Point.start t root rel macros (before ++ .inclusion raw span :: after)).Canonical t)
    (hrefuses : t.Refuses [t.key root] (splice t [t.key root] root (rel.getD root.directory) before
      ⟨.empty root, #[], macros⟩).macros (rel.getD root.directory) raw) (text : Option String) :
    splice (t.setText l text) [t.key root] root (rel.getD root.directory) (before ++ after)
        ⟨.empty root, #[], macros⟩ =
      splice t [t.key root] root (rel.getD root.directory) (before ++ after) ⟨.empty root, #[], macros⟩ := by
  have hmem : t.key root ∈ t.key root :: ([] : List Frame).map Frame.key := List.mem_cons_self ..
  obtain ⟨vs, hrun⟩ := run_nodes t [] (t.key root) root (rel.getD root.directory) before
    (.inclusion raw span :: after) ⟨.empty root, #[], macros⟩
  obtain ⟨f, -, hsplice⟩ := splice_refuses hrefuses root span
  obtain ⟨ws, hrun'⟩ := run_nodes t [] (t.key root) root (rel.getD root.directory) [.inclusion raw span] after
    (splice t [t.key root] root (rel.getD root.directory) before ⟨.empty root, #[], macros⟩)
  rw [List.map_nil, hsplice [], splice_nil] at hrun'
  -- the nodes after the directive are reached with its finding, which they do not depend on
  have hafter := (hfiles.run hrun).run hrun'
  rw [← List.append_nil after] at hafter
  rw [splice_append, splice_append, show splice (t.setText l text) [t.key root] root _ before _ = _ from
    h.splice_setText text hmem hfiles]
  exact splice_eq_of_findings (h.splice_setText text hmem hafter)

def FileTree.quartet : FileTree :=
  .ofTexts [("quartet.sfz", 1), ("cello.sfz", 2), ("viola.sfz", 3)]
    ["#include \"viola.sfz\"\n/* low */ #include \"$part.sfz\" // bow\nkey=36", "<region>\n<bow>", "<region>"]
    ⟨by decide, by decide, by decide⟩

end Sfz
