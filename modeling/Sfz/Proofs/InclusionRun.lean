import Sfz.Inclusion

namespace Sfz

def MacroTable.written (macros : MacroTable) (raw : String) : String :=
  String.ofList ((macros.expand raw).text.toList.map (fun c => if c = '\\' then '/' else c))

inductive Opening (t : FileTree) (chain : List FileKey) (macros : MacroTable) (base : Path)
    (raw : String) : Except Problem (Opened chain) → Prop
  | undefined {name : String} {names : List String} (hu : (macros.expand raw).undefined = name :: names) :
      Opening t chain macros base raw (.error (.undefinedMacroInPath name))
  | missing (hu : (macros.expand raw).undefined = [])
      (hl : t.locateFile? (base.join ⟨macros.written raw⟩) = none) :
      Opening t chain macros base raw (.error (.includeNotFound (macros.written raw)))
  | cycle {l : Location} (hu : (macros.expand raw).undefined = [])
      (hl : t.locateFile? (base.join ⟨macros.written raw⟩) = some l)
      (hc : t.key (base.join ⟨macros.written raw⟩) ∈ chain) :
      Opening t chain macros base raw (.error (.includeCycle (macros.written raw)))
  | failed {l : Location} {e : SourceError} (hu : (macros.expand raw).undefined = [])
      (hl : t.locateFile? (base.join ⟨macros.written raw⟩) = some l)
      (hc : t.key (base.join ⟨macros.written raw⟩) ∉ chain)
      (hn : t.nodes (base.join ⟨macros.written raw⟩) = .error e) :
      Opening t chain macros base raw (.error (.includeFailed e))
  | opened {l : Location} {o : Opened chain} (hu : (macros.expand raw).undefined = [])
      (hf : o.file = base.join ⟨macros.written raw⟩) (hl : t.locateFile? o.file = some l)
      (hk : o.key = t.key o.file) (hn : t.nodes o.file = .ok o.nodes) :
      Opening t chain macros base raw (.ok o)

theorem opening_openInclude (t : FileTree) (chain : List FileKey) (macros : MacroTable) (base : Path)
    (raw : String) : Opening t chain macros base raw (openInclude t chain macros base raw) := by
  unfold openInclude
  dsimp only
  split
  next name names hu => exact .undefined hu
  next hu =>
    split
    next hl => exact .missing hu hl
    next l hl =>
      split
      next hc => exact .cycle hu hl hc
      next hc =>
        split
        next e hn =>
          refine .failed hu hl hc ?_
          rw [MacroTable.written]
          exact hn
        next nodes hn =>
          apply Opening.opened hu
          · rw [MacroTable.written]
          · dsimp only
            exact hl
          · dsimp only
          · dsimp only
            exact hn

theorem Opening.unique {t : FileTree} {chain : List FileKey} {macros : MacroTable} {base : Path} {raw : String}
    {r r' : Except Problem (Opened chain)} (h : Opening t chain macros base raw r)
    (h' : Opening t chain macros base raw r') : r = r' := by
  cases h with
  | undefined hu =>
    cases h' with
    | undefined hu' => rw [(List.cons.inj (hu.symm.trans hu')).1]
    | missing hu' | cycle hu' | failed hu' | opened hu' => rw [hu] at hu'; cases hu'
  | missing hu hl =>
    cases h' with
    | undefined hu' => rw [hu] at hu'; cases hu'
    | missing => rfl
    | cycle _ hl' | failed _ hl' => rw [hl] at hl'; cases hl'
    | opened _ hf' hl' => rw [hf', hl] at hl'; cases hl'
  | cycle hu hl hc =>
    cases h' with
    | undefined hu' => rw [hu] at hu'; cases hu'
    | missing _ hl' => rw [hl] at hl'; cases hl'
    | cycle => rfl
    | failed _ _ hc' => exact absurd hc hc'
    | @opened _ o _ hf' _ hk' =>
      rw [← hf', ← hk'] at hc
      exact absurd hc o.isNew
  | failed hu hl hc hn =>
    cases h' with
    | undefined hu' => rw [hu] at hu'; cases hu'
    | missing _ hl' => rw [hl] at hl'; cases hl'
    | cycle _ _ hc' => exact absurd hc' hc
    | failed _ _ _ hn' => rw [Except.error.inj (hn.symm.trans hn')]
    | opened _ hf' _ _ hn' => rw [hf', hn] at hn'; cases hn'
  | @opened _ o hu hf hl hk hn =>
    cases h' with
    | undefined hu' => rw [hu] at hu'; cases hu'
    | missing _ hl' => rw [hf, hl'] at hl; cases hl
    | cycle _ _ hc' =>
      rw [← hf, ← hk] at hc'
      exact absurd hc' o.isNew
    | failed _ _ _ hn' => rw [hf, hn'] at hn; cases hn
    | @opened _ o' _ hf' _ hk' hn' =>
      have hfile : o.file = o'.file := hf.trans hf'.symm
      have hkey : o.key = o'.key := by rw [hk, hk', hfile]
      have hnodes : o.nodes = o'.nodes := by
        rw [hfile] at hn
        exact Except.ok.inj (hn.symm.trans hn')
      cases o
      cases o'
      congr

theorem openInclude_eq_iff {t : FileTree} {chain : List FileKey} {macros : MacroTable} {base : Path}
    {raw : String} {r : Except Problem (Opened chain)} :
    openInclude t chain macros base raw = r ↔ Opening t chain macros base raw r := by
  constructor
  · rintro rfl
    exact opening_openInclude t chain macros base raw
  · exact (opening_openInclude t chain macros base raw).unique

theorem openInclude_eq_ok {t : FileTree} {chain : List FileKey} {macros : MacroTable} {base : Path}
    {raw : String} {l : Location} {nodes : List Node} (hu : (macros.expand raw).undefined = [])
    (hl : t.locateFile? (base.join ⟨macros.written raw⟩) = some l)
    (hc : t.key (base.join ⟨macros.written raw⟩) ∉ chain)
    (hn : t.nodes (base.join ⟨macros.written raw⟩) = .ok nodes) :
    openInclude t chain macros base raw = .ok ⟨base.join ⟨macros.written raw⟩,
      t.key (base.join ⟨macros.written raw⟩), nodes, FileTree.isShort_key hl, hc⟩ := by
  apply openInclude_eq_iff.mpr
  apply Opening.opened hu
  · dsimp only
  · dsimp only
    exact hl
  · dsimp only
  · dsimp only
    exact hn

section Expanded

variable {t : FileTree} {macros : MacroTable} {base file : Path} {raw text : String}
  (he : macros.expand raw = ⟨text, []⟩)
  (hj : base.join ⟨String.ofList (text.toList.map (fun c => if c = '\\' then '/' else c))⟩ = file)

include he hj

theorem openInclude_of_expand {chain : List FileKey} {l : Location} {ns : List Node}
    (hl : t.locateFile? file = some l) (hc : t.key file ∉ chain) (hn : t.nodes file = .ok ns) :
    openInclude t chain macros base raw = .ok ⟨file, t.key file, ns, FileTree.isShort_key hl, hc⟩ := by
  have hfile : base.join ⟨macros.written raw⟩ = file := by rw [MacroTable.written, he, hj]
  have hu : (macros.expand raw).undefined = [] := by rw [he]
  exact openInclude_eq_iff.mpr (.opened hu hfile.symm hl rfl hn)

theorem openInclude_missing_of_expand (hl : t.locateFile? file = none) (chain : List FileKey) :
    openInclude t chain macros base raw = .error (.includeNotFound (macros.written raw)) := by
  have hfile : base.join ⟨macros.written raw⟩ = file := by rw [MacroTable.written, he, hj]
  have hu : (macros.expand raw).undefined = [] := by rw [he]
  exact openInclude_eq_iff.mpr (.missing hu (by rw [hfile, hl]))

end Expanded

def Node.isInclusion : Node → Bool
  | .inclusion .. => true
  | _ => false

def Resolution.visit (s : Resolution) (file : Path) : Node → Resolution
  | .header kind span => { s with builder := s.builder.openHeader kind ⟨file, span⟩ }
  | .define name value span => s.define name value ⟨file, span⟩
  | .opcode name value span => s.assign name value ⟨file, span⟩
  | .inclusion .. => s

section Splice

variable (t : FileTree) (chain : List FileKey) (file base : Path)

theorem splice_nil (s : Resolution) : splice t chain file base [] s = s := by
  rw [splice]

theorem splice_visit {n : Node} (hn : n.isInclusion = false) (ns : List Node) (s : Resolution) :
    splice t chain file base (n :: ns) s = splice t chain file base ns (s.visit file n) := by
  cases n with
  | header kind span => rw [splice, Resolution.visit]
  | opcode name value span => rw [splice, Resolution.visit]
  | define name value span => rw [splice, Resolution.visit]
  | inclusion raw span => simp [Node.isInclusion] at hn

theorem splice_refuse {raw : String} {span : Span} {problem : Problem} {s : Resolution}
    (h : openInclude t chain s.macros base raw = .error problem) (ns : List Node) :
    splice t chain file base (.inclusion raw span :: ns) s =
      splice t chain file base ns (s.report ⟨problem, ⟨file, span⟩, none⟩) := by
  rw [splice, h]

theorem splice_enter {raw : String} {span : Span} {o : Opened chain} {s : Resolution}
    (h : openInclude t chain s.macros base raw = .ok o) (ns : List Node) :
    splice t chain file base (.inclusion raw span :: ns) s =
      splice t chain file base ns
        (splice t (o.key :: chain) o.file o.file.directory o.nodes s) := by
  rw [splice, h]

theorem splice_append (as bs : List Node) (s : Resolution) :
    splice t chain file base (as ++ bs) s =
      splice t chain file base bs (splice t chain file base as s) := by
  induction as generalizing s with
  | nil => rw [List.nil_append, splice_nil]
  | cons n as ih =>
    rw [List.cons_append]
    cases hn : n.isInclusion with
    | false => rw [splice_visit t chain file base hn, ih, splice_visit t chain file base hn]
    | true =>
      obtain ⟨raw, span, rfl⟩ : ∃ raw span, n = .inclusion raw span := by
        cases n with
        | inclusion raw span => exact ⟨raw, span, rfl⟩
        | _ => simp [Node.isInclusion] at hn
      cases h : openInclude t chain s.macros base raw with
      | error problem => rw [splice_refuse t chain file base h, ih, splice_refuse t chain file base h]
      | ok o => rw [splice_enter t chain file base h, ih, splice_enter t chain file base h]

theorem splice_eq_foldl_visit {ns : List Node} (h : ∀ n ∈ ns, n.isInclusion = false) (s : Resolution) :
    splice t chain file base ns s = ns.foldl (fun s n => s.visit file n) s := by
  induction ns generalizing s with
  | nil => exact splice_nil t chain file base s
  | cons n ns ih =>
    rw [splice_visit t chain file base (h n (List.mem_cons_self ..)),
      ih (fun m hm => h m (List.mem_cons_of_mem n hm)), List.foldl_cons]

end Splice

theorem FileTree.resolve_eq (t : FileTree) (root : Path) (rel : Option Path) (macros : MacroTable) :
    t.resolve root rel macros = (t.nodes root).map
      (fun nodes => splice t [t.key root] root (rel.getD root.directory) nodes ⟨.empty root, #[], macros⟩) :=
  rfl

/-- Induction along the nodes that splicing works through: a node by itself, a directive that is refused,
and a directive whose file is worked through first. -/
@[elab_as_elim]
theorem splice_induction {t : FileTree}
    {motive : List FileKey → Path → Path → List Node → Resolution → Prop}
    (nil : ∀ chain file base s, motive chain file base [] s)
    (visit : ∀ chain file base n ns s, n.isInclusion = false →
      motive chain file base ns (s.visit file n) → motive chain file base (n :: ns) s)
    (refuse : ∀ chain file base raw span ns s problem,
      openInclude t chain s.macros base raw = .error problem →
      motive chain file base ns (s.report ⟨problem, ⟨file, span⟩, none⟩) →
      motive chain file base (.inclusion raw span :: ns) s)
    (enter : ∀ chain file base raw span ns s (o : Opened chain),
      openInclude t chain s.macros base raw = .ok o →
      motive (o.key :: chain) o.file o.file.directory o.nodes s →
      motive chain file base ns (splice t (o.key :: chain) o.file o.file.directory o.nodes s) →
      motive chain file base (.inclusion raw span :: ns) s)
    (chain : List FileKey) (file base : Path) (ns : List Node) (s : Resolution) :
    motive chain file base ns s := by
  induction chain, file, base, ns, s using splice.induct t with
  | case1 chain file base s => exact nil chain file base s
  | case2 chain file base kind span ns s ih => exact visit _ _ _ (.header kind span) _ _ rfl ih
  | case3 chain file base name value span ns s ih =>
    exact visit _ _ _ (.define name value span) _ _ rfl ih
  | case4 chain file base name value span ns s ih =>
    exact visit _ _ _ (.opcode name value span) _ _ rfl ih
  | case5 chain file base raw span ns s problem h ih => exact refuse _ _ _ _ _ _ _ _ h ih
  | case6 chain file base raw span ns s o h ih ih' => exact enter _ _ _ _ _ _ _ _ h ih ih'

structure Frame where
  key : FileKey
  file : Path
  base : Path
  nodes : List Node

structure Point where
  frames : List Frame
  state : Resolution

def Point.chain (p : Point) : List FileKey :=
  p.frames.map Frame.key

def Point.start (t : FileTree) (root : Path) (rel : Option Path) (macros : MacroTable)
    (nodes : List Node) : Point :=
  ⟨[⟨t.key root, root, rel.getD root.directory, nodes⟩], ⟨.empty root, #[], macros⟩⟩

inductive Visit
  | node (file : Path) (n : Node)
  | refuse (file : Path) (span : Span) (problem : Problem)
  | enter (key : FileKey) (file : Path)
  | leave

inductive Step (t : FileTree) : Point → Visit → Point → Prop
  | leave (key : FileKey) (file base : Path) (outer : List Frame) (s : Resolution) :
      Step t ⟨⟨key, file, base, []⟩ :: outer, s⟩ .leave ⟨outer, s⟩
  | node (key : FileKey) (file base : Path) (ns : List Node) (outer : List Frame) (s : Resolution)
      {n : Node} (hn : n.isInclusion = false) :
      Step t ⟨⟨key, file, base, n :: ns⟩ :: outer, s⟩ (.node file n)
        ⟨⟨key, file, base, ns⟩ :: outer, s.visit file n⟩
  | refuse (key : FileKey) (file base : Path) (ns : List Node) (outer : List Frame) (s : Resolution)
      {raw : String} (span : Span) {problem : Problem}
      (h : openInclude t (key :: outer.map Frame.key) s.macros base raw = .error problem) :
      Step t ⟨⟨key, file, base, .inclusion raw span :: ns⟩ :: outer, s⟩ (.refuse file span problem)
        ⟨⟨key, file, base, ns⟩ :: outer, s.report ⟨problem, ⟨file, span⟩, none⟩⟩
  | enter (key : FileKey) (file base : Path) (ns : List Node) (outer : List Frame) (s : Resolution)
      {raw : String} (span : Span) {o : Opened (key :: outer.map Frame.key)}
      (h : openInclude t (key :: outer.map Frame.key) s.macros base raw = .ok o) :
      Step t ⟨⟨key, file, base, .inclusion raw span :: ns⟩ :: outer, s⟩ (.enter o.key o.file)
        ⟨⟨o.key, o.file, o.file.directory, o.nodes⟩ :: ⟨key, file, base, ns⟩ :: outer, s⟩

theorem Step.deterministic {t : FileTree} {p q q' : Point} {v v' : Visit} (h : Step t p v q)
    (h' : Step t p v' q') : v = v' ∧ q = q' := by
  cases h with
  | leave => cases h'; exact ⟨rfl, rfl⟩
  | node key file base ns outer s hn =>
    cases h' with
    | node => exact ⟨rfl, rfl⟩
    | refuse => simp [Node.isInclusion] at hn
    | enter => simp [Node.isInclusion] at hn
  | refuse key file base ns outer s span h =>
    cases h' with
    | node _ _ _ _ _ _ hn => simp [Node.isInclusion] at hn
    | refuse _ _ _ _ _ _ _ h' =>
      obtain rfl := Except.error.inj (h.symm.trans h')
      exact ⟨rfl, rfl⟩
    | enter _ _ _ _ _ _ _ h' => exact absurd (h.symm.trans h') nofun
  | enter key file base ns outer s span h =>
    cases h' with
    | node _ _ _ _ _ _ hn => simp [Node.isInclusion] at hn
    | refuse _ _ _ _ _ _ _ h' => exact absurd (h.symm.trans h') nofun
    | enter _ _ _ _ _ _ _ h' =>
      obtain rfl := Except.ok.inj (h.symm.trans h')
      exact ⟨rfl, rfl⟩

inductive Run (t : FileTree) : Point → List Visit → Point → Prop
  | refl (p : Point) : Run t p [] p
  | cons {p q r : Point} {v : Visit} {vs : List Visit} (h : Step t p v q) (hr : Run t q vs r) :
      Run t p (v :: vs) r

namespace Run

variable {t : FileTree} {p q r : Point} {v : Visit} {vs ws : List Visit}

theorem one (h : Step t p v q) : Run t p [v] q :=
  .cons h (.refl q)

theorem trans (h : Run t p vs q) (h' : Run t q ws r) : Run t p (vs ++ ws) r := by
  induction h with
  | refl => exact h'
  | cons hs _ ih => exact .cons hs (ih h')

theorem invariant {I : Point → Prop} (hstep : ∀ p v q, I p → Step t p v q → I q)
    (h : Run t p vs q) (hp : I p) : I q := by
  induction h with
  | refl => exact hp
  | cons hs _ ih => exact ih (hstep _ _ _ hp hs)

/-- A run is the beginning of every run from the same point that has come to an end. -/
theorem of_final {s : Resolution} (h : Run t p ws q) (hf : Run t p vs ⟨[], s⟩) :
    ∃ us, ws ++ us = vs ∧ Run t q us ⟨[], s⟩ := by
  induction h generalizing vs with
  | refl => exact ⟨vs, rfl, hf⟩
  | cons hs _ ih =>
    cases hf with
    | refl => cases hs
    | cons hs' hf =>
      obtain ⟨rfl, rfl⟩ := hs.deterministic hs'
      obtain ⟨us, rfl, hu⟩ := ih hf
      exact ⟨us, rfl, hu⟩

theorem final_unique {s s' : Resolution} (h : Run t p ws ⟨[], s'⟩) (hf : Run t p vs ⟨[], s⟩) :
    ws = vs ∧ s' = s := by
  obtain ⟨us, rfl, hu⟩ := h.of_final hf
  cases hu with
  | refl => exact ⟨(List.append_nil ws).symm, rfl⟩
  | cons hs => cases hs

end Run

def Point.Canonical (t : FileTree) (p : Point) : Prop :=
  ∀ vs q key file, Run t p (vs ++ [.enter key file]) q → (t.canonical? file).isSome = true

theorem Point.Canonical.run {t : FileTree} {p q : Point} {vs : List Visit} (h : p.Canonical t)
    (hr : Run t p vs q) : q.Canonical t := by
  intro ws r key file hr'
  apply h (vs ++ ws) r key file
  rw [List.append_assoc]
  exact hr.trans hr'

theorem Point.Canonical.of_final {t : FileTree} {p : Point} {vs : List Visit} {s : Resolution}
    (hr : Run t p vs ⟨[], s⟩) (h : ∀ key file, .enter key file ∈ vs → (t.canonical? file).isSome = true) :
    p.Canonical t := by
  intro ws q key file hq
  obtain ⟨us, rfl, -⟩ := hq.of_final hr
  exact h key file (by simp)

theorem Point.Canonical.step {t : FileTree} {p q : Point} {v : Visit} (h : p.Canonical t) (hs : Step t p v q) :
    q.Canonical t :=
  h.run (.one hs)

theorem run_nodes (t : FileTree) (outer : List Frame) (key : FileKey) (file base : Path) (ns rest : List Node)
    (s : Resolution) : ∃ vs, Run t ⟨⟨key, file, base, ns ++ rest⟩ :: outer, s⟩ vs
      ⟨⟨key, file, base, rest⟩ :: outer, splice t (key :: outer.map Frame.key) file base ns s⟩ := by
  generalize hc : key :: outer.map Frame.key = chain
  induction chain, file, base, ns, s using splice_induction (t := t) generalizing key outer rest with
  | nil chain file base s =>
    rw [splice_nil]
    exact ⟨[], .refl _⟩
  | visit chain file base n ns s hn ih =>
    obtain ⟨vs, hr⟩ := ih outer key rest hc
    rw [splice_visit _ _ _ _ hn]
    exact ⟨_, .cons (.node key file base (ns ++ rest) outer s hn) hr⟩
  | refuse chain file base raw span ns s problem h ih =>
    obtain ⟨vs, hr⟩ := ih outer key rest hc
    subst hc
    rw [splice_refuse _ _ _ _ h]
    exact ⟨_, .cons (.refuse key file base (ns ++ rest) outer s span h) hr⟩
  | enter chain file base raw span ns s o h ih ih' =>
    obtain ⟨vs, hr⟩ := ih (⟨key, file, base, ns ++ rest⟩ :: outer) o.key [] (congrArg (o.key :: ·) hc)
    obtain ⟨ws, hr'⟩ := ih' outer key rest hc
    rw [List.append_nil] at hr
    subst hc
    rw [splice_enter _ _ _ _ h]
    exact ⟨_, .cons (.enter key file base (ns ++ rest) outer s span h)
      (hr.trans (.cons (.leave o.key o.file o.file.directory _ _) hr'))⟩

theorem run_splice (t : FileTree) (outer : List Frame) (key : FileKey) (file base : Path) (ns : List Node)
    (s : Resolution) : ∃ vs, Run t ⟨⟨key, file, base, ns⟩ :: outer, s⟩ vs
      ⟨outer, splice t (key :: outer.map Frame.key) file base ns s⟩ := by
  obtain ⟨vs, hr⟩ := run_nodes t outer key file base ns [] s
  rw [List.append_nil] at hr
  exact ⟨_, hr.trans (.one (.leave key file base outer _))⟩

theorem FileTree.run_resolve {t : FileTree} {root : Path} {nodes : List Node} (h : t.nodes root = .ok nodes)
    (rel : Option Path) (macros : MacroTable) : ∃ vs s, t.resolve root rel macros = .ok s ∧
      Run t (.start t root rel macros nodes) vs ⟨[], s⟩ := by
  obtain ⟨vs, hr⟩ := run_splice t [] (t.key root) root (rel.getD root.directory) nodes ⟨.empty root, #[], macros⟩
  refine ⟨vs, _, ?_, hr⟩
  rw [resolve_eq, h]
  rfl

end Sfz
