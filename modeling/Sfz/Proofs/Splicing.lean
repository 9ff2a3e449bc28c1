import Sfz.Proofs.LongPaths
import Sfz.Proofs.TextComposition

namespace Sfz

namespace FileTree

variable {t : FileTree} {l : Location} {text : Option String}

theorem object?_setText (hl : l ∈ t.files) (k : Location) :
    (t.setText l text).object? k = if k = l then some (.file text) else t.object? k := by
  obtain ⟨old, ho⟩ := mem_files_iff.mp hl
  have hlt : l < t.objects.size := (Array.getElem?_eq_some_iff.mp ho).1
  unfold setText
  rw [ho]
  by_cases hk : k = l
  · subst hk
    rw [if_pos rfl]
    exact Array.getElem?_setIfInBounds_self_of_lt hlt
  · rw [if_neg hk]
    exact Array.getElem?_setIfInBounds_ne (Ne.symm hk)

theorem directory?_setText (hl : l ∈ t.files) (k : Location) :
    (t.setText l text).directory? k = t.directory? k := by
  obtain ⟨old, ho⟩ := mem_files_iff.mp hl
  unfold directory?
  rw [object?_setText hl]
  by_cases hk : k = l
  · subst hk
    rw [if_pos rfl, ho]
  · rw [if_neg hk]

theorem working_setText : (t.setText l text).working = t.working := by
  unfold setText
  split <;> rfl

theorem object?_setText_eq_link (hl : l ∈ t.files) {k : Location} {target : Path} :
    (t.setText l text).object? k = some (.link target) ↔ t.object? k = some (.link target) := by
  obtain ⟨old, ho⟩ := mem_files_iff.mp hl
  rw [object?_setText hl]
  by_cases hk : k = l
  · subst hk
    simp [ho]
  · rw [if_neg hk]

theorem leadsAlike_setText (hl : l ∈ t.files) : LeadsAlike t (t.setText l text) where
  no_directory hd := (directory?_setText hl _).trans hd
  directory hd := ⟨_, (directory?_setText hl _).trans hd, fun _ => rfl⟩
  link := (object?_setText_eq_link hl).symm

theorem locate_setText (hl : l ∈ t.files) (p : Path) : (t.setText l text).locate p = t.locate p := by
  unfold locate startOf
  rw [working_setText, (leadsAlike_setText hl).walk_eq]

theorem mem_files_setText (hl : l ∈ t.files) {k : Location} :
    k ∈ (t.setText l text).files ↔ k ∈ t.files := by
  rw [mem_files_iff, mem_files_iff, object?_setText hl]
  by_cases hk : k = l
  · subst hk
    rw [if_pos rfl]
    exact ⟨fun _ => mem_files_iff.mp hl, fun _ => ⟨text, rfl⟩⟩
  · rw [if_neg hk]

theorem locateFile?_setText (hl : l ∈ t.files) (p : Path) :
    (t.setText l text).locateFile? p = t.locateFile? p := by
  apply Option.ext
  intro k
  rw [locateFile?_eq_some, locateFile?_eq_some, locate_setText hl, mem_files_setText hl]

theorem names?_setText (hl : l ∈ t.files) (k : Location) : (t.setText l text).names? k = t.names? k := by
  fun_induction names? t k with
  | case1 => rw [names?, if_pos rfl]
  | case2 k hk hd => rw [names?, if_neg hk, directory?_setText hl, hd]
  | case3 k hk d hd hp ha =>
    rw [names?, if_neg hk, directory?_setText hl, hd]
    simp only [hp, directory?_setText hl, ha, ↓reduceIte]
  | case4 k hk d hd hp above ha he =>
    rw [names?, if_neg hk, directory?_setText hl, hd]
    simp only [hp, directory?_setText hl, ha, he, ↓reduceIte]
  | case5 k hk d hd hp above ha e he ih =>
    rw [names?, if_neg hk, directory?_setText hl, hd]
    simp only [hp, directory?_setText hl, ha, he, ih, ↓reduceIte]
  | case6 k hk d hd hp =>
    rw [names?, if_neg hk, directory?_setText hl, hd]
    simp only [hp, ↓reduceIte]

theorem child?_setText (hl : l ∈ t.files) (k : Location) (d : Directory) (name : String) :
    (t.setText l text).child? k d name = t.child? k d name := by
  rw [child?, child?, names?_setText hl]

theorem object?_setText_of_not_file (text : Option String) (hl : l ∈ t.files) {k : Location} {o : Option FileObject}
    (ho : t.object? k = o) (hne : ∀ old, o ≠ some (.file old)) : (t.setText l text).object? k = o := by
  obtain ⟨old, hold⟩ := mem_files_iff.mp hl
  rw [object?_setText hl, if_neg, ho]
  rintro rfl
  exact hne old (ho.symm.trans hold)

theorem canonicalWalk_setText (hl : l ∈ t.files) (links : Nat) (k : Location) (pieces : List String) :
    (t.setText l text).canonicalWalk links k pieces = t.canonicalWalk links k pieces := by
  have file {j : Location} {old : Option String} (ho : t.object? j = some (.file old)) :
      ∃ new, (t.setText l text).object? j = some (.file new) :=
    mem_files_iff.mp ((mem_files_setText hl).mpr (mem_files_iff.mpr ⟨old, ho⟩))
  fun_induction canonicalWalk t links k pieces with
  | case1 links k => rw [canonicalWalk, names?_setText hl]
  | case2 links k piece rest hd => rw [canonicalWalk, directory?_setText hl, hd]
  | case3 links k piece rest d hd hi ih =>
    rw [canonicalWalk, directory?_setText hl, hd]
    simp only [hi, ih, ↓reduceIte]
  | case4 links k piece rest d hd hi hu ih =>
    rw [canonicalWalk, directory?_setText hl, hd]
    simp only [hi, hu, ih, Bool.false_eq_true, ↓reduceIte]
  | case5 links k piece rest d hd hi hu he =>
    rw [canonicalWalk, directory?_setText hl, hd]
    simp only [hi, hu, child?_setText hl, he, Bool.false_eq_true, ↓reduceIte]
  | case6 k piece rest d hd hi hu p j he target ho =>
    have ho := object?_setText_of_not_file text hl ho (by simp)
    rw [canonicalWalk, directory?_setText hl, hd]
    simp only [hi, hu, child?_setText hl, he, ho, Bool.false_eq_true, ↓reduceIte]
  | case7 k piece rest d hd hi hu p j he target ho links ih =>
    have ho := object?_setText_of_not_file text hl ho (by simp)
    rw [canonicalWalk, directory?_setText hl, hd]
    simp only [hi, hu, child?_setText hl, he, ho, Bool.false_eq_true, ↓reduceIte]
    exact ih
  | case8 links k piece rest d hd hi hu p j he d' ho hc =>
    have ho := object?_setText_of_not_file text hl ho (by simp)
    rw [canonicalWalk, directory?_setText hl, hd]
    simp only [hi, hu, child?_setText hl, he, ho, hc, Bool.false_eq_true, ↓reduceIte]
  | case9 links k piece rest d hd hi hu p j he d' ho hc ih =>
    have ho := object?_setText_of_not_file text hl ho (by simp)
    rw [canonicalWalk, directory?_setText hl, hd]
    simp only [hi, hu, child?_setText hl, he, ho, hc, ih, Bool.false_eq_true, ↓reduceIte]
  | case10 links k piece rest d hd hi hu p j he old ho hr =>
    obtain ⟨new, ho⟩ := file ho
    rw [canonicalWalk, directory?_setText hl, hd]
    simp only [hi, hu, child?_setText hl, he, ho, hr, Bool.false_eq_true, ↓reduceIte]
  | case11 links k piece rest d hd hi hu p j he old ho hr =>
    obtain ⟨new, ho⟩ := file ho
    rw [canonicalWalk, directory?_setText hl, hd]
    simp only [hi, hu, child?_setText hl, he, ho, hr, Bool.false_eq_true, ↓reduceIte]
  | case12 links k piece rest d hd hi hu p j he ho =>
    have ho := object?_setText_of_not_file text hl ho (by simp)
    rw [canonicalWalk, directory?_setText hl, hd]
    simp only [hi, hu, child?_setText hl, he, ho, Bool.false_eq_true, ↓reduceIte]

theorem key_setText (hl : l ∈ t.files) (p : Path) : (t.setText l text).key p = t.key p := by
  rw [key, key, canonical?, canonical?, startOf, startOf, working_setText, canonicalWalk_setText hl]

theorem read_setText_of_ne (hl : l ∈ t.files) {p : Path} (hp : t.locate p ≠ .ok l) :
    (t.setText l text).read p = t.read p := by
  cases h : t.locate p with
  | error e =>
    unfold read
    rw [locate_setText hl, h]
    rfl
  | ok k =>
    have hk : k ≠ l := by
      rintro rfl
      exact hp h
    rw [read_eq h, read_eq ((locate_setText hl p).trans h), object?_setText hl, if_neg hk]

theorem nodes_setText_of_ne (hl : l ∈ t.files) {p : Path} (hp : t.locate p ≠ .ok l) :
    (t.setText l text).nodes p = t.nodes p := by
  unfold nodes
  rw [read_setText_of_ne hl hp]

theorem read_setText_self (hl : l ∈ t.files) {p : Path} (hp : t.locate p = .ok l) (new : String) :
    (t.setText l (some new)).read p = .ok new := by
  rw [read_eq ((locate_setText hl p).trans hp), object?_setText hl, if_pos rfl]

end FileTree

theorem openInclude_setText {t : FileTree} {root : Path} {l : Location} {nodes : List Node}
    (hl : t.locate root = .ok l) (hr : t.nodes root = .ok nodes) {text : Option String} {chain : List FileKey}
    {macros : MacroTable} {base : Path} {raw : String}
    (hne : ∀ o, openInclude t chain macros base raw = .ok o → t.locate o.file ≠ .ok l) :
    openInclude (t.setText l text) chain macros base raw = openInclude t chain macros base raw := by
  have hfile : l ∈ t.files := FileTree.mem_files_of_nodes hl hr
  apply openInclude_eq_iff.mpr
  have h := opening_openInclude t chain macros base raw
  generalize hopen : openInclude t chain macros base raw = r at h
  cases h with
  | undefined hu => exact .undefined hu
  | missing hu hp => exact .missing hu ((FileTree.locateFile?_setText hfile _).trans hp)
  | cycle hu hp hk =>
    exact .cycle hu ((FileTree.locateFile?_setText hfile _).trans hp) (by rwa [FileTree.key_setText hfile])
  | failed hu hp hk hn =>
    -- the file itself is not malformed
    have hne' : t.locate (base.join ⟨macros.written raw⟩) ≠ .ok l := by
      intro hl'
      rw [FileTree.nodes_of_locate_eq hl hl' hr] at hn
      cases hn
    exact .failed hu ((FileTree.locateFile?_setText hfile _).trans hp) (by rwa [FileTree.key_setText hfile])
      ((FileTree.nodes_setText_of_ne hfile hne').trans hn)
  | @opened _ o hu hf hp hk hn =>
    exact .opened hu hf ((FileTree.locateFile?_setText hfile _).trans hp) (by rwa [FileTree.key_setText hfile])
      ((FileTree.nodes_setText_of_ne hfile (hne o hopen)).trans hn)

structure FileTree.Guards (t : FileTree) (root : Path) (l : Location) : Prop where
  located : t.locate root = .ok l
  parsed : ∃ nodes, t.nodes root = .ok nodes
  canonical : (t.canonical? root).isSome = true
  onePath : t.HasOnePath l

namespace FileTree.Guards

variable {t : FileTree} {root : Path} {l : Location} (h : t.Guards root l)

include h

theorem locate_ne {chain : List FileKey} (hc : t.key root ∈ chain) {macros : MacroTable} {base : Path}
    {raw : String} {o : Opened chain} (ho : openInclude t chain macros base raw = .ok o)
    (hcanonical : (t.canonical? o.file).isSome = true) : t.locate o.file ≠ .ok l := by
  intro hl
  obtain ⟨p, hp⟩ := Option.isSome_iff_exists.mp h.canonical
  obtain ⟨q, hq⟩ := Option.isSome_iff_exists.mp hcanonical
  obtain ⟨names, hat, hkey⟩ := key_of_canonical? h.located hp
  obtain ⟨names', hat', hkey'⟩ := key_of_canonical? hl hq
  obtain rfl := h.onePath _ _ hat hat'
  cases openInclude_eq_iff.mp ho with
  | opened hu hf hloc hk hn => exact o.isNew (by rwa [hk, hkey', ← hkey])

/-- Splicing does not look at the text of the file while it is open. -/
theorem splice_setText (text : Option String) {outer : List Frame} {key : FileKey}
    (hc : t.key root ∈ key :: outer.map Frame.key) {file base : Path} {ns rest : List Node} {s : Resolution}
    (hp : Point.Canonical t ⟨⟨key, file, base, ns ++ rest⟩ :: outer, s⟩) :
    splice (t.setText l text) (key :: outer.map Frame.key) file base ns s =
      splice t (key :: outer.map Frame.key) file base ns s := by
  obtain ⟨nodes, hnodes⟩ := h.parsed
  generalize hchain : key :: outer.map Frame.key = chain at hc
  induction chain, file, base, ns, s using splice_induction (t := t) generalizing key outer rest with
  | nil chain file base s => rw [splice_nil, splice_nil]
  | visit chain file base n ns s hn ih =>
    rw [splice_visit _ _ _ _ hn, splice_visit _ _ _ _ hn]
    exact ih (hp.step (.node key file base (ns ++ rest) outer s hn)) hchain hc
  | refuse chain file base raw span ns s problem ho ih =>
    have ho' : openInclude (t.setText l text) chain s.macros base raw = .error problem := by
      rw [openInclude_setText h.located hnodes, ho]
      intro o hok
      rw [ho] at hok
      cases hok
    rw [splice_refuse _ _ _ _ ho', splice_refuse _ _ _ _ ho]
    subst hchain
    exact ih (hp.step (.refuse key file base (ns ++ rest) outer s span ho)) rfl hc
  | enter chain file base raw span ns s o ho ih ih' =>
    subst hchain
    have hstep := Step.enter key file base (ns ++ rest) outer s span ho
    have ho' : openInclude (t.setText l text) (key :: outer.map Frame.key) s.macros base raw = .ok o := by
      rw [openInclude_setText h.located hnodes, ho]
      intro o' hok
      obtain rfl := Except.ok.inj (ho.symm.trans hok)
      exact h.locate_ne hc ho (hp [] _ _ _ (.one hstep))
    rw [splice_enter _ _ _ _ ho', splice_enter _ _ _ _ ho]
    have hinner := hp.step hstep
    rw [← List.append_nil o.nodes] at hinner
    rw [ih hinner rfl (List.mem_cons_of_mem _ hc)]
    -- the rest of the file is reached when the inner file has been worked through
    obtain ⟨vs, hr⟩ := run_splice t (⟨key, file, base, ns ++ rest⟩ :: outer) o.key o.file o.file.directory o.nodes s
    exact ih' ((hp.step hstep).run hr) rfl hc

theorem openInclude_setText {rel : Option Path} {macros : MacroTable} {before after : List Node} {raw : String}
    {span : Span} (hfiles : (Point.start t root rel macros (before ++ .inclusion raw span :: after)).Canonical t)
    {o : Opened [t.key root]} (ho : openInclude t [t.key root] (splice t [t.key root] root
      (rel.getD root.directory) before ⟨.empty root, #[], macros⟩).macros (rel.getD root.directory) raw = .ok o)
    (text : Option String) : openInclude (t.setText l text) [t.key root] (splice (t.setText l text) [t.key root]
      root (rel.getD root.directory) before ⟨.empty root, #[], macros⟩).macros (rel.getD root.directory) raw =
        .ok o := by
  have hmem : t.key root ∈ t.key root :: ([] : List Frame).map Frame.key := List.mem_cons_self ..
  obtain ⟨nodes, hnodes⟩ := h.parsed
  obtain ⟨vs, hrun⟩ := run_nodes t [] (t.key root) root (rel.getD root.directory) before
    (.inclusion raw span :: after) ⟨.empty root, #[], macros⟩
  have hcanonical := (hfiles.run hrun) [] _ _ _ (.one (.enter (t.key root) root _ after [] _ span ho))
  rw [show splice (t.setText l text) [t.key root] root (rel.getD root.directory) before _ = _ from
    h.splice_setText text hmem hfiles, Sfz.openInclude_setText h.located hnodes, List.map_nil, ho]
  intro o' hok
  obtain rfl := Except.ok.inj (ho.symm.trans hok)
  exact h.locate_ne hmem ho hcanonical

end FileTree.Guards

def Position.nowhere : Position :=
  ⟨⟨""⟩, .start⟩

def Setting.unplaced (s : Setting) : Setting :=
  { s with position := .nowhere }

def Definition.unplaced (d : Definition) : Definition :=
  { d with position := .nowhere }

def Header.unplaced (h : Header) : Header :=
  { h with position := .nowhere, settings := h.settings.map Setting.unplaced }

def Finding.unplaced (f : Finding) : Finding :=
  { f with position := .nowhere }

namespace Builder

def unplaced (b : Builder) : Builder :=
  ⟨{ b.document with
      headers := b.document.headers.map Header.unplaced
      definitions := b.document.definitions.map Definition.unplaced }, b.scope⟩

theorem unplaced_openHeader (b : Builder) (kind : HeaderKind) (p : Position) :
    (b.openHeader kind p).unplaced = b.unplaced.openHeader kind .nowhere := by
  simp [unplaced, openHeader, Header.unplaced]

theorem unplaced_define (b : Builder) (d : Definition) :
    (b.define d).unplaced = b.unplaced.define d.unplaced := by
  simp [unplaced, define]

theorem unplaced_assign (b : Builder) (s : Setting) :
    (b.assign s).unplaced = b.unplaced.assign s.unplaced := by
  have he : (b.document.headers.modify (b.document.headers.size - 1)
        (fun h => { h with settings := h.settings.push s })).map Header.unplaced =
      (b.document.headers.map Header.unplaced).modify (b.document.headers.size - 1)
        (fun h => { h with settings := h.settings.push s.unplaced }) := by
    apply Array.ext_getElem?
    intro i
    simp only [Array.getElem?_map, Array.getElem?_modify]
    split
    · cases b.document.headers[i]? <;> simp [Header.unplaced]
    · rfl
  simp [unplaced, assign, he]

theorem isOpen_unplaced (b : Builder) : b.unplaced.isOpen = b.isOpen := by
  simp [unplaced, isOpen]

end Builder

namespace Resolution

def unplaced (s : Resolution) : Resolution :=
  ⟨s.builder.unplaced, s.findings.map Finding.unplaced, s.macros⟩

theorem macros_of_unplaced {s s' : Resolution} (h : s.unplaced = s'.unplaced) : s.macros = s'.macros :=
  (congrArg Resolution.macros h : s.unplaced.macros = s'.unplaced.macros)

theorem unplaced_report (s : Resolution) (f : Finding) :
    (s.report f).unplaced = s.unplaced.report f.unplaced := by
  simp [unplaced, report]

theorem unplaced_assign (s : Resolution) (raw value : String) (p : Position) :
    (s.assign raw value p).unplaced = s.unplaced.assign raw value .nowhere := by
  unfold assign
  simp only [unplaced, Builder.isOpen_unplaced]
  split
  · simp [Builder.unplaced_assign, Setting.unplaced, Finding.unplaced]
  · simp [report, Finding.unplaced]

theorem unplaced_visit (s : Resolution) (file : Path) (n : Node) :
    (s.visit file n).unplaced = s.unplaced.visit Position.nowhere.file n.unplaced := by
  cases n with
  | header kind span => simp [visit, unplaced, Builder.unplaced_openHeader, Node.unplaced, Position.nowhere]
  | opcode name value span => exact unplaced_assign s name value ⟨file, span⟩
  | define name value span =>
    simp [visit, unplaced, define, Builder.unplaced_define, Node.unplaced, Definition.unplaced,
      Position.nowhere]
  | inclusion raw span => rfl

theorem unplaced_foldl_visit (s : Resolution) (file : Path) (ns : List Node) :
    (ns.foldl (fun s n => s.visit file n) s).unplaced =
      (ns.map Node.unplaced).foldl (fun s n => s.visit Position.nowhere.file n) s.unplaced := by
  induction ns generalizing s with
  | nil => rfl
  | cons n ns ih => rw [List.foldl_cons, ih, unplaced_visit, List.map_cons, List.foldl_cons]

end Resolution

theorem isInclusion_unplaced (n : Node) : n.unplaced.isInclusion = n.isInclusion := by
  cases n <;> rfl

theorem inclusion_of_unplaced {raw : String} {span : Span} {ns ns' : List Node}
    (h : ns'.map Node.unplaced = (.inclusion raw span :: ns).map Node.unplaced) :
    ∃ span' ms, ns' = .inclusion raw span' :: ms ∧ ms.map Node.unplaced = ns.map Node.unplaced := by
  obtain ⟨n, ms, rfl, hn, hms⟩ := List.map_eq_cons_iff.mp h
  cases n with
  | inclusion raw' span' =>
    obtain rfl : raw' = raw := by simpa [Node.unplaced] using hn
    exact ⟨span', ms, rfl, hms⟩
  | _ => simp [Node.unplaced] at hn

theorem unplaced_splice {t : FileTree} {chain : List FileKey} {file base : Path} (file' : Path)
    {ns ns' : List Node} (hn : ns'.map Node.unplaced = ns.map Node.unplaced) {s s' : Resolution}
    (hs : s'.unplaced = s.unplaced) :
    (splice t chain file' base ns' s').unplaced = (splice t chain file base ns s).unplaced := by
  induction chain, file, base, ns, s using splice_induction (t := t) generalizing file' ns' s' with
  | nil chain file base s =>
    obtain rfl : ns' = [] := by simpa using hn
    rw [splice_nil, splice_nil, hs]
  | visit chain file base n ns s hi ih =>
    obtain ⟨n', ns', rfl, hn', hns⟩ := List.map_eq_cons_iff.mp hn
    have hi' : n'.isInclusion = false := by
      rw [← isInclusion_unplaced, hn', isInclusion_unplaced, hi]
    rw [splice_visit _ _ _ _ hi', splice_visit _ _ _ _ hi]
    apply ih file' hns
    rw [Resolution.unplaced_visit, Resolution.unplaced_visit, hs, hn']
  | refuse chain file base raw span ns s problem h ih =>
    obtain ⟨span', ns', rfl, hns⟩ := inclusion_of_unplaced hn
    rw [← Resolution.macros_of_unplaced hs] at h
    rw [splice_refuse _ _ _ _ h, splice_refuse _ _ _ _ (Resolution.macros_of_unplaced hs ▸ h)]
    apply ih file' hns
    rw [Resolution.unplaced_report, Resolution.unplaced_report, hs]
    rfl
  | enter chain file base raw span ns s o h ih ih' =>
    obtain ⟨span', ns', rfl, hns⟩ := inclusion_of_unplaced hn
    rw [← Resolution.macros_of_unplaced hs] at h
    rw [splice_enter _ _ _ _ h, splice_enter _ _ _ _ (Resolution.macros_of_unplaced hs ▸ h)]
    exact ih' file' hns (ih o.file rfl hs)

theorem unplaced_splice_opened {t : FileTree} {chain : List FileKey} {file base : Path}
    {before after : List Node} {raw : String} (span : Span) {s : Resolution} {o : Opened chain}
    (ho : openInclude t chain (splice t chain file base before s).macros base raw = .ok o)
    (hi : ∀ n ∈ o.nodes, n.isInclusion = false) :
    (splice t chain file base (before ++ (o.nodes ++ after)) s).unplaced =
      (splice t chain file base (before ++ .inclusion raw span :: after) s).unplaced := by
  rw [splice_append, splice_append, splice_append, splice_enter _ _ _ _ ho]
  apply unplaced_splice _ rfl
  rw [splice_eq_foldl_visit _ _ _ _ hi, splice_eq_foldl_visit _ _ _ _ hi,
    Resolution.unplaced_foldl_visit, Resolution.unplaced_foldl_visit]

def MarkedLine.abyss : MarkedLine where
  before := "<region>\n"
  line := "#include \"g.sfz\""
  after := "\n#include \"s/eeeeeeeeeeeeeeee\""
  begins := .inr ⟨"<region>", rfl⟩
  single := by decide
  ends := .inr ⟨"#include \"s/eeeeeeeeeeeeeeee\"", .inl rfl⟩

def FileTree.piano : FileTree :=
  .ofTexts [("piano.sfz", 1), ("keys.sfz", 2)]
    ["<region>\r\n#include \"keys.sfz\"\r\nvolume=3", "lokey=60 // two octaves"]
    ⟨by decide, by decide, by decide⟩

def MarkedLine.piano : MarkedLine where
  before := "<region>\r\n"
  line := "#include \"keys.sfz\""
  after := "\r\nvolume=3"
  begins := .inr ⟨"<region>\r", rfl⟩
  single := by decide
  ends := .inr ⟨"volume=3", .inr rfl⟩

end Sfz
