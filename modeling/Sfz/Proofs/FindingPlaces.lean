import Sfz.Lint
import Sfz.Proofs.FilePaths
import Sfz.Proofs.InclusionRun
import Sfz.Proofs.ParsedNodes
import Sfz.Proofs.ScopeLinks

namespace Sfz

def Text.HasAt (text : String) (s : Span) (token : String) : Prop :=
  ∃ i m l, s = ⟨i + 1, m + 1⟩ ∧ (splitLines text.toList)[i]? = some l ∧ token.toList <+: l.drop m

namespace Node

open Sfz.Parser Sfz.Comment Sfz.Text

def opening : Node → String
  | .header kind _ => "<" ++ kind.name ++ ">"
  | .opcode name _ _ => name ++ "="
  | .define .. => "#define"
  | .inclusion .. => "#include"

def token? : Node → Option String
  | .define .. => none
  | n => some n.opening

theorem opening_eq_of_token? {n : Node} {token : String} (h : n.token? = some token) : n.opening = token := by
  cases n with
  | define => exact absurd h nofun
  | _ => exact Option.some.inj h

theorem opening_of_read {s : Span} {cs : List Char} {n : Node} (h : Read s cs n) :
    n.span = s ∧ n.opening.toList <+: cs ∧ ' ' ∉ n.opening.toList := by
  cases h with
  | @header name rest kind htag hk =>
    obtain ⟨rfl, hname⟩ := tag?_eq_some.mp htag
    have hblank : ' ' ∉ name := fun hm => absurd (hname _ hm) (by decide)
    have hopening : ("<" ++ kind.name ++ ">").toList = '<' :: (name ++ ['>']) := by
      rw [HeaderKind.name_of_ofName? hk]
      simp
    rw [opening, hopening]
    exact ⟨rfl, ⟨rest, by simp⟩, by simp [hblank]⟩
  | @opcode name rest hset =>
    obtain ⟨rfl, -, hname⟩ := setting?_eq_some.mp hset
    have hblank : ' ' ∉ name := fun hm => absurd (hname _ hm) (by decide)
    exact ⟨rfl, ⟨rest, by simp [opening]⟩, by simp [opening, hblank]⟩
  | @define rest name value ha =>
    obtain rfl := after?_eq_some.mp ha
    exact ⟨rfl, List.prefix_append _ _, by simp [opening]⟩
  | @inclusion rest path ha =>
    obtain rfl := after?_eq_some.mp ha
    exact ⟨rfl, List.prefix_append _ _, by simp [opening]⟩

theorem hasAt_opening {text : String} {nodes : List Node} (h : parse text = .ok nodes) {n : Node}
    (hn : n ∈ nodes) : HasAt text n.span n.opening := by
  obtain ⟨code, i, l, m, hcode, hl, hr⟩ := exists_read_of_parse h hn
  obtain ⟨hspan, ⟨after, hafter⟩, hblank⟩ := opening_of_read hr
  have hlines := kept_splitLines (blanked_of_blankFrom hcode).kept
  obtain ⟨hi, rfl⟩ := List.getElem?_eq_some_iff.mp hl
  have hi' : i < (splitLines text.toList).length := by
    rw [hlines.length_eq]
    exact hi
  have hline : List.Forall₂ Kept ((splitLines text.toList)[i]) ((splitLines code)[i]) := hlines.get hi' hi
  have hrest := List.forall₂_drop m hline
  rw [← hafter] at hrest
  -- what blanking changed is a blank now, and what the node begins with has none
  have hopening := eq_of_kept (List.forall₂_take_append _ _ _ hrest) hblank
  refine ⟨i, m, _, hspan, List.getElem?_eq_getElem hi', ?_⟩
  rw [← hopening]
  exact List.take_prefix _ _

end Node

def FileTree.TokenAt (t : FileTree) (p : Position) : Prop :=
  ∃ text nodes n token, t.read p.file = .ok text ∧ Node.parse text = .ok nodes ∧ n ∈ nodes ∧
    n.span = p.span ∧ n.token? = some token ∧ Text.HasAt text p.span token

theorem FileTree.tokenAt_of_nodes {t : FileTree} {file : Path} {nodes : List Node}
    (h : t.nodes file = .ok nodes) {n : Node} (hn : n ∈ nodes) (ht : n.token?.isSome = true) :
    t.TokenAt ⟨file, n.span⟩ := by
  obtain ⟨text, hread, hparse⟩ := nodes_eq_ok.mp h
  obtain ⟨token, htoken⟩ := Option.isSome_iff_exists.mp ht
  refine ⟨text, nodes, n, token, hread, hparse, hn, rfl, htoken, ?_⟩
  rw [← Node.opening_eq_of_token? htoken]
  exact Node.hasAt_opening hparse hn

section Placed

variable (P : Position → Prop)

def Header.Placed (h : Header) : Prop :=
  P h.position ∧ ∀ s ∈ h.settings.toList, P s.position

def Document.Placed (d : Document) : Prop :=
  ∀ h ∈ d.headers.toList, h.Placed P

structure Resolution.Placed (s : Resolution) : Prop where
  findings : ∀ f ∈ s.findings.toList, P f.position
  document : s.builder.document.Placed P

structure Point.Placed (p : Point) : Prop where
  nodes : ∀ frame ∈ p.frames, ∀ n ∈ frame.nodes, n.token?.isSome = true → P ⟨frame.file, n.span⟩
  state : p.state.Placed P

end Placed

variable {P : Position → Prop}

namespace Builder

theorem placed_openHeader {b : Builder} (h : b.document.Placed P) (kind : HeaderKind) {p : Position}
    (hp : P p) : (b.openHeader kind p).document.Placed P := by
  intro x hx
  rw [headers_openHeader, Array.toList_push, List.mem_append, List.mem_singleton] at hx
  rcases hx with hx | rfl
  · exact h x hx
  · exact ⟨hp, by simp⟩

theorem placed_assign {b : Builder} (h : b.document.Placed P) {s : Setting} (hs : P s.position) :
    (b.assign s).document.Placed P := by
  intro x hx
  obtain ⟨i, hi⟩ := List.mem_iff_getElem?.mp hx
  rw [Array.getElem?_toList, headers_assign] at hi
  split at hi
  · obtain ⟨g, hg, rfl⟩ := Option.map_eq_some_iff.mp hi
    obtain ⟨hposition, hsettings⟩ := h g (Array.mem_toList_iff.mpr (Array.mem_of_getElem? hg))
    refine ⟨hposition, ?_⟩
    intro y hy
    rw [Array.toList_push, List.mem_append, List.mem_singleton] at hy
    rcases hy with hy | rfl
    · exact hsettings y hy
    · exact hs
  · exact h x (Array.mem_toList_iff.mpr (Array.mem_of_getElem? hi))

end Builder

namespace Resolution.Placed

variable {s : Resolution}

theorem report (h : s.Placed P) {f : Finding} (hf : P f.position) : (s.report f).Placed P := by
  refine ⟨?_, h.document⟩
  intro g hg
  rw [Resolution.report, Array.toList_push, List.mem_append, List.mem_singleton] at hg
  rcases hg with hg | rfl
  · exact h.findings g hg
  · exact hf

theorem assign (h : s.Placed P) (raw value : String) {p : Position} (hp : P p) :
    (s.assign raw value p).Placed P := by
  have hundefined : ∀ (names : List String) (s : Resolution), s.Placed P →
      Resolution.Placed P { s with
        findings := names.foldl (fun fs _ => fs.push ⟨.undefinedMacro, p, some raw⟩) s.findings } := by
    intro names
    induction names with
    | nil => exact fun s hs => hs
    | cons name names ih => exact fun s hs => ih _ (hs.report hp)
  have hs := hundefined (s.macros.expand raw).undefined s h
  unfold Resolution.assign
  dsimp only
  split
  · exact ⟨hs.findings, Builder.placed_assign hs.document hp⟩
  · exact hs.report hp

theorem visit (h : s.Placed P) {file : Path} {n : Node}
    (hn : n.token?.isSome = true → P ⟨file, n.span⟩) : (s.visit file n).Placed P := by
  cases n with
  | header kind span => exact ⟨h.findings, Builder.placed_openHeader h.document kind (hn rfl)⟩
  | opcode name value span => exact h.assign name value (hn rfl)
  | define name value span => exact ⟨h.findings, h.document⟩
  | inclusion raw span => exact h

end Resolution.Placed

/-- Places come in where a file is entered, and nowhere else. -/
theorem Point.Placed.step {t : FileTree} {p q : Point} {v : Visit} (h : p.Placed P) (hs : Step t p v q)
    (henter : ∀ k file nodes, v = .enter k file → t.nodes file = .ok nodes →
      ∀ n ∈ nodes, n.token?.isSome = true → P ⟨file, n.span⟩) : q.Placed P := by
  obtain ⟨hnodes, hstate⟩ := h
  cases hs with
  | leave l file base outer s => exact ⟨fun frame hf => hnodes frame (List.mem_cons_of_mem _ hf), hstate⟩
  | @node l file base ns outer s n hn =>
    obtain ⟨hfirst, houter⟩ := List.forall_mem_cons.mp hnodes
    obtain ⟨hhead, htail⟩ := List.forall_mem_cons.mp hfirst
    exact ⟨List.forall_mem_cons.mpr ⟨htail, houter⟩, hstate.visit hhead⟩
  | @refuse l file base ns outer s raw span problem ho =>
    obtain ⟨hfirst, houter⟩ := List.forall_mem_cons.mp hnodes
    obtain ⟨hhead, htail⟩ := List.forall_mem_cons.mp hfirst
    exact ⟨List.forall_mem_cons.mpr ⟨htail, houter⟩, hstate.report (hhead rfl)⟩
  | @enter l file base ns outer s raw span o ho =>
    obtain ⟨hfirst, houter⟩ := List.forall_mem_cons.mp hnodes
    obtain ⟨-, htail⟩ := List.forall_mem_cons.mp hfirst
    have hopened : t.nodes o.file = .ok o.nodes := by
      cases openInclude_eq_iff.mp ho with
      | opened _ _ _ _ hn => exact hn
    have hfile := henter o.key o.file o.nodes rfl hopened
    exact ⟨List.forall_mem_cons.mpr ⟨hfile, List.forall_mem_cons.mpr ⟨htail, houter⟩⟩, hstate⟩

theorem Point.Placed.run {t : FileTree} {p q : Point} {vs : List Visit} (hr : Run t p vs q)
    (h : p.Placed P)
    (henter : ∀ k file nodes, .enter k file ∈ vs → t.nodes file = .ok nodes →
      ∀ n ∈ nodes, n.token?.isSome = true → P ⟨file, n.span⟩) : q.Placed P := by
  induction hr with
  | refl => exact h
  | @cons p q r v vs hs _ ih =>
    apply ih
    · apply h.step hs
      intro k file nodes hv
      exact henter k file nodes (hv ▸ List.mem_cons_self ..)
    · intro k file nodes hv
      exact henter k file nodes (List.mem_cons_of_mem v hv)

theorem Setting.position_of_mem_findings {f : Finding} {r : Registry} {settings : Settings} {s : Setting}
    (hf : f ∈ s.findings r settings) : f.position = s.position := by
  rw [findings, List.mem_append] at hf
  rcases hf with hf | hf
  · rw [List.eq_of_mem_replicate hf, finding]
  · split at hf
    next => rw [List.mem_singleton.mp hf, finding]
    next m hm =>
      rcases List.mem_append.mp hf with hf | hf
      · unfold versionFindings at hf
        split at hf
        · simp only [List.mem_ite_nil_left, List.mem_singleton] at hf
          rw [hf.2, finding]
        · exact absurd hf List.not_mem_nil
      · simp only [List.mem_ite_nil_left, Option.mem_toList, Option.map_eq_some_iff] at hf
        obtain ⟨-, problem, -, rfl⟩ := hf
        rfl

namespace Document

variable {d : Document} {f : Finding}

theorem placed_of_mem_headerFindings {allowed : Option (List Version)} {selected : List Version}
    {seen : List HeaderKind} {hs : List Header} (h : ∀ x ∈ hs, P x.position)
    (hf : f ∈ headerFindings allowed selected seen hs) : P f.position := by
  induction hs generalizing seen with
  | nil => exact absurd hf List.not_mem_nil
  | cons x hs ih =>
    obtain ⟨hx, hrest⟩ := List.forall_mem_cons.mp h
    simp only [headerFindings, List.mem_append, List.mem_ite_nil_right, List.mem_singleton] at hf
    rcases hf with (⟨-, rfl⟩ | ⟨-, rfl⟩) | hf
    · exact hx
    · exact hx
    · exact ih hrest hf

theorem placed_of_mem_duplicateFindings {seen : List String} {ss : List Setting}
    (h : ∀ s ∈ ss, P s.position) (hf : f ∈ duplicateFindings seen ss) : P f.position := by
  induction ss generalizing seen with
  | nil => exact absurd hf List.not_mem_nil
  | cons s ss ih =>
    obtain ⟨hs, hrest⟩ := List.forall_mem_cons.mp h
    simp only [duplicateFindings, List.mem_append, List.mem_ite_nil_right, List.mem_singleton] at hf
    rcases hf with ⟨-, rfl⟩ | hf
    · exact hs
    · exact ih hrest hf

theorem placed_of_mem_sampleFindings {t : FileTree} {settings : Settings} {c : Sample.Listings}
    {ss : List (Nat × Setting)} (h : ∀ s ∈ ss, P s.2.position)
    (hf : f ∈ sampleFindings t settings d c ss) : P f.position := by
  induction ss generalizing c with
  | nil => exact absurd hf List.not_mem_nil
  | cons s ss ih =>
    obtain ⟨hs, hrest⟩ := List.forall_mem_cons.mp h
    rw [sampleFindings] at hf
    split at hf
    · exact ih hrest hf
    · rw [List.mem_append, Option.mem_toList, Option.map_eq_some_iff] at hf
      rcases hf with ⟨problem, -, rfl⟩ | hf
      · exact hs
      · exact ih hrest hf

variable (h : d.Placed P)
include h

theorem placed_of_mem_settings {s : Nat × Setting} (hs : s ∈ d.settings) : P s.2.position := by
  simp only [settings, List.mem_flatMap, List.mem_map] at hs
  obtain ⟨x, hx, y, hy, rfl⟩ := hs
  exact (h x.1 (List.fst_mem_of_mem_zipIdx hx)).2 y hy

theorem placed_of_mem_checkDuplicates (hf : f ∈ d.checkDuplicates) : P f.position := by
  obtain ⟨x, hx, hf⟩ := List.mem_flatMap.mp hf
  exact placed_of_mem_duplicateFindings (h x hx).2 hf

theorem placed_of_mem_checkSettings {r : Registry} {settings : Settings}
    (hf : f ∈ d.checkSettings r settings) : P f.position := by
  obtain ⟨s, hs, hf⟩ := List.mem_flatMap.mp hf
  rw [Setting.position_of_mem_findings hf]
  exact placed_of_mem_settings h hs

theorem placed_of_mem_checkCurves (hf : f ∈ d.checkCurves) : P f.position := by
  obtain ⟨s, hs, hf⟩ := List.mem_filterMap.mp hf
  rw [Option.ite_none_right_eq_some, Option.map_eq_some_iff] at hf
  obtain ⟨-, problem, -, rfl⟩ := hf
  exact placed_of_mem_settings h hs

theorem placed_of_mem_checkRanges (hf : f ∈ d.checkRanges) : P f.position := by
  obtain ⟨x, hx, hf⟩ := List.mem_flatMap.mp hf
  rw [List.mem_ite_nil_right, List.mem_filterMap] at hf
  obtain ⟨-, pair, -, hf⟩ := hf
  obtain ⟨problem, -, rfl⟩ := Option.map_eq_some_iff.mp hf
  exact (h x.1 (List.fst_mem_of_mem_zipIdx hx)).1

theorem placed_of_mem_checkSamples {t : FileTree} {r : Registry} {settings : Settings}
    (hf : f ∈ d.checkSamples t r settings) : P f.position := by
  apply placed_of_mem_sampleFindings _ hf
  intro s hs
  exact placed_of_mem_settings h (List.mem_of_mem_filter hs)

theorem placed_of_mem_check {t : FileTree} {r : Registry} {settings : Settings}
    (hf : f ∈ d.check t r settings) : P f.position := by
  simp only [check, List.mem_append, List.mem_ite_nil_right] at hf
  rcases hf with ((((hf | hf) | hf) | hf) | hf) | ⟨-, hf⟩
  · exact placed_of_mem_headerFindings (fun x hx => (h x hx).1) hf
  · exact placed_of_mem_checkDuplicates h hf
  · exact placed_of_mem_checkSettings h hf
  · exact placed_of_mem_checkCurves h hf
  · exact placed_of_mem_checkRanges h hf
  · exact placed_of_mem_checkSamples h hf

end Document

namespace FileTree

theorem mem_lint {t : FileTree} {r : Registry} {settings : Settings} {root : Path} {f : Finding} :
    f ∈ (t.lint r settings root).remaining ↔ f ∈ t.findings r settings root := by
  rw [lint, Report.ofFindings, List.mem_mergeSort]

theorem resolve_eq_error {t : FileTree} {root : Path} {e : SourceError} (h : t.nodes root = .error e)
    (rel : Option Path) (macros : MacroTable) : t.resolve root rel macros = .error e := by
  rw [resolve, h]
  rfl

theorem lint_points_at_tokens (t : FileTree) (r : Registry) (settings : Settings) (root : Path) :
    (∀ nodes, t.nodes root = .ok nodes → ∃ vs s,
      t.resolve root settings.basePath .empty = .ok s ∧
      Run t (.start t root settings.basePath .empty nodes) vs ⟨[], s⟩ ∧
      ∀ f ∈ (t.lint r settings root).remaining,
        (f.position.file = root ∨ ∃ k, .enter k f.position.file ∈ vs) ∧ t.TokenAt f.position) ∧
    (∀ e, t.nodes root = .error e →
      ∃ f, (t.lint r settings root).remaining = [f] ∧ f.isError = true) := by
  constructor
  · intro nodes hnodes
    obtain ⟨vs, s, hresolve, hr⟩ := run_resolve hnodes settings.basePath .empty
    refine ⟨vs, s, hresolve, hr, ?_⟩
    -- the places of the run are the tokens of the root and of the files that it enters
    have hstart : Point.Placed (fun p => (p.file = root ∨ ∃ k, .enter k p.file ∈ vs) ∧ t.TokenAt p)
        (.start t root settings.basePath .empty nodes) := by
      refine ⟨?_, by simp [Point.start], by simp [Point.start, Document.Placed, Builder.empty]⟩
      intro frame hframe n hn ht
      obtain rfl := List.mem_singleton.mp hframe
      exact ⟨.inl rfl, tokenAt_of_nodes hnodes hn ht⟩
    have hend := hstart.run hr (fun k file ns hv hns n hn ht =>
      ⟨.inr ⟨k, hv⟩, tokenAt_of_nodes hns hn ht⟩)
    intro f hf
    rw [mem_lint, findings, hresolve] at hf
    rcases List.mem_append.mp hf with hf | hf
    · exact hend.state.findings f hf
    · exact Document.placed_of_mem_check hend.state.document hf
  · intro e he
    refine ⟨e.finding root, ?_, ?_⟩
    · rw [lint, findings, resolve_eq_error he]
      exact List.mergeSort_singleton _
    · cases e <;> rfl

def drums : FileTree :=
  .ofTexts [("drums.sfz", 1), ("hat.sfz", 2), ("ride.sfz", 3)]
    ["/* kit */ #include \"hat.sfz\"", "// hat\n<region> key=1 key=2", "<cymbal>"]
    ⟨by decide, by decide, by decide⟩

theorem holds_drums : drums.Holds "drums.sfz" 1 "/* kit */ #include \"hat.sfz\"" ∧
    drums.Holds "hat.sfz" 2 "// hat\n<region> key=1 key=2" ∧ drums.Holds "ride.sfz" 3 "<cymbal>" :=
  ⟨holds_ofTexts _ (by decide) rfl (by decide), holds_ofTexts _ (by decide) rfl (by decide),
    holds_ofTexts _ (by decide) rfl (by decide)⟩

theorem nodes_drums : drums.nodes ⟨"drums.sfz"⟩ = .ok [.inclusion "hat.sfz" ⟨1, 11⟩] ∧
    drums.nodes ⟨"hat.sfz"⟩ =
      .ok [.header .region ⟨2, 1⟩, .opcode "key" "1" ⟨2, 10⟩, .opcode "key" "2" ⟨2, 16⟩] ∧
    drums.nodes ⟨"ride.sfz"⟩ = .error (.malformed ⟨"ride.sfz"⟩ ⟨⟨1, 1⟩, .unknownHeader "cymbal"⟩) := by
  obtain ⟨hroot, hhat, hride⟩ := holds_drums
  refine ⟨hroot.nodes (by decide +kernel), hhat.nodes (by decide +kernel), ?_⟩
  rw [nodes, hride.read]
  decide +kernel

theorem lint_drums : ∃ vs s,
    drums.resolve ⟨"drums.sfz"⟩ none .empty = .ok s ∧
    Run drums (.start drums ⟨"drums.sfz"⟩ none .empty [.inclusion "hat.sfz" ⟨1, 11⟩]) vs ⟨[], s⟩ ∧
    ⟨.duplicateOpcode, ⟨⟨"hat.sfz"⟩, ⟨2, 16⟩⟩, some "key"⟩ ∈
      (drums.lint (.ofCompiled []) {} ⟨"drums.sfz"⟩).remaining ∧
    (∃ k, .enter k ⟨"hat.sfz"⟩ ∈ vs) ∧ drums.TokenAt ⟨⟨"hat.sfz"⟩, ⟨2, 16⟩⟩ ∧
    ∃ f, (drums.lint (.ofCompiled []) {} ⟨"ride.sfz"⟩).remaining = [f] ∧ f.isError = true := by
  obtain ⟨hroot, hhat, -⟩ := holds_drums
  obtain ⟨hnodes, hnodes', hbad⟩ := nodes_drums
  have hnew : drums.key ⟨"hat.sfz"⟩ ∉ [drums.key ⟨"drums.sfz"⟩] := by
    rw [hroot.key, hhat.key]
    decide
  have hexpand : MacroTable.empty.expand "hat.sfz" = ⟨"hat.sfz", []⟩ := by decide +kernel
  have hjoin : (Path.directory ⟨"drums.sfz"⟩).join ⟨"hat.sfz"⟩ = ⟨"hat.sfz"⟩ := by decide
  have hopen := openInclude_of_expand hexpand hjoin hhat.locateFile? hnew hnodes'
  have hmem : ⟨.duplicateOpcode, ⟨⟨"hat.sfz"⟩, ⟨2, 16⟩⟩, some "key"⟩ ∈
      (drums.lint (.ofCompiled []) {} ⟨"drums.sfz"⟩).remaining := by
    rw [mem_lint, findings, resolve_eq, hnodes, Except.map, Option.getD_none,
      splice_enter _ _ _ _ hopen, splice_nil, splice_visit _ _ _ _ rfl, splice_visit _ _ _ _ rfl,
      splice_visit _ _ _ _ rfl, splice_nil]
    apply List.mem_append_right
    simp only [Document.check, List.mem_append]
    exact .inl (.inl (.inl (.inl (.inr (by decide +kernel)))))
  obtain ⟨hpoints, -⟩ := lint_points_at_tokens drums (.ofCompiled []) {} ⟨"drums.sfz"⟩
  obtain ⟨vs, s, hs, hr, htokens⟩ := hpoints _ hnodes
  obtain ⟨hplace, htoken⟩ := htokens _ hmem
  exact ⟨vs, s, hs, hr, hmem, hplace.resolve_left (by decide), htoken,
    (lint_points_at_tokens drums (.ofCompiled []) {} ⟨"ride.sfz"⟩).2 _ hbad⟩

end FileTree

end Sfz
