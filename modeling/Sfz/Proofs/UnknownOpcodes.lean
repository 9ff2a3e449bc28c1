import Sfz.CommandLine
import Sfz.Proofs.CheckedProblems
import Sfz.Proofs.FindingPlaces
import Sfz.Proofs.RegistryLookup

namespace Sfz

section EraseReps

variable {α : Type} [BEq α] [LawfulBEq α]

theorem mem_eraseRepsBy_loop {x a : α} {l acc : List α} :
    x ∈ List.eraseRepsBy.loop (fun b c => b == c) a l acc ↔ x ∈ acc ∨ x = a ∨ x ∈ l := by
  induction l generalizing a acc with
  | nil => simp [List.eraseRepsBy.loop, or_comm]
  | cons b l ih =>
    rw [List.eraseRepsBy.loop]
    split
    next hab =>
      obtain rfl := eq_of_beq hab
      rw [ih, List.mem_cons]
      tauto
    next =>
      rw [ih, List.mem_cons, List.mem_cons]
      tauto

theorem mem_eraseReps {x : α} {l : List α} : x ∈ l.eraseReps ↔ x ∈ l := by
  cases l with
  | nil => rfl
  | cons a l =>
    rw [List.mem_cons]
    exact mem_eraseRepsBy_loop.trans (by simp)

end EraseReps

namespace Problem

theorem ne_of_two_blanks {text : String} (before words after : String)
    (h : text = before ++ words ++ after) (hw : 1 < words.toList.count ' ') : text ≠ "unknown opcode" := by
  rintro rfl
  have hcount := congrArg (fun s : String => s.toList.count ' ') h
  simp only [String.toList_append, List.count_append] at hcount
  have hone : "unknown opcode".toList.count ' ' = 1 := by decide
  omega

/-- Of the problems that checks report, those that quote something have at least two blanks. -/
theorem eq_unknownOpcode_iff_text {p : Problem} (h : p.isChecked = true) : p = .unknownOpcode ↔
    p.severity = .warning ∧ p.message = "unknown opcode" := by
  constructor
  · rintro rfl
    exact ⟨rfl, rfl⟩
  · rintro ⟨hs, hm⟩
    cases p with
    | unknownOpcode => rfl
    | duplicateOpcode => exact absurd hm (by decide)
    | negativeCurve => exact absurd hm (by decide)
    | repeatedHeader kind =>
      exact absurd hm (ne_of_two_blanks _ " header allowed" "" String.append_empty.symm (by decide))
    | noOption value options =>
      exact absurd hm (ne_of_two_blanks value " not one of " _ rfl (by decide))
    | outOfRange value min max => exact absurd hm (ne_of_two_blanks _ " to " _ rfl (by decide))
    | belowMinimum value min =>
      exact absurd hm (ne_of_two_blanks value " less than minimum of " _ rfl (by decide))
    | aboveMaximum value max =>
      exact absurd hm (ne_of_two_blanks value " greater than maximum of " _ rfl (by decide))
    | undefinedCurve index =>
      exact absurd hm (ne_of_two_blanks _ " referenced but not defined" "" String.append_empty.symm (by decide))
    | invertedRange low lowValue high highValue =>
      have htext : low ++ " " ++ lowValue ++ " greater than " ++ high ++ " " ++ highValue =
          low ++ " " ++ lowValue ++ " greater than " ++ (high ++ " " ++ highValue) := by
        simp only [String.append_assoc]
      exact absurd hm (ne_of_two_blanks _ " greater than " _ htext (by decide))
    | caseMismatch actual =>
      have htext : "case mismatch: found " ++ actual = "" ++ "case mismatch: found " ++ actual := by
        rw [String.empty_append]
      exact absurd hm (ne_of_two_blanks "" "case mismatch: found " actual htext (by decide))
    | _ => simp [isChecked, severity] at h hs

theorem ne_unknownOpcode_of_isVersion {p : Problem} (h : p.isVersion = true) : p ≠ .unknownOpcode := by
  rintro rfl
  exact absurd h nofun

end Problem

def Finding.WarnsOfUnknown (f : Finding) : Prop :=
  f.severity = .warning ∧ f.message = "unknown opcode"

namespace Document

variable {d : Document} {t : FileTree} {r : Registry} {settings : Settings} {f : Finding}

theorem mem_check_unknownOpcode : f ∈ d.check t r settings ∧ f.problem = .unknownOpcode ↔
    ∃ s ∈ d.settings, r.lookup s.2.name = none ∧ f = s.2.finding .unknownOpcode := by
  constructor
  · rintro ⟨hf, hp⟩
    simp only [check, List.mem_append, List.mem_ite_nil_right] at hf
    rcases hf with ((((hf | hf) | hf) | hf) | hf) | ⟨-, hf⟩
    · rcases problem_of_mem_headerFindings hf with hv | ⟨kind, hk⟩
      · exact absurd hp (Problem.ne_unknownOpcode_of_isVersion hv)
      · cases hk.symm.trans hp
    · cases (problem_of_mem_checkDuplicates hf).symm.trans hp
    · obtain ⟨s, hs, hf⟩ := List.mem_flatMap.mp hf
      rcases Setting.mem_findings hf with rfl | ⟨hnone, rfl⟩ | ⟨m, -, hv⟩ | ⟨p, hvalue, rfl⟩
      · cases hp
      · exact ⟨s, hs, hnone, rfl⟩
      · exact absurd hp (Problem.ne_unknownOpcode_of_isVersion (Setting.isVersion_of_mem_versionFindings hv))
      · exact absurd hp (Problem.isChecked_of_isOfValue hvalue).2.2
    · rcases problem_of_mem_checkCurves hf with hk | ⟨k, hk⟩
      · cases hk.symm.trans hp
      · cases hk.symm.trans hp
    · obtain ⟨low, lo, high, hi, hk⟩ := problem_of_mem_checkRanges hf
      cases hk.symm.trans hp
    · exact absurd hp (Problem.isChecked_of_isOfFile (isOfFile_of_mem_checkSamples hf)).2.2
  · rintro ⟨s, hs, hnone, rfl⟩
    refine ⟨?_, rfl⟩
    simp only [check, List.mem_append]
    refine .inl (.inl (.inl (.inr (List.mem_flatMap.mpr ⟨s, hs, ?_⟩))))
    rw [Setting.findings, hnone]
    exact List.mem_append_right _ (List.mem_singleton.mpr rfl)

end Document

namespace Resolution

def OnlyErrors (s : Resolution) : Prop :=
  ∀ f ∈ s.findings.toList, f.severity = .error

namespace OnlyErrors

variable {s : Resolution}

theorem report (h : s.OnlyErrors) {f : Finding} (hf : f.severity = .error) : (s.report f).OnlyErrors := by
  intro g hg
  rw [Resolution.report, Array.toList_push, List.mem_append, List.mem_singleton] at hg
  rcases hg with hg | rfl
  · exact h g hg
  · exact hf

theorem assign (h : s.OnlyErrors) (raw value : String) (p : Position) :
    (s.assign raw value p).OnlyErrors := by
  have hundefined : ∀ (names : List String) (s : Resolution), s.OnlyErrors →
      Resolution.OnlyErrors { s with
        findings := names.foldl (fun fs _ => fs.push ⟨.undefinedMacro, p, some raw⟩) s.findings } := by
    intro names
    induction names with
    | nil => exact fun s hs => hs
    | cons name names ih => exact fun s hs => ih _ (hs.report rfl)
  have hs := hundefined (s.macros.expand raw).undefined s h
  unfold Resolution.assign
  dsimp only
  split
  · exact hs
  · exact hs.report rfl

theorem visit (h : s.OnlyErrors) (file : Path) (n : Node) : (s.visit file n).OnlyErrors := by
  cases n with
  | opcode name value span => exact h.assign name value ⟨file, span⟩
  | _ => exact h

theorem refuse {t : FileTree} {chain : List FileKey} {base : Path} {raw : String} {problem : Problem}
    (h : s.OnlyErrors) (ho : openInclude t chain s.macros base raw = .error problem) (p : Position) :
    (s.report ⟨problem, p, none⟩).OnlyErrors := by
  apply h.report
  cases openInclude_eq_iff.mp ho with
  | undefined => rfl
  | missing => rfl
  | cycle => rfl
  | failed => rfl

theorem splice {t : FileTree} {chain : List FileKey} {file base : Path} {ns : List Node}
    (h : s.OnlyErrors) : (Sfz.splice t chain file base ns s).OnlyErrors := by
  induction chain, file, base, ns, s using splice_induction (t := t) with
  | nil chain file base s => rwa [splice_nil]
  | visit chain file base n ns s hn ih =>
    rw [splice_visit _ _ _ _ hn]
    exact ih (h.visit file n)
  | refuse chain file base raw span ns s problem ho ih =>
    rw [splice_refuse _ _ _ _ ho]
    exact ih (h.refuse ho _)
  | enter chain file base raw span ns s o ho ih ih' =>
    rw [splice_enter _ _ _ _ ho]
    exact ih' (ih h)

end OnlyErrors

end Resolution

namespace FileTree

variable {t : FileTree} {r : Registry} {settings : Settings} {root : Path}

theorem onlyErrors_resolve {base : Option Path} {macros : MacroTable} {s : Resolution}
    (h : t.resolve root base macros = .ok s) : s.OnlyErrors := by
  obtain ⟨nodes, -, hs⟩ := bind_eq_ok.mp h
  obtain rfl := pure_eq_ok.mp hs
  exact Resolution.OnlyErrors.splice (fun f hf => absurd hf List.not_mem_nil)

theorem severity_finding (e : SourceError) (root : Path) : (e.finding root).severity = .error := by
  cases e <;> rfl

theorem mem_lint_unknown {f : Finding} :
    f ∈ (t.lint r settings root).remaining ∧ f.WarnsOfUnknown ↔
      ∃ s, t.resolve root settings.basePath .empty = .ok s ∧
        ∃ a ∈ s.builder.document.settings, r.lookup a.2.name = none ∧ f = a.2.finding .unknownOpcode := by
  rw [mem_lint, findings]
  cases hs : t.resolve root settings.basePath .empty with
  | error e =>
    constructor
    · rintro ⟨hf, hwarns, -⟩
      rw [List.mem_singleton.mp hf, severity_finding] at hwarns
      cases hwarns
    · rintro ⟨s, hs, -⟩
      cases hs
  | ok s =>
    constructor
    · rintro ⟨hf, hwarns⟩
      rcases List.mem_append.mp hf with hf | hf
      · cases (onlyErrors_resolve hs f hf).symm.trans hwarns.1
      · have hp := (Problem.eq_unknownOpcode_iff_text (Document.isChecked_of_mem_check hf)).mpr hwarns
        exact ⟨s, rfl, Document.mem_check_unknownOpcode.mp ⟨hf, hp⟩⟩
    · rintro ⟨s', hs', hf⟩
      obtain rfl := Except.ok.inj hs'
      obtain ⟨hf, hp⟩ := Document.mem_check_unknownOpcode.mpr hf
      exact ⟨List.mem_append_right _ hf,
        (Problem.eq_unknownOpcode_iff_text (Document.isChecked_of_mem_check hf)).mp hp⟩

theorem mem_usedOpcodes {roots : List Path} {name : String} : name ∈ t.usedOpcodes roots ↔
    ∃ root ∈ roots, ∃ s, t.resolve root none .empty = .ok s ∧
      ∃ a ∈ s.builder.document.settings, a.2.name = name := by
  rw [usedOpcodes, mem_eraseReps, List.mem_mergeSort, List.mem_flatMap]
  apply exists_congr
  intro root
  apply and_congr_right
  intro _
  cases t.resolve root none .empty with
  | error e => simp
  | ok s => simp

theorem usedOpcodes_of_error {e : SourceError} (h : t.resolve root none .empty = .error e)
    (before after : List Path) : t.usedOpcodes (before ++ root :: after) = t.usedOpcodes (before ++ after) := by
  unfold usedOpcodes
  simp only [List.flatMap_append, List.flatMap_cons, h, List.nil_append]

end FileTree

theorem le_length_padEnd (width : Nat) (s : String) : width ≤ (padEnd width s).length := by
  rw [padEnd, String.length_append, String.length_ofList, List.length_replicate]
  omega

theorem Entry.le_length_line (e : Entry) : nameWidth ≤ e.line.length := by
  have hname := le_length_padEnd nameWidth e.name
  simp only [line, String.length_append]
  omega

namespace CommandLine

/-- The line of a known opcode ends with that of its entry, which is too long for the mark. -/
theorem usedLine?_eq_unknown_iff (r : Registry) (selected : List Entry) (name : String) :
    usedLine? r selected false name = some (padEnd Entry.nameWidth name ++ " unknown") ↔
      r.lookup name = none := by
  unfold usedLine?
  cases r.lookup name with
  | none => simp
  | some m =>
    refine iff_of_false ?_ nofun
    dsimp only
    split
    · intro h
      have hlength := congrArg String.length (Option.some.inj h)
      have hline := m.entry.le_length_line
      have hmark : " unknown".length = 8 := rfl
      have hblank : " ".length = 1 := rfl
      simp only [String.length_append, hmark, hblank] at hlength
      unfold Entry.nameWidth at hline hlength
      omega
    · exact nofun

theorem list_and_lint_agree (t : FileTree) (r : Registry) (files : List Path) :
    (listOutcome t r none [] (some files)).lines =
      (t.usedOpcodes files).filterMap (usedLine? r (r.select none []) false) ∧
    (∀ name, usedLine? r (r.select none []) false name = some (padEnd Entry.nameWidth name ++ " unknown") ↔
      r.lookup name = none) ∧
    (∀ name, name ∈ t.usedOpcodes files ∧ r.lookup name = none ↔
      ∃ file ∈ files, ∃ f ∈ (t.lint r {} file).remaining, f.WarnsOfUnknown ∧ f.opcode = some name) ∧
    ∀ file e, t.resolve file none .empty = .error e →
      (∀ before after, t.usedOpcodes (before ++ file :: after) = t.usedOpcodes (before ++ after)) ∧
      ∀ f ∈ (t.lint r {} file).remaining, ¬f.WarnsOfUnknown := by
  refine ⟨rfl, usedLine?_eq_unknown_iff r _, ?_, ?_⟩
  · intro name
    constructor
    · rintro ⟨hused, hnone⟩
      obtain ⟨file, hfile, s, hs, a, ha, rfl⟩ := FileTree.mem_usedOpcodes.mp hused
      have hwarned : a.2.finding .unknownOpcode ∈ (t.lint r {} file).remaining ∧
          (a.2.finding .unknownOpcode).WarnsOfUnknown :=
        FileTree.mem_lint_unknown.mpr ⟨s, hs, a, ha, hnone, rfl⟩
      exact ⟨file, hfile, _, hwarned.1, hwarned.2, rfl⟩
    · rintro ⟨file, hfile, f, hf, hwarns, hname⟩
      obtain ⟨s, hs, a, ha, hnone, rfl⟩ := FileTree.mem_lint_unknown.mp ⟨hf, hwarns⟩
      obtain rfl := Option.some.inj hname
      exact ⟨FileTree.mem_usedOpcodes.mpr ⟨file, hfile, s, hs, a, ha, rfl⟩, hnone⟩
  · intro file e he
    refine ⟨FileTree.usedOpcodes_of_error he, ?_⟩
    intro f hf hwarns
    obtain ⟨s, hs, -⟩ := FileTree.mem_lint_unknown.mp ⟨hf, hwarns⟩
    exact absurd (he.symm.trans hs) nofun

section Drums

open FileTree

theorem lookup_key : (Registry.ofCompiled []).lookup "key" = none :=
  (Registry.lookup_eq_least _ _).trans (by decide)

theorem list_and_lint_agree_drums :
    (∃ f ∈ (drums.lint (.ofCompiled []) {} ⟨"hat.sfz"⟩).remaining,
      f.WarnsOfUnknown ∧ f.opcode = some "key") ∧
    drums.usedOpcodes [⟨"hat.sfz"⟩, ⟨"ride.sfz"⟩] = drums.usedOpcodes [⟨"hat.sfz"⟩] ∧
    ∀ f ∈ (drums.lint (.ofCompiled []) {} ⟨"ride.sfz"⟩).remaining, ¬f.WarnsOfUnknown := by
  obtain ⟨-, hnodes, hbad⟩ := nodes_drums
  have hused : "key" ∈ drums.usedOpcodes [⟨"hat.sfz"⟩] := by
    apply mem_usedOpcodes.mpr
    refine ⟨⟨"hat.sfz"⟩, List.mem_singleton.mpr rfl, ?_⟩
    rw [resolve_eq, hnodes, Except.map, splice_visit _ _ _ _ rfl, splice_visit _ _ _ _ rfl,
      splice_visit _ _ _ _ rfl, splice_nil]
    exact ⟨_, rfl, by decide +kernel⟩
  obtain ⟨-, -, hagree, hfails⟩ := list_and_lint_agree drums (.ofCompiled []) [⟨"hat.sfz"⟩]
  obtain ⟨hskipped, hquiet⟩ := hfails _ _ (resolve_eq_error hbad none .empty)
  obtain ⟨file, hfile, hwarns⟩ := (hagree "key").mp ⟨hused, lookup_key⟩
  obtain rfl := List.mem_singleton.mp hfile
  exact ⟨hwarns, hskipped [⟨"hat.sfz"⟩] [], hquiet⟩

end Drums

end CommandLine

end Sfz
