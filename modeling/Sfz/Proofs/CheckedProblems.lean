import Sfz.Check

namespace Sfz

namespace Problem

def isChecked : Problem → Bool
  | .headerVersion .. | .repeatedHeader _ | .duplicateOpcode | .undefinedMacro | .unknownOpcode
  | .opcodeVersion .. | .wrongType .. | .noOption .. | .outOfRange .. | .belowMinimum ..
  | .aboveMaximum .. | .negativeCurve | .undefinedCurve _ | .invertedRange .. | .fileNotFound
  | .caseMismatch _ => true
  | _ => false

def isVersion : Problem → Bool
  | .headerVersion .. | .opcodeVersion .. => true
  | _ => false

def isOfValue : Problem → Bool
  | .wrongType .. | .noOption .. | .outOfRange .. | .belowMinimum .. | .aboveMaximum .. => true
  | _ => false

def isOfFile : Problem → Bool
  | .fileNotFound | .caseMismatch _ => true
  | _ => false

theorem isChecked_of_isVersion {p : Problem} (h : p.isVersion = true) : p.isChecked = true := by
  revert h
  cases p <;> simp [isVersion, isChecked]

theorem isChecked_of_isOfValue {p : Problem} (h : p.isOfValue = true) :
    p.isChecked = true ∧ p.isVersion = false ∧ p ≠ .unknownOpcode := by
  revert h
  cases p <;> simp [isOfValue, isChecked, isVersion]

theorem isChecked_of_isOfFile {p : Problem} (h : p.isOfFile = true) :
    p.isChecked = true ∧ p.isVersion = false ∧ p ≠ .unknownOpcode := by
  revert h
  cases p <;> simp [isOfFile, isChecked, isVersion]

theorem isVersion_iff_text {p : Problem} (h : p.isChecked = true) : p.isVersion = true ↔
    p.severity = .error ∧
      ("header spec ".toList <+: p.message.toList ∨ "opcode spec ".toList <+: p.message.toList) := by
  cases p with
  | headerVersion v selected =>
    refine iff_of_true rfl ⟨rfl, .inl ?_⟩
    change _ <+: ("header spec " ++ v.name ++ " not in " ++ Version.listText selected).toList
    simp only [String.toList_append, List.append_assoc]
    exact List.prefix_append _ _
  | opcodeVersion v selected =>
    refine iff_of_true rfl ⟨rfl, .inr ?_⟩
    change _ <+: ("opcode spec " ++ v.name ++ " is not one of " ++ Version.listText selected).toList
    simp only [String.toList_append, List.append_assoc]
    exact List.prefix_append _ _
  | undefinedMacro => decide
  | fileNotFound => decide
  | wrongType expected value =>
    refine iff_of_false Bool.false_ne_true ?_
    have hwords : "expected ".toList <+: ("expected " ++ expected.name ++ " got " ++ value).toList := by
      simp only [String.toList_append, List.append_assoc]
      exact List.prefix_append _ _
    rintro ⟨-, hheader | hopcode⟩
    · exact absurd (List.prefix_of_prefix_length_le hwords hheader (by decide)) (by decide)
    · exact absurd (List.prefix_of_prefix_length_le hwords hopcode (by decide)) (by decide)
  | _ => simp [isChecked, isVersion, severity] at h ⊢

end Problem

theorem Bounds.isOfValue_of_check? {b : Bounds} {value : String} {n : Binary64} {p : Problem}
    (h : b.check? value n = some p) : p.isOfValue = true := by
  unfold check? at h
  split at h
  · split at h
    · obtain rfl := Option.some.inj h
      rfl
    · exact absurd h nofun
  · split at h
    · obtain rfl := Option.some.inj h
      rfl
    · exact absurd h nofun
  · split at h
    · obtain rfl := Option.some.inj h
      rfl
    · exact absurd h nofun
  · exact absurd h nofun

theorem Entry.isOfValue_of_check? {e : Entry} {value : String} {p : Problem}
    (h : e.check? value = some p) : p.isOfValue = true := by
  unfold check? at h
  split at h
  · exact absurd h nofun
  · exact absurd h nofun
  · split at h
    · exact absurd h nofun
    · obtain rfl := Option.some.inj h
      rfl
  · split at h
    · exact Bounds.isOfValue_of_check? h
    · obtain rfl := Option.some.inj h
      rfl

namespace Setting

variable {r : Registry} {settings : Settings} {s : Setting} {f : Finding}

theorem isVersion_of_mem_versionFindings {e : Entry} (hf : f ∈ s.versionFindings settings e) :
    f.problem.isVersion = true := by
  unfold versionFindings at hf
  split at hf
  · simp only [List.mem_ite_nil_left, List.mem_singleton] at hf
    rw [hf.2]
    rfl
  · exact absurd hf List.not_mem_nil

theorem mem_findings (hf : f ∈ s.findings r settings) :
    f = s.finding .undefinedMacro ∨
    (r.lookup s.name = none ∧ f = s.finding .unknownOpcode) ∨
    (∃ m, r.lookup s.name = some m ∧ f ∈ s.versionFindings settings m.entry) ∨
    ∃ p, p.isOfValue = true ∧ f = s.finding p := by
  rw [findings, List.mem_append] at hf
  rcases hf with hf | hf
  · exact .inl (List.eq_of_mem_replicate hf)
  · right
    split at hf
    next hnone => exact .inl ⟨hnone, List.mem_singleton.mp hf⟩
    next m hm =>
      right
      rcases List.mem_append.mp hf with hf | hf
      · exact .inl ⟨m, hm, hf⟩
      · right
        simp only [List.mem_ite_nil_left, Option.mem_toList, Option.map_eq_some_iff] at hf
        obtain ⟨-, p, hp, rfl⟩ := hf
        exact ⟨p, Entry.isOfValue_of_check? hp, rfl⟩

theorem isChecked_of_mem_findings (hf : f ∈ s.findings r settings) : f.problem.isChecked = true := by
  rcases mem_findings hf with rfl | ⟨-, rfl⟩ | ⟨m, -, hf⟩ | ⟨p, hp, rfl⟩
  · rfl
  · rfl
  · exact Problem.isChecked_of_isVersion (isVersion_of_mem_versionFindings hf)
  · exact (Problem.isChecked_of_isOfValue hp).1

end Setting

namespace Document

variable {d : Document} {f : Finding}

theorem problem_of_mem_headerFindings {allowed : Option (List Version)} {selected : List Version}
    {seen : List HeaderKind} {hs : List Header} (hf : f ∈ headerFindings allowed selected seen hs) :
    f.problem.isVersion = true ∨ ∃ kind, f.problem = .repeatedHeader kind := by
  induction hs generalizing seen with
  | nil => exact absurd hf List.not_mem_nil
  | cons h hs ih =>
    simp only [headerFindings, List.mem_append, List.mem_ite_nil_right, List.mem_singleton] at hf
    rcases hf with (⟨-, rfl⟩ | ⟨-, rfl⟩) | hf
    · exact .inl rfl
    · exact .inr ⟨_, rfl⟩
    · exact ih hf

theorem problem_of_mem_duplicateFindings {seen : List String} {ss : List Setting}
    (hf : f ∈ duplicateFindings seen ss) : f.problem = .duplicateOpcode := by
  induction ss generalizing seen with
  | nil => exact absurd hf List.not_mem_nil
  | cons s ss ih =>
    simp only [duplicateFindings, List.mem_append, List.mem_ite_nil_right, List.mem_singleton] at hf
    rcases hf with ⟨-, rfl⟩ | hf
    · rfl
    · exact ih hf

theorem problem_of_mem_checkDuplicates (hf : f ∈ d.checkDuplicates) : f.problem = .duplicateOpcode := by
  obtain ⟨h, -, hf⟩ := List.mem_flatMap.mp hf
  exact problem_of_mem_duplicateFindings hf

theorem curveProblem?_eq_some {declared : List Nat} {value : String} {p : Problem}
    (h : curveProblem? declared value = some p) : p = .negativeCurve ∨ ∃ k, p = .undefinedCurve k := by
  unfold curveProblem? at h
  split at h
  · exact absurd h nofun
  · split at h
    · exact .inl (Option.some.inj h).symm
    · split at h
      · exact absurd h nofun
      · exact .inr ⟨_, (Option.some.inj h).symm⟩

theorem problem_of_mem_checkCurves (hf : f ∈ d.checkCurves) :
    f.problem = .negativeCurve ∨ ∃ k, f.problem = .undefinedCurve k := by
  obtain ⟨s, -, hf⟩ := List.mem_filterMap.mp hf
  rw [Option.ite_none_right_eq_some, Option.map_eq_some_iff] at hf
  obtain ⟨-, p, hp, rfl⟩ := hf
  exact curveProblem?_eq_some hp

theorem problem_of_mem_checkRanges (hf : f ∈ d.checkRanges) :
    ∃ low lo high hi, f.problem = .invertedRange low lo high hi := by
  obtain ⟨h, -, hf⟩ := List.mem_flatMap.mp hf
  rw [List.mem_ite_nil_right, List.mem_filterMap] at hf
  obtain ⟨-, pair, -, hf⟩ := hf
  obtain ⟨p, hp, rfl⟩ := Option.map_eq_some_iff.mp hf
  simp only [rangeProblem?, Option.bind_eq_bind, Option.bind_eq_some_iff, Option.ite_none_right_eq_some] at hp
  obtain ⟨lo, -, hi, -, l, -, h, -, -, hp⟩ := hp
  exact ⟨_, _, _, _, (Option.some.inj hp).symm⟩

theorem isOfFile_of_mem_sampleFindings {t : FileTree} {settings : Settings} {c : Sample.Listings}
    {ss : List (Nat × Setting)} (hf : f ∈ sampleFindings t settings d c ss) :
    f.problem.isOfFile = true := by
  induction ss generalizing c with
  | nil => exact absurd hf List.not_mem_nil
  | cons s ss ih =>
    rw [sampleFindings] at hf
    split at hf
    · exact ih hf
    · rw [List.mem_append, Option.mem_toList, Option.map_eq_some_iff] at hf
      rcases hf with ⟨p, hp, rfl⟩ | hf
      · unfold sampleProblem? at hp
        split at hp
        · exact absurd hp nofun
        · exact absurd hp nofun
        · obtain rfl := Option.some.inj hp
          rfl
        · obtain rfl := Option.some.inj hp
          rfl
      · exact ih hf

theorem isOfFile_of_mem_checkSamples {t : FileTree} {r : Registry} {settings : Settings}
    (hf : f ∈ d.checkSamples t r settings) : f.problem.isOfFile = true :=
  isOfFile_of_mem_sampleFindings hf

theorem isChecked_of_mem_check {t : FileTree} {r : Registry} {settings : Settings}
    (hf : f ∈ d.check t r settings) : f.problem.isChecked = true := by
  simp only [check, List.mem_append, List.mem_ite_nil_right] at hf
  rcases hf with ((((hf | hf) | hf) | hf) | hf) | ⟨-, hf⟩
  · rcases problem_of_mem_headerFindings hf with hv | ⟨kind, hk⟩
    · exact Problem.isChecked_of_isVersion hv
    · rw [hk]
      rfl
  · rw [problem_of_mem_checkDuplicates hf]
    rfl
  · obtain ⟨s, -, hf⟩ := List.mem_flatMap.mp hf
    exact Setting.isChecked_of_mem_findings hf
  · rcases problem_of_mem_checkCurves hf with hp | ⟨k, hp⟩
    · rw [hp]
      rfl
    · rw [hp]
      rfl
  · obtain ⟨low, lo, high, hi, hp⟩ := problem_of_mem_checkRanges hf
    rw [hp]
    rfl
  · exact (Problem.isChecked_of_isOfFile (isOfFile_of_mem_checkSamples hf)).1

end Document

end Sfz
