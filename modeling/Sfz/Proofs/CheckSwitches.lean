import Mathlib.Data.List.Basic
import Sfz.Proofs.CheckedProblems
import Sfz.Proofs.RegistryLookup

namespace Sfz

namespace Finding

def isVersionError (f : Finding) : Bool :=
  f.isError && ("header spec ".toList.isPrefixOf f.message.toList ||
    "opcode spec ".toList.isPrefixOf f.message.toList)

def IsOnFile (f : Finding) : Prop :=
  (f.severity = .error ∧ f.message = "file not found") ∨
    (f.severity = .warning ∧ ∃ actual, f.message = "case mismatch: found " ++ actual)

def place (f : Finding) : Position × Option String :=
  (f.position, f.opcode)

theorem isOnFile_of_isOfFile {f : Finding} (h : f.problem.isOfFile = true) : f.IsOnFile := by
  obtain ⟨p, position, opcode⟩ := f
  cases p with
  | fileNotFound => exact .inl ⟨rfl, rfl⟩
  | caseMismatch actual => exact .inr ⟨rfl, actual, rfl⟩
  | _ => exact absurd h Bool.false_ne_true

theorem isVersionError_eq {f : Finding} (h : f.problem.isChecked = true) :
    f.isVersionError = f.problem.isVersion := by
  rw [Bool.eq_iff_iff, Problem.isVersion_iff_text h]
  simp [isVersionError, isError, severity, message]

end Finding

def Settings.refuses (s : Settings) (v : Version) : Bool :=
  s.allowedVersions.any (fun allowed => !allowed.contains v)

theorem Settings.refuses_mono {strict lax : Settings} (hs : strict.versions ≠ [])
    (hl : lax.versions ≠ []) (h : Version.allowed strict.versions ⊆ Version.allowed lax.versions) (v : Version)
    (hv : lax.refuses v = true) : strict.refuses v = true := by
  simp only [refuses, allowedVersions, List.isEmpty_iff, hs, hl, if_false, Option.any_some, Bool.not_eq_true',
    List.contains_eq_mem, decide_eq_false_iff_not] at hv ⊢
  exact fun hm => hv (h hm)

def Settings.unselected (s : Settings) : Settings :=
  { s with versions := [] }

namespace Setting

variable (r : Registry) (s : Setting)

theorem versionFindings_eq (settings : Settings) (e : Entry) : s.versionFindings settings e =
    (e.version.filter settings.refuses).toList.map
      (fun v => s.finding (.opcodeVersion v settings.versions)) := by
  unfold versionFindings Settings.refuses
  cases settings.allowedVersions with
  | none => cases e.version <;> simp
  | some allowed =>
    cases e.version with
    | none => rfl
    | some v => by_cases hv : v ∈ allowed <;> simp [hv, Option.filter_some]

theorem isVersion_of_mem_value {e : Entry} {f : Finding}
    (hf : f ∈ if 0 < s.openReferences then [] else ((e.check? s.value).map s.finding).toList) :
    f.problem.isVersion = false := by
  simp only [List.mem_ite_nil_left, Option.mem_toList, Option.map_eq_some_iff] at hf
  obtain ⟨-, p, hp, rfl⟩ := hf
  exact (Problem.isChecked_of_isOfValue (Entry.isOfValue_of_check? hp)).2.1

theorem findings_unselected (settings : Settings) :
    (s.findings r settings).filter (fun f => !f.problem.isVersion) = s.findings r settings.unselected := by
  unfold findings
  rw [List.filter_append, List.filter_replicate]
  congr 1
  cases r.lookup s.name with
  | none => rfl
  | some m =>
    dsimp only
    have hversion : (s.versionFindings settings m.entry).filter (fun f => !f.problem.isVersion) = [] := by
      rw [List.filter_eq_nil_iff]
      intro f hf
      simp [isVersion_of_mem_versionFindings hf]
    have hnone : s.versionFindings settings.unselected m.entry = [] := by
      rw [versionFindings_eq]
      cases m.entry.version <;> rfl
    rw [List.filter_append, hversion, hnone]
    congr 1
    rw [List.filter_eq_self]
    intro f hf
    simp [isVersion_of_mem_value s hf]

theorem findings_isVersion (settings : Settings) :
    (s.findings r settings).filter (fun f => f.problem.isVersion) =
      (r.lookup s.name).toList.flatMap (fun m => s.versionFindings settings m.entry) := by
  unfold findings
  rw [List.filter_append, List.filter_replicate]
  cases r.lookup s.name with
  | none => rfl
  | some m =>
    dsimp only
    have hversion : (s.versionFindings settings m.entry).filter (fun f => f.problem.isVersion) =
        s.versionFindings settings m.entry := by
      rw [List.filter_eq_self]
      exact fun f hf => isVersion_of_mem_versionFindings hf
    have hvalue : (if 0 < s.openReferences then [] else ((m.entry.check? s.value).map s.finding).toList).filter
        (fun f => f.problem.isVersion) = [] := by
      rw [List.filter_eq_nil_iff]
      intro f hf
      simp [isVersion_of_mem_value s hf]
    rw [List.filter_append, hversion, hvalue]
    simp [finding, Problem.isVersion]

variable {strict lax : Settings} (h : ∀ v, lax.refuses v = true → strict.refuses v = true)
include h

theorem places_findings :
    (((s.findings r lax).filter (fun f => f.problem.isVersion)).map Finding.place).Sublist
      (((s.findings r strict).filter (fun f => f.problem.isVersion)).map Finding.place) := by
  rw [findings_isVersion, findings_isVersion]
  cases r.lookup s.name with
  | none => exact .slnil
  | some m =>
    rw [Option.toList_some, List.flatMap_singleton, List.flatMap_singleton, versionFindings_eq,
      versionFindings_eq]
    cases m.entry.version with
    | none => exact .slnil
    | some v =>
      cases hv : lax.refuses v with
      | false => simp [Option.filter_some, hv]
      | true => simp [Option.filter_some, hv, h v hv, finding, Finding.place]

end Setting

namespace Document

theorem headerFindings_unselected (allowed : Option (List Version)) (selected : List Version)
    (seen : List HeaderKind) (hs : List Header) :
    (headerFindings allowed selected seen hs).filter (fun f => !f.problem.isVersion) =
      headerFindings none [] seen hs := by
  induction hs generalizing seen with
  | nil => rfl
  | cons x hs ih =>
    rw [headerFindings, headerFindings, List.filter_append, List.filter_append, ih]
    congr 1
    congr 1
    · split <;> rfl
    · split <;> rfl

theorem sampleFindings_congr {a b : Settings} (h : a.basePath = b.basePath) (t : FileTree) (d : Document)
    (c : Sample.Listings) (ss : List (Nat × Setting)) :
    sampleFindings t a d c ss = sampleFindings t b d c ss := by
  have hbase : sampleBase a = sampleBase b := by
    funext s
    unfold sampleBase
    rw [h]
  induction ss generalizing c with
  | nil => rfl
  | cons s ss ih =>
    rw [sampleFindings, sampleFindings, hbase]
    simp only [ih]

theorem filter_isVersion {fs : List Finding} (h : ∀ f ∈ fs, f.problem.isVersion = false) :
    fs.filter (fun f => !f.problem.isVersion) = fs ∧ fs.filter (fun f => f.problem.isVersion) = [] := by
  rw [List.filter_eq_self, List.filter_eq_nil_iff]
  constructor
  · intro f hf
    simp [h f hf]
  · intro f hf
    simp [h f hf]

section Parts

variable {d : Document} {f : Finding}

theorem isVersion_of_mem_checkDuplicates (hf : f ∈ d.checkDuplicates) : f.problem.isVersion = false := by
  rw [problem_of_mem_checkDuplicates hf]
  rfl

theorem isVersion_of_mem_checkCurves (hf : f ∈ d.checkCurves) : f.problem.isVersion = false := by
  rcases problem_of_mem_checkCurves hf with hp | ⟨k, hp⟩
  · rw [hp]
    rfl
  · rw [hp]
    rfl

theorem isVersion_of_mem_checkRanges (hf : f ∈ d.checkRanges) : f.problem.isVersion = false := by
  obtain ⟨low, lo, high, hi, hp⟩ := problem_of_mem_checkRanges hf
  rw [hp]
  rfl

theorem isVersion_of_mem_samples {t : FileTree} {r : Registry} {settings : Settings}
    (hf : f ∈ if settings.checkFiles then d.checkSamples t r settings else []) :
    f.problem.isVersion = false := by
  rw [List.mem_ite_nil_right] at hf
  exact (Problem.isChecked_of_isOfFile (isOfFile_of_mem_checkSamples hf.2)).2.1

end Parts

variable (d : Document) (t : FileTree) (r : Registry)

theorem check_unselected (settings : Settings) :
    (d.check t r settings).filter (fun f => !f.problem.isVersion) = d.check t r settings.unselected := by
  have hheaders := headerFindings_unselected settings.allowedVersions settings.versions [] d.headers.toList
  have hsettings : (d.checkSettings r settings).filter (fun f => !f.problem.isVersion) =
      d.checkSettings r settings.unselected := by
    unfold checkSettings
    rw [List.filter_flatMap]
    exact List.flatMap_congr (fun s _ => s.2.findings_unselected r settings)
  have hbase : settings.basePath = settings.unselected.basePath := rfl
  have hsamples : d.checkSamples t r settings = d.checkSamples t r settings.unselected :=
    sampleFindings_congr hbase t d _ _
  rw [check, List.filter_append, List.filter_append, List.filter_append, List.filter_append,
    List.filter_append, (filter_isVersion (fun f => isVersion_of_mem_checkDuplicates)).1,
    (filter_isVersion (fun f => isVersion_of_mem_checkCurves)).1,
    (filter_isVersion (fun f => isVersion_of_mem_checkRanges)).1,
    (filter_isVersion (fun f => isVersion_of_mem_samples)).1, checkHeaders, hheaders, hsettings, hsamples]
  rfl

theorem check_isVersion (settings : Settings) :
    (d.check t r settings).filter (fun f => f.problem.isVersion) =
      (d.checkHeaders settings.allowedVersions settings.versions).filter (fun f => f.problem.isVersion) ++
        d.settings.flatMap (fun s => (s.2.findings r settings).filter (fun f => f.problem.isVersion)) := by
  rw [check, List.filter_append, List.filter_append, List.filter_append, List.filter_append,
    List.filter_append, (filter_isVersion (fun f => isVersion_of_mem_checkDuplicates)).2,
    (filter_isVersion (fun f => isVersion_of_mem_checkCurves)).2,
    (filter_isVersion (fun f => isVersion_of_mem_checkRanges)).2,
    (filter_isVersion (fun f => isVersion_of_mem_samples)).2, checkSettings, List.filter_flatMap]
  simp only [List.append_nil]

theorem headerFindings_isVersion (settings : Settings) (seen : List HeaderKind) (hs : List Header) :
    (headerFindings settings.allowedVersions settings.versions seen hs).filter (fun f => f.problem.isVersion) =
      (hs.filter (fun x => settings.refuses x.kind.version)).map
        (fun x => ⟨.headerVersion x.kind.version settings.versions, x.position, none⟩) := by
  induction hs generalizing seen with
  | nil => rfl
  | cons x hs ih =>
    have hrefuses : settings.allowedVersions.any (fun vs => !vs.contains x.kind.version) =
        settings.refuses x.kind.version := rfl
    have hrepeated : ∀ b : Bool, List.filter (fun f => f.problem.isVersion)
        (if b then [(⟨.repeatedHeader x.kind, x.position, none⟩ : Finding)] else []) = [] := by
      intro b
      cases b <;> rfl
    rw [headerFindings, List.filter_append, List.filter_append, ih, hrefuses, hrepeated, List.append_nil,
      List.filter_cons]
    cases settings.refuses x.kind.version <;> rfl

theorem places_check {strict lax : Settings} (h : ∀ v, lax.refuses v = true → strict.refuses v = true) :
    (((d.check t r lax).filter (fun f => f.problem.isVersion)).map Finding.place).Sublist
      (((d.check t r strict).filter (fun f => f.problem.isVersion)).map Finding.place) := by
  have hheaders := List.monotone_filter_right d.headers.toList
    (fun x (hx : lax.refuses x.kind.version = true) => h x.kind.version hx)
  rw [check_isVersion, check_isVersion, checkHeaders, checkHeaders, headerFindings_isVersion,
    headerFindings_isVersion, List.map_append, List.map_append, List.map_map, List.map_map, List.map_flatMap,
    List.map_flatMap]
  apply List.Sublist.append (hheaders.map (fun x => (x.position, none)))
  induction d.settings with
  | nil => exact .slnil
  | cons s ss ih => exact (s.2.places_findings r h).append ih

theorem filter_isVersionError (settings : Settings) :
    (d.check t r settings).filter (fun f => !f.isVersionError) =
        (d.check t r settings).filter (fun f => !f.problem.isVersion) ∧
      (d.check t r settings).filter (fun f => f.isVersionError) =
        (d.check t r settings).filter (fun f => f.problem.isVersion) := by
  have heq : ∀ f ∈ d.check t r settings, f.isVersionError = f.problem.isVersion :=
    fun f hf => Finding.isVersionError_eq (isChecked_of_mem_check hf)
  exact ⟨List.filter_congr (fun f hf => congrArg Bool.not (heq f hf)), List.filter_congr heq⟩

theorem check_switches (settings : Settings) :
    (∀ base, ∃ files,
      d.check t r { settings with checkFiles := false, basePath := base } =
        d.check t r { settings with checkFiles := false } ∧
      d.check t r { settings with checkFiles := true, basePath := base } =
        d.check t r { settings with checkFiles := false } ++ files ∧
      ∀ f ∈ files, f.IsOnFile) ∧
    (∀ strict lax : List Version, strict ≠ [] → lax ≠ [] → Version.allowed strict ⊆ Version.allowed lax →
      (d.check t r { settings with versions := strict }).filter (fun f => !f.isVersionError) =
        (d.check t r { settings with versions := lax }).filter (fun f => !f.isVersionError) ∧
      (((d.check t r { settings with versions := lax }).filter (fun f => f.isVersionError)).map
        Finding.place).Sublist
        (((d.check t r { settings with versions := strict }).filter (fun f => f.isVersionError)).map
          Finding.place)) ∧
    ∀ selected : List Version, d.check t r { settings with versions := [] } =
      (d.check t r { settings with versions := selected }).filter (fun f => !f.isVersionError) := by
  have hunselected : ∀ selected : List Version,
      (d.check t r { settings with versions := selected }).filter (fun f => !f.isVersionError) =
        d.check t r { settings with versions := [] } := by
    intro selected
    rw [(filter_isVersionError d t r _).1, check_unselected]
    rfl
  refine ⟨?_, ?_, ?_⟩
  · intro base
    refine ⟨d.checkSamples t r { settings with checkFiles := true, basePath := base }, rfl, ?_, ?_⟩
    · simp only [check, Bool.false_eq_true, if_true, if_false, List.append_nil]
      rfl
    · exact fun f hf => Finding.isOnFile_of_isOfFile (isOfFile_of_mem_checkSamples hf)
  · intro strict lax hs hl hsub
    refine ⟨by rw [hunselected, hunselected], ?_⟩
    rw [(filter_isVersionError d t r _).2, (filter_isVersionError d t r _).2]
    exact places_check d t r (fun v => Settings.refuses_mono hs hl hsub v)
  · exact fun selected => (hunselected selected).symm

def layered : Document where
  root := ⟨"kit/drums.sfz"⟩
  headers := #[⟨.master, ⟨⟨"kit/drums.sfz"⟩, ⟨1, 1⟩⟩,
    #[⟨"amplitude", "loud", ⟨⟨"kit/drums.sfz"⟩, ⟨1, 10⟩⟩⟩], none, none⟩]
  definitions := #[]

def amplitude : Entry :=
  ⟨"amplitude", .float, ⟨none, none⟩, [], [], none, some .aria⟩

theorem lookup_amplitude : (Registry.ofCompiled [(amplitude, [⟨amplitude, false, .exact "amplitude"⟩])]).lookup
    "amplitude" = some ⟨amplitude, .exact, []⟩ :=
  (Registry.lookup_eq_least _ _).trans (by decide)

theorem check_switches_layered :
    let r := Registry.ofCompiled [(amplitude, [⟨amplitude, false, .exact "amplitude"⟩])]
    ((layered.check .empty r { versions := [.v1] }).filter (fun f => f.isVersionError)).map Finding.place =
      [(⟨⟨"kit/drums.sfz"⟩, ⟨1, 1⟩⟩, none), (⟨⟨"kit/drums.sfz"⟩, ⟨1, 10⟩⟩, some "amplitude")] ∧
    (layered.check .empty r { versions := [.v1] }).filter (fun f => !f.isVersionError) =
      (layered.check .empty r { versions := [.v2, .aria] }).filter (fun f => !f.isVersionError) := by
  intro r
  have h := (check_switches layered .empty r {}).2.1 [.v1] [.v2, .aria] (by decide) (by decide) (by decide)
  refine ⟨?_, h.1⟩
  rw [(filter_isVersionError _ _ _ _).2, check_isVersion]
  have hs : layered.settings = [(0, ⟨"amplitude", "loud", ⟨⟨"kit/drums.sfz"⟩, ⟨1, 10⟩⟩⟩)] := rfl
  rw [hs, List.flatMap_singleton, Setting.findings_isVersion, lookup_amplitude]
  decide

end Document

end Sfz
