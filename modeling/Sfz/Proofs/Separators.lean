import Sfz.Proofs.CurveReferences
import Sfz.Proofs.ErasedDirectives
import Sfz.Proofs.FreshAnswers
import Sfz.Proofs.RegistryLookup

/-!
Slashes and backslashes in paths. Main statement: the findings on a document stay the same when slashes
and backslashes are exchanged for one another in the values of path opcodes and in default paths, if a
default path may be any text. Every check reads a value in one of two ways: it turns all separators into
slashes first, or it reads a number or a key, and a text that has a separator in it is neither.
-/

namespace Sfz

open Text Number

def isSeparator (c : Char) : Bool :=
  c == '/' || c == '\\'

def Solid (cs : List Char) : Prop :=
  ∀ c ∈ cs, isSeparator c = false

def SameButSeparators (v w : String) : Prop :=
  List.Forall₂ (fun a b => a = b ∨ isSeparator a = true ∧ isSeparator b = true) v.toList w.toList

instance (v w : String) : Decidable (SameButSeparators v w) :=
  decidable_of_iff (v.toList.length = w.toList.length ∧ ∀ p ∈ v.toList.zip w.toList,
      p.1 = p.2 ∨ isSeparator p.1 = true ∧ isSeparator p.2 = true)
    (by simp only [SameButSeparators, List.forall₂_iff_zip, Prod.forall])

theorem isSeparator_iff {c : Char} : isSeparator c = true ↔ c = '/' ∨ c = '\\' := by
  simp [isSeparator]

theorem isSeparator_eq_false {c : Char} (p : Char → Bool) (hc : p c = true) (hslash : p '/' = false)
    (hback : p '\\' = false) : isSeparator c = false := by
  rw [Bool.eq_false_iff]
  intro hs
  rcases isSeparator_iff.mp hs with rfl | rfl
  · simp [hslash] at hc
  · simp [hback] at hc

theorem map_eq_map_of_forall₂ {α β γ : Type} {R : α → β → Prop} {as : List α} {bs : List β} {f : α → γ}
    {g : β → γ} (hr : List.Forall₂ R as bs) (h : ∀ a b, R a b → f a = g b) : as.map f = bs.map g := by
  induction hr with
  | nil => rfl
  | cons hab _ ih => rw [List.map_cons, List.map_cons, h _ _ hab, ih]

section Solid

variable {cs : List Char}

theorem solid_cons {c : Char} : Solid (c :: cs) ↔ isSeparator c = false ∧ Solid cs :=
  List.forall_mem_cons

theorem solid_of_trim (h : Solid (trim cs)) : Solid cs := by
  intro c hc
  have hblank (hb : isBlank c = true) : isSeparator c = false := isSeparator_eq_false isBlank hb rfl rfl
  rw [← takeWhile_append_trimStart cs, List.mem_append, ← trim_append_rtakeWhile, List.mem_append] at hc
  rcases hc with hc | hc | hc
  · exact hblank (List.mem_takeWhile_imp hc)
  · exact h c hc
  · exact hblank (List.mem_rtakeWhile_imp hc)

theorem solid_of_isDigits (h : isDigits cs = true) : Solid cs :=
  fun c hc => isSeparator_eq_false Char.isDigit ((isDigits_iff.mp h).2 c hc) rfl rfl

theorem solid_of_word? {n : Int} (h : word? cs = some n) : Solid cs := by
  obtain ⟨negative, ds, hd, rfl, -⟩ := (word?_eq_some_iff.mp h).1
  cases negative with
  | false => exact solid_of_isDigits hd
  | true => exact solid_cons.mpr ⟨by decide, solid_of_isDigits hd⟩

theorem solid_of_map_toLower (h : Solid (cs.map Char.toLower)) : Solid cs := by
  intro c hc
  have hlow := h c.toLower (List.mem_map_of_mem hc)
  exact isSeparator_eq_false (fun c => !isSeparator c.toLower) (by simp [hlow]) rfl rfl

theorem solid_of_accidental (h : Solid (Note.accidental cs).2) : Solid cs := by
  unfold Note.accidental at h
  split at h
  · exact solid_cons.mpr ⟨by decide, h⟩
  · exact solid_cons.mpr ⟨by decide, h⟩
  · exact h

theorem solid_of_parse? {n : Int} (h : Note.parse? cs = some n) : Solid cs := by
  apply solid_of_map_toLower
  unfold Note.parse? at h
  split at h
  next => contradiction
  next c rest hlow =>
    rw [hlow]
    obtain ⟨pitch, hpitch, h⟩ := Option.bind_eq_some_iff.mp h
    obtain ⟨octave, hoctave, -⟩ := Option.bind_eq_some_iff.mp h
    refine solid_cons.mpr ⟨?_, solid_of_accidental (solid_of_word? hoctave)⟩
    exact isSeparator_eq_false (fun c => (Note.pitchClass? c).isSome) (Option.isSome_of_eq_some hpitch) rfl rfl

theorem solid_of_key? {n : Int} (h : Note.key? cs = some n) : Solid cs := by
  rcases Option.or_eq_some_iff.mp h with h | ⟨-, h⟩
  · exact solid_of_word? h
  · exact solid_of_parse? h

theorem solid_of_curveIndex? {value : String} {n : Nat} (h : Document.curveIndex? value = some n) :
    Solid value.toList := by
  obtain ⟨digits, htext, hdigits⟩ := Document.curveIndex?_eq_some_iff.mp h
  have hsolid : Solid digits := solid_of_isDigits (index?_eq_some_iff.mp hdigits).1
  apply solid_of_trim
  rcases htext with htext | htext
  · exact htext ▸ hsolid
  · exact htext ▸ solid_cons.mpr ⟨by decide, hsolid⟩

end Solid

namespace Sample

variable {value : String}

theorem normalize_of_solid (h : Solid value.toList) : normalize value = value := by
  apply normalize_of_not_mem
  intro hm
  exact absurd (h _ hm) (by decide)

theorem solid_of_normalize (h : Solid (normalize value).toList) : Solid value.toList := by
  intro c hc
  have hmem : (if c = '\\' then '/' else c) ∈ (normalize value).toList := by
    rw [normalize, String.toList_ofList]
    exact List.mem_map_of_mem hc
  have hs := h _ hmem
  split at hs
  · exact absurd hs (by decide)
  · exact hs

theorem read_normalize {α : Type} {f : String → Option α} (hf : ∀ v a, f v = some a → Solid v.toList)
    (value : String) : f (normalize value) = f value := by
  by_cases hs : Solid value.toList
  · rw [normalize_of_solid hs]
  · have hnone : f value = none :=
      Option.eq_none_iff_forall_ne_some.mpr (fun a ha => hs (hf _ a ha))
    rw [hnone]
    exact Option.eq_none_iff_forall_ne_some.mpr (fun a ha => hs (solid_of_normalize (hf _ a ha)))

theorem normalize_normalize (value : String) : normalize (normalize value) = normalize value :=
  normalize_of_not_mem (not_mem_normalize value)

theorem isGenerated_normalize (value : String) : isGenerated (normalize value) = isGenerated value := by
  rw [isGenerated, isGenerated, normalize, String.toList_ofList, normalizeChars, List.head?_map]
  cases value.toList.head? with
  | none => rfl
  | some c =>
    by_cases hc : c = '\\'
    · subst hc
      rfl
    · rw [Option.map_some, if_neg hc]

theorem openReferences_normalizeChars (cs : List Char) :
    openReferences (normalizeChars cs) = openReferences cs := by
  induction cs with
  | nil => rfl
  | cons c cs ih =>
    have hdollar : ((if c = '\\' then '/' else c) = '$') = (c = '$') := by
      by_cases hc : c = '\\'
      · subst hc
        decide
      · rw [if_neg hc]
    have hword : (normalizeChars cs).head?.any isWordChar = cs.head?.any isWordChar := by
      rw [normalizeChars, List.head?_map]
      cases cs.head? with
      | none => rfl
      | some b =>
        by_cases hb : b = '\\'
        · subst hb
          decide
        · rw [Option.map_some, if_neg hb]
    have hcons : normalizeChars (c :: cs) = (if c = '\\' then '/' else c) :: normalizeChars cs := rfl
    rw [hcons, openReferences, openReferences, hword, ih]
    simp only [hdollar]

theorem normalize_eq_of_sameButSeparators {v w : String} (h : SameButSeparators v w) :
    normalize v = normalize w := by
  rw [normalize, normalize]
  congr 1
  apply map_eq_map_of_forall₂ h
  rintro a b (rfl | ⟨ha, hb⟩)
  · rfl
  · rcases isSeparator_iff.mp ha with rfl | rfl <;> rcases isSeparator_iff.mp hb with rfl | rfl <;> rfl

end Sample

def Registry.DefaultPathIsText (r : Registry) : Prop :=
  ∀ m, r.lookup "default_path" = some m → m.entry.type = .string ∨ m.entry.type = .path

namespace Setting

def holdsPath (r : Registry) (s : Setting) : Bool :=
  s.name == "default_path" || (r.lookup s.name).any (fun m => m.entry.type == .path)

def slashed (r : Registry) (s : Setting) : Setting :=
  if s.holdsPath r then { s with value := Sample.normalize s.value } else s

structure Reslashed (r : Registry) (s s' : Setting) : Prop where
  name : s.name = s'.name
  position : s.position = s'.position
  value : s.value = s'.value ∨ s.holdsPath r = true ∧ SameButSeparators s.value s'.value

variable (r : Registry) (s : Setting)

@[simp] theorem slashed_name : (s.slashed r).name = s.name := by
  unfold slashed
  split <;> rfl

@[simp] theorem slashed_position : (s.slashed r).position = s.position := by
  unfold slashed
  split <;> rfl

@[simp] theorem slashed_finding : (s.slashed r).finding = s.finding := by
  funext p
  rw [finding, finding, slashed_name, slashed_position]

theorem slashed_read {α : Type} {f : String → α} (hf : ∀ v, f (Sample.normalize v) = f v) :
    f (s.slashed r).value = f s.value := by
  unfold slashed
  split
  · exact hf s.value
  · rfl

@[simp] theorem slashed_openReferences : (s.slashed r).openReferences = s.openReferences := by
  refine s.slashed_read r (f := fun v => Sfz.openReferences v.toList) (fun v => ?_)
  rw [Sample.normalize, String.toList_ofList, Sample.openReferences_normalizeChars]

theorem slashed_namesFile : (s.slashed r).namesFile r = s.namesFile r := by
  rw [namesFile, namesFile, slashed_openReferences, slashed_name]

theorem Reslashed.slashed_eq {r : Registry} {s s' : Setting} (h : s.Reslashed r s') :
    s.slashed r = s'.slashed r := by
  obtain ⟨name, value, position⟩ := s
  obtain ⟨name', value', position'⟩ := s'
  obtain rfl : name = name' := h.name
  obtain rfl : position = position' := h.position
  rcases h.value with hv | ⟨hpath, hv⟩
  · obtain rfl : value = value' := hv
    rfl
  · have hpath' : holdsPath r ⟨name, value', position⟩ = true := hpath
    rw [slashed, slashed, if_pos hpath, if_pos hpath', Sample.normalize_eq_of_sameButSeparators hv]

theorem slashed_findings {r : Registry} (hr : r.DefaultPathIsText) (settings : Settings) (s : Setting) :
    (s.slashed r).findings r settings = s.findings r settings := by
  have hcheck : ∀ m, r.lookup s.name = some m → m.entry.check? (s.slashed r).value = m.entry.check? s.value := by
    intro m hm
    unfold slashed
    split
    next hpath =>
      -- a value that may change is one of those that are never refused
      have htype : m.entry.type = .string ∨ m.entry.type = .path := by
        rcases Bool.or_eq_true_iff.mp hpath with hname | hany
        · exact hr m (beq_iff_eq.mp hname ▸ hm)
        · rw [hm] at hany
          exact .inr (beq_iff_eq.mp hany)
      unfold Entry.check?
      rcases htype with htype | htype <;> rw [htype]
    next => rfl
  rw [findings, findings, slashed_openReferences, slashed_finding, slashed_name]
  cases hm : r.lookup s.name with
  | none => rfl
  | some m =>
    dsimp only
    rw [hcheck m hm, versionFindings, slashed_finding]
    rfl

end Setting

namespace Header

def slashed (r : Registry) (h : Header) : Header :=
  { h with settings := h.settings.map (·.slashed r) }

structure Reslashed (r : Registry) (h h' : Header) : Prop where
  kind : h.kind = h'.kind
  position : h.position = h'.position
  parent : h.parent = h'.parent
  control : h.control = h'.control
  settings : List.Forall₂ (Setting.Reslashed r) h.settings.toList h'.settings.toList

theorem get?_slashed (r : Registry) (h : Header) (name : String) :
    (h.slashed r).get? name = (h.get? name).map (·.slashed r) := by
  rw [get?, get?, slashed, Array.toList_map, ← List.map_reverse, List.find?_map]
  congr 2
  funext s
  rw [Function.comp_apply, Setting.slashed_name]

theorem Reslashed.slashed_eq {r : Registry} {h h' : Header} (hh : h.Reslashed r h') :
    h.slashed r = h'.slashed r := by
  have hsettings : h.settings.map (·.slashed r) = h'.settings.map (·.slashed r) := by
    apply Array.toList_inj.mp
    rw [Array.toList_map, Array.toList_map]
    exact map_eq_map_of_forall₂ hh.settings (fun _ _ hs => hs.slashed_eq)
  rw [slashed, slashed, hh.kind, hh.position, hh.parent, hh.control, hsettings]

end Header

namespace Document

def slashed (r : Registry) (d : Document) : Document :=
  { d with headers := d.headers.map (·.slashed r) }

structure Reslashed (r : Registry) (d d' : Document) : Prop where
  root : d.root = d'.root
  definitions : d.definitions = d'.definitions
  headers : List.Forall₂ (Header.Reslashed r) d.headers.toList d'.headers.toList

theorem Reslashed.slashed_eq {r : Registry} {d d' : Document} (h : d.Reslashed r d') :
    d.slashed r = d'.slashed r := by
  have hheaders : d.headers.map (·.slashed r) = d'.headers.map (·.slashed r) := by
    apply Array.toList_inj.mp
    rw [Array.toList_map, Array.toList_map]
    exact map_eq_map_of_forall₂ h.headers (fun _ _ hh => hh.slashed_eq)
  rw [slashed, slashed, h.root, h.definitions, hheaders]

section Slashed

variable (r : Registry) (d : Document)

theorem headers_slashed : (d.slashed r).headers.toList = d.headers.toList.map (·.slashed r) :=
  Array.toList_map

theorem getElem?_slashed (id : Nat) : (d.slashed r).headers[id]? = d.headers[id]?.map (·.slashed r) :=
  Array.getElem?_map

theorem settings_slashed : (d.slashed r).settings = d.settings.map (fun s => (s.1, s.2.slashed r)) := by
  rw [settings, settings, headers_slashed, List.zipIdx_map, List.flatMap_map, List.map_flatMap]
  congr 1
  funext h
  simp [Header.slashed, Function.comp_def]

theorem lookup_slashed (name : String) (id : Nat) :
    (d.slashed r).lookup name id = (d.lookup name id).map (·.slashed r) := by
  induction id using Nat.strong_induction_on with
  | h id ih =>
    rw [lookup, lookup.eq_def d, getElem?_slashed]
    cases d.headers[id]? with
    | none => rfl
    | some h =>
      rw [Option.map_some]
      dsimp only
      rw [Header.get?_slashed]
      cases h.get? name with
      | some s => rfl
      | none =>
        have hparent : (h.slashed r).parent = h.parent := rfl
        dsimp only [Option.map_none]
        rw [hparent]
        cases h.parent with
        | none => rfl
        | some p =>
          dsimp only
          split
          next hp => exact ih p hp
          next => rfl

theorem checkHeaders_slashed (allowed : Option (List Version)) (selected : List Version) :
    (d.slashed r).checkHeaders allowed selected = d.checkHeaders allowed selected := by
  rw [checkHeaders, checkHeaders, headers_slashed]
  generalize ([] : List HeaderKind) = seen
  induction d.headers.toList generalizing seen with
  | nil => rfl
  | cons h hs ih =>
    rw [List.map_cons, headerFindings, headerFindings, ← ih]
    rfl

theorem checkDuplicates_slashed : (d.slashed r).checkDuplicates = d.checkDuplicates := by
  have hheader (ss : List Setting) (seen : List String) :
      duplicateFindings seen (ss.map (·.slashed r)) = duplicateFindings seen ss := by
    induction ss generalizing seen with
    | nil => rfl
    | cons s ss ih => rw [List.map_cons, duplicateFindings, duplicateFindings, ih, Setting.slashed_name,
        Setting.slashed_position]
  rw [checkDuplicates, checkDuplicates, headers_slashed, List.flatMap_map]
  congr 1
  funext h
  rw [Header.slashed, Array.toList_map, hheader]

theorem curves_slashed : (d.slashed r).curves = d.curves := by
  have hindex (s : Setting) : curveIndex? (s.slashed r).value = curveIndex? s.value :=
    s.slashed_read r (Sample.read_normalize (fun _ _ => solid_of_curveIndex?))
  rw [curves, curves, headers_slashed, List.filterMap_map]
  congr 2
  funext h
  rw [Function.comp_apply, Header.get?_slashed, Option.bind_map]
  simp only [Function.comp_def, hindex]
  rfl

theorem checkCurves_slashed : (d.slashed r).checkCurves = d.checkCurves := by
  have hproblem (s : Setting) : curveProblem? d.curves (s.slashed r).value = curveProblem? d.curves s.value := by
    apply s.slashed_read r
    intro v
    have hword := Sample.read_normalize (f := fun v => word? (trim v.toList))
      (fun _ _ hn => solid_of_trim (solid_of_word? hn)) v
    rw [curveProblem?, hword]
    rfl
  rw [checkCurves_eq, checkCurves_eq, settings_slashed, List.filterMap_map]
  congr 1
  funext s
  simp only [Function.comp_apply, curveReport?, curves_slashed, Setting.slashed_name, hproblem,
    Setting.slashed_finding]

theorem rangeProblem?_slashed (id : Nat) (low high : String) :
    (d.slashed r).rangeProblem? id low high = d.rangeProblem? id low high := by
  have hread := Sample.read_normalize (f := fun v => Note.key? v.toList) (fun _ _ hn => solid_of_key? hn)
  have hkey (s : Setting) : Note.key? (s.slashed r).value.toList = Note.key? s.value.toList :=
    s.slashed_read r (f := fun v => Note.key? v.toList) hread
  -- the message quotes both values, but only after a key has been read from each
  have hquote {s : Setting} {n : Int} (hn : Note.key? s.value.toList = some n) :
      (s.slashed r).value = s.value := by
    unfold Setting.slashed
    split
    · exact Sample.normalize_of_solid (solid_of_key? hn)
    · rfl
  rw [rangeProblem?, rangeProblem?, lookup_slashed, lookup_slashed]
  cases d.lookup low id with
  | none => rfl
  | some lo =>
    cases d.lookup high id with
    | none => rfl
    | some hi =>
      simp only [Option.map_some, Option.bind_eq_bind, Option.bind_some, hkey]
      cases hl : Note.key? lo.value.toList with
      | none => rfl
      | some l =>
        cases hh : Note.key? hi.value.toList with
        | none => rfl
        | some h =>
          rw [Option.bind_some, Option.bind_some, hquote hl, hquote hh]
          rfl

theorem checkRanges_slashed : (d.slashed r).checkRanges = d.checkRanges := by
  rw [checkRanges, checkRanges, headers_slashed, List.zipIdx_map, List.flatMap_map]
  simp only [rangeProblem?_slashed]
  rfl

theorem sampleValue_slashed (id : Nat) (s : Setting) :
    (d.slashed r).sampleValue id (s.slashed r) = d.sampleValue id s := by
  have hvalue (s : Setting) : Sample.normalize (s.slashed r).value = Sample.normalize s.value :=
    s.slashed_read r Sample.normalize_normalize
  have hcontrol : (d.slashed r).controlOf id = (d.controlOf id).map (·.slashed r) := by
    rw [controlOf, controlOf, getElem?_slashed]
    cases d.headers[id]? with
    | none => rfl
    | some h =>
      change h.control.bind (fun c => (d.slashed r).headers[c]?) =
        (h.control.bind (fun c => d.headers[c]?)).map (·.slashed r)
      simp only [getElem?_slashed]
      cases h.control <;> rfl
  have hstart : (((d.slashed r).controlOf id).bind (fun c => c.get? "default_path")).map
        (fun s => Sample.normalize s.value) =
      ((d.controlOf id).bind (fun c => c.get? "default_path")).map (fun s => Sample.normalize s.value) := by
    rw [hcontrol]
    cases d.controlOf id with
    | none => rfl
    | some c =>
      change ((c.slashed r).get? "default_path").map _ = (c.get? "default_path").map _
      rw [Header.get?_slashed, Option.map_map]
      simp only [Function.comp_def, hvalue]
  rw [sampleValue, sampleValue, Sample.withDefault, Sample.withDefault, hvalue, Option.map_map, Option.map_map]
  simp only [Function.comp_def, hstart]

theorem checkSamples_slashed (t : FileTree) (settings : Settings) :
    (d.slashed r).checkSamples t r settings = d.checkSamples t r settings := by
  have hfilter : (d.slashed r).settings.filter (fun s => s.2.namesFile r) =
      (d.settings.filter (fun s => s.2.namesFile r)).map (fun s => (s.1, s.2.slashed r)) := by
    rw [settings_slashed, List.filter_map]
    simp only [Function.comp_def, Setting.slashed_namesFile]
  rw [checkSamples, checkSamples, hfilter]
  generalize Sample.Listings.empty = c
  induction d.settings.filter (fun s => s.2.namesFile r) generalizing c with
  | nil => rfl
  | cons s ss ih =>
    have hbase : sampleBase settings (s.2.slashed r) = sampleBase settings s.2 := by
      rw [sampleBase, sampleBase, Setting.slashed_position]
    have hgenerated : Sample.isGenerated (s.2.slashed r).value = Sample.isGenerated s.2.value :=
      s.2.slashed_read r Sample.isGenerated_normalize
    rw [List.map_cons]
    cases hg : Sample.isGenerated s.2.value with
    | true =>
      rw [sampleFindings_of_generated (x := (s.1, s.2.slashed r)) (hgenerated.trans hg),
        sampleFindings_of_generated hg, ih]
    | false =>
      rw [sampleFindings_of_checked (x := (s.1, s.2.slashed r)) (hgenerated.trans hg),
        sampleFindings_of_checked hg, ih, sampleValue_slashed, hbase, Setting.slashed_finding]

end Slashed

section Exchange

variable {r : Registry} (hr : r.DefaultPathIsText)
include hr

theorem checkSettings_slashed (d : Document) (settings : Settings) :
    (d.slashed r).checkSettings r settings = d.checkSettings r settings := by
  rw [checkSettings, checkSettings, settings_slashed, List.flatMap_map]
  congr 1
  funext s
  exact s.2.slashed_findings hr settings

theorem check_slashed (d : Document) (t : FileTree) (settings : Settings) :
    (d.slashed r).check t r settings = d.check t r settings := by
  rw [check, check, checkHeaders_slashed, checkDuplicates_slashed, checkSettings_slashed hr,
    checkCurves_slashed, checkRanges_slashed, checkSamples_slashed]

end Exchange

theorem separators_do_not_matter {r : Registry} (hr : r.DefaultPathIsText) {d d' : Document}
    (h : d.Reslashed r d') (t : FileTree) (settings : Settings) :
    d.check t r settings = d'.check t r settings := by
  rw [← check_slashed hr d, h.slashed_eq, check_slashed hr d']

def kit (start sample : String) : Document where
  root := ⟨"kit.sfz"⟩
  headers := #[⟨.control, ⟨⟨"kit.sfz"⟩, ⟨1, 1⟩⟩, #[⟨"default_path", start, ⟨⟨"kit.sfz"⟩, ⟨2, 1⟩⟩⟩], none, none⟩,
    ⟨.region, ⟨⟨"kit.sfz"⟩, ⟨3, 1⟩⟩, #[⟨"sample", sample, ⟨⟨"kit.sfz"⟩, ⟨4, 1⟩⟩⟩], none, some 0⟩]
  definitions := #[]

def kitEntry (name : String) (type : ValueType) : Entry :=
  ⟨name, type, ⟨none, none⟩, [], [], none, none⟩

def kitTable : Registry :=
  .ofCompiled ([kitEntry "default_path" .string, kitEntry "sample" .path].map
    (fun e => (e, [⟨e, false, .exact e.name⟩])))

theorem lookup_kitTable :
    kitTable.lookup "default_path" = some ⟨kitEntry "default_path" .string, .exact, []⟩ ∧
      kitTable.lookup "sample" = some ⟨kitEntry "sample" .path, .exact, []⟩ :=
  ⟨(Registry.lookup_eq_least _ _).trans (by decide), (Registry.lookup_eq_least _ _).trans (by decide)⟩

theorem reslashed_kit {start start' sample sample' : String} (hstart : SameButSeparators start start')
    (hsample : SameButSeparators sample sample') :
    (kit start sample).Reslashed kitTable (kit start' sample') := by
  have hpath : Setting.holdsPath kitTable ⟨"sample", sample, ⟨⟨"kit.sfz"⟩, ⟨4, 1⟩⟩⟩ = true := by
    rw [Setting.holdsPath, lookup_kitTable.2]
    rfl
  refine ⟨rfl, rfl, .cons ⟨rfl, rfl, rfl, rfl, ?_⟩ (.cons ⟨rfl, rfl, rfl, rfl, ?_⟩ .nil)⟩
  · exact .cons ⟨rfl, rfl, .inr ⟨rfl, hstart⟩⟩ .nil
  · exact .cons ⟨rfl, rfl, .inr ⟨hpath, hsample⟩⟩ .nil

theorem mem_check_kit : (⟨.caseMismatch "Drums/Kick.wav", ⟨⟨"kit.sfz"⟩, ⟨4, 1⟩⟩, some "sample"⟩ : Finding) ∈
    (kit ".\\" "drums/KICK.wav").check .kickFirst kitTable { basePath := some ⟨"/"⟩ } := by
  have hfiles : (kit ".\\" "drums/KICK.wav").settings.filter (fun s => s.2.namesFile kitTable) =
      [(1, ⟨"sample", "drums/KICK.wav", ⟨⟨"kit.sfz"⟩, ⟨4, 1⟩⟩⟩)] := by
    have hsettings : (kit ".\\" "drums/KICK.wav").settings =
        [(0, ⟨"default_path", ".\\", ⟨⟨"kit.sfz"⟩, ⟨2, 1⟩⟩⟩),
          (1, ⟨"sample", "drums/KICK.wav", ⟨⟨"kit.sfz"⟩, ⟨4, 1⟩⟩⟩)] := rfl
    simp only [hsettings, List.filter_cons, Setting.namesFile, lookup_kitTable]
    rfl
  have hvalue : (kit ".\\" "drums/KICK.wav").sampleValue 1
      ⟨"sample", "drums/KICK.wav", ⟨⟨"kit.sfz"⟩, ⟨4, 1⟩⟩⟩ = "./drums/KICK.wav" := by decide +kernel
  have hparts : Sample.parts (Sample.normalize "./drums/KICK.wav") =
      Sample.parts (Sample.normalize "drums\\KICK.wav") := by decide +kernel
  have hstart : Sample.startOf ⟨"/"⟩ "./drums/KICK.wav" = Sample.startOf ⟨"/"⟩ "drums\\KICK.wav" := by
    decide +kernel
  have hstatus : (Sample.check .kickFirst .empty ⟨"/"⟩ "./drums/KICK.wav").1 =
      .caseMismatch "Drums/Kick.wav" := by
    rw [← Sample.check_kickFirst, Sample.check_fst (by decide) (Sample.Listings.sound_empty _),
      Sample.check_fst (by decide) (Sample.Listings.sound_empty _), hparts, hstart]
  have hbase : sampleBase { basePath := some ⟨"/"⟩ } ⟨"sample", "drums/KICK.wav", ⟨⟨"kit.sfz"⟩, ⟨4, 1⟩⟩⟩ =
      ⟨"/"⟩ := rfl
  apply List.mem_append_right
  rw [if_pos rfl, checkSamples, hfiles, sampleFindings_of_checked (by decide), hvalue, hbase, hstatus]
  exact List.mem_cons_self

theorem separators_do_not_matter_kit :
    (⟨.caseMismatch "Drums/Kick.wav", ⟨⟨"kit.sfz"⟩, ⟨4, 1⟩⟩, some "sample"⟩ : Finding) ∈
      (kit ".\\" "drums/KICK.wav").check .kickFirst kitTable { basePath := some ⟨"/"⟩ } ∧
    kitTable.DefaultPathIsText ∧
    (kit ".\\" "drums/KICK.wav").Reslashed kitTable (kit "./" "drums\\KICK.wav") ∧
    (kit ".\\" "drums/KICK.wav").check .kickFirst kitTable { basePath := some ⟨"/"⟩ } =
      (kit "./" "drums\\KICK.wav").check .kickFirst kitTable { basePath := some ⟨"/"⟩ } := by
  have hkit := reslashed_kit (show SameButSeparators ".\\" "./" by decide)
    (show SameButSeparators "drums/KICK.wav" "drums\\KICK.wav" by decide)
  have htable : kitTable.DefaultPathIsText := by
    intro m hm
    rw [lookup_kitTable.1] at hm
    obtain rfl := Option.some.inj hm
    exact .inl rfl
  exact ⟨mem_check_kit, htable, hkit, separators_do_not_matter htable hkit _ _⟩

end Document

end Sfz
