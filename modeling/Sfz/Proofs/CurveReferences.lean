import Mathlib.Data.List.Infix
import Sfz.Check
import Sfz.Proofs.NumberTexts

namespace Sfz

open Number

def Header.IsLast (h : Header) (s : Setting) : Prop :=
  ∃ before after, h.settings.toList = before ++ s :: after ∧ ∀ x ∈ after, x.name ≠ s.name

theorem Header.get?_eq_some_iff {h : Header} {name : String} {s : Setting} :
    h.get? name = some s ↔ s.name = name ∧ h.IsLast s := by
  rw [get?, List.find?_eq_some_iff_append]
  constructor
  · rintro ⟨hname, after, before, hsplit, hafter⟩
    obtain rfl : s.name = name := by simpa using hname
    refine ⟨rfl, before.reverse, after.reverse, ?_, ?_⟩
    · simpa using congrArg List.reverse hsplit
    · intro x hx
      simpa using hafter x (List.mem_reverse.mp hx)
  · rintro ⟨rfl, before, after, hsplit, hafter⟩
    refine ⟨by simp, after.reverse, before.reverse, by simp [hsplit], ?_⟩
    intro x hx
    simpa using hafter x (List.mem_reverse.mp hx)

namespace Document

def MentionsCurve (name : List Char) : Prop :=
  ∃ a c b, name = a ++ "curvecc".toList ++ c :: b ∧ c.isDigit = true

/-- What follows the occurrences of `curvecc` in a name that are found from the left, none within another. -/
inductive FollowsCurve : List Char → List Char → Prop
  | first {name a rest : List Char} (hname : name = a ++ "curvecc".toList ++ rest)
      (ha : ¬ "curvecc".toList <:+: a ++ "curvec".toList) : FollowsCurve name rest
  | later {name a rest tail : List Char} (hname : name = a ++ "curvecc".toList ++ rest)
      (ha : ¬ "curvecc".toList <:+: a ++ "curvec".toList) (h : FollowsCurve rest tail) : FollowsCurve name tail

def Refers (name : List Char) : Prop :=
  ∃ c b, FollowsCurve name (c :: b) ∧ c.isDigit = true

theorem MentionsCurve.prepend {name : List Char} (h : MentionsCurve name) (front : List Char) :
    MentionsCurve (front ++ name) := by
  obtain ⟨a, c, b, rfl, hc⟩ := h
  exact ⟨front ++ a, c, b, by simp, hc⟩

theorem mentions_of_refersToCurve {name : List Char} (h : refersToCurve name = true) :
    MentionsCurve name := by
  fun_induction refersToCurve name with
  | case1 rest ih =>
    rcases Bool.or_eq_true_iff.mp h with h | h
    · cases rest with
      | nil => simp at h
      | cons c b => exact ⟨[], c, b, rfl, by simpa using h⟩
    · exact (ih h).prepend "curvecc".toList
  | case2 x rest _ ih => exact (ih h).prepend [x]
  | case3 => simp at h

theorem refersToCurve_at_first {a : List Char} (ha : ¬ "curvecc".toList <:+: a ++ "curvec".toList)
    (rest : List Char) : refersToCurve (a ++ "curvecc".toList ++ rest) =
      (rest.head?.any Char.isDigit || refersToCurve rest) := by
  induction a with
  | nil => exact refersToCurve.eq_1 rest
  | cons x a ih =>
    have hlater : ¬ "curvecc".toList <:+: a ++ "curvec".toList :=
      fun h => ha (h.trans (List.suffix_cons x _).isInfix)
    rw [List.cons_append, List.cons_append, refersToCurve.eq_2, ih hlater]
    -- an occurrence at the front would come before the first one
    intro front hx hfront
    apply ha
    apply List.IsPrefix.isInfix
    have hlong : "curvecc".toList <+: (x :: a ++ "curvec".toList) ++ 'c' :: rest := by
      refine ⟨front, ?_⟩
      rw [hx, List.cons_append, List.cons_append, List.append_assoc]
      exact (congrArg ('c' :: ·) hfront).symm.trans (by simp)
    exact List.prefix_of_prefix_length_le hlong (List.prefix_append _ _) (by simp)

theorem refersToCurve_of_refers {name : List Char} (h : Refers name) : refersToCurve name = true := by
  obtain ⟨c, b, h, hc⟩ := h
  generalize htail : c :: b = tail at h
  induction h with
  | first hname ha =>
    subst hname htail
    rw [refersToCurve_at_first ha]
    simp [hc]
  | later hname ha h ih =>
    subst hname
    rw [refersToCurve_at_first ha, ih htail, Bool.or_true]

def Declares (d : Document) (k : Int) : Prop :=
  ∃ h ∈ d.headers.toList, h.kind = .curve ∧ ∃ s, s.name = "curve_index" ∧ h.IsLast s ∧
    ∃ text, (Text.trim s.value.toList = text ∨ Text.trim s.value.toList = '+' :: text) ∧
      word? text = some k ∧ k ≤ maxIndex

theorem curveIndex?_eq_some_iff {value : String} {n : Nat} : curveIndex? value = some n ↔
    ∃ text, (Text.trim value.toList = text ∨ Text.trim value.toList = '+' :: text) ∧
      index? text = some n := by
  unfold curveIndex?
  generalize Text.trim value.toList = cs
  constructor
  · intro h
    split at h
    · exact ⟨_, .inr rfl, h⟩
    · exact ⟨cs, .inl rfl, h⟩
  · rintro ⟨text, rfl | rfl, h⟩
    · have hplus (digits : List Char) : cs ≠ '+' :: digits := by
        rintro rfl
        have hd := (isDigits_iff.mp (index?_eq_some_iff.mp h).1).2 '+' (List.mem_cons_self ..)
        simp at hd
      split
      · exact absurd rfl (hplus _)
      · exact h
    · exact h

theorem mem_insertIndex {n m : Nat} {l : List Nat} : n ∈ insertIndex m l ↔ n = m ∨ n ∈ l := by
  induction l with
  | nil => simp [insertIndex]
  | cons x l ih =>
    rw [insertIndex]
    split
    next => simp
    next =>
      split
      next hx => simp [hx]
      next =>
        simp only [List.mem_cons, ih]
        tauto

theorem mem_curves {d : Document} {n : Nat} : n ∈ d.curves ↔
    ∃ h ∈ d.headers.toList, h.kind = .curve ∧
      ∃ s, h.get? "curve_index" = some s ∧ curveIndex? s.value = some n := by
  have hfold (l : List Nat) : n ∈ l.foldr insertIndex [] ↔ n ∈ l := by
    induction l with
    | nil => rfl
    | cons x l ih => rw [List.foldr_cons, mem_insertIndex, ih, List.mem_cons]
  simp only [curves, hfold, List.mem_filterMap, Option.ite_none_right_eq_some, Option.bind_eq_some_iff]

theorem mem_curves_iff_declares {d : Document} {k : Int} (hk : 0 < k) :
    k.toNat ∈ d.curves ↔ d.Declares k := by
  simp only [mem_curves, Declares, Header.get?_eq_some_iff, curveIndex?_eq_some_iff,
    index?_eq_some_iff_word? hk, and_assoc]

def curveReport? (d : Document) (s : Setting) : Option Problem :=
  if refersToCurve s.name.toList then curveProblem? d.curves s.value else none

theorem checkCurves_eq (d : Document) :
    d.checkCurves = d.settings.filterMap (fun s => (d.curveReport? s.2).map s.2.finding) := by
  apply List.filterMap_congr
  intro s _
  by_cases h : refersToCurve s.2.name.toList = true
  · simp only [curveReport?, h, if_true]
    rfl
  · simp [curveReport?, h]

section Reference

variable {d : Document} {s : Setting} {k : Int}

theorem curveReport?_of_word? (hs : Refers s.name.toList)
    (hk : word? (Text.trim s.value.toList) = some k) :
    k < 0 ∧ d.curveReport? s = some .negativeCurve ∨
      0 ≤ k ∧ (k < 8 ∨ d.Declares k) ∧ d.curveReport? s = none ∨
      8 ≤ k ∧ ¬ d.Declares k ∧ d.curveReport? s = some (.undefinedCurve k) := by
  rw [curveReport?, if_pos (refersToCurve_of_refers hs)]
  simp only [curveProblem?, hk, firstCustomCurve]
  rcases Int.lt_or_le k 0 with hneg | hneg
  · exact .inl ⟨hneg, if_pos hneg⟩
  · rw [if_neg (Int.not_lt.mpr hneg)]
    rcases Int.lt_or_le k 8 with hlow | hlow
    · exact .inr (.inl ⟨hneg, .inl hlow, by simp [hlow]⟩)
    · have hmem := mem_curves_iff_declares (d := d) (show 0 < k by omega)
      by_cases hd : d.Declares k
      · exact .inr (.inl ⟨hneg, .inr hd, by simp [hmem.mpr hd]⟩)
      · refine .inr (.inr ⟨hlow, hd, ?_⟩)
        rw [← hmem] at hd
        simp [hd, Int.not_lt.mpr hlow]

theorem curveReport?_eq_none
    (h : ¬ MentionsCurve s.name.toList ∨ word? (Text.trim s.value.toList) = none) :
    d.curveReport? s = none := by
  rcases h with h | h
  · exact if_neg (fun hs => h (mentions_of_refersToCurve hs))
  · simp [curveReport?, curveProblem?, h]

end Reference

theorem undefined_ne_negative (index : String) :
    "curve " ++ index ++ " referenced but not defined" ≠ "negative curve_index" := by
  intro h
  have hfirst := congrArg (fun m => m.toList.head?) h
  simp at hfirst

/-- Every setting whose name refers to a curve is judged by the number that it reads as, and no other
setting is reported. -/
theorem curves_checked (d : Document) :
    d.checkCurves = d.settings.filterMap (fun s => (d.curveReport? s.2).map s.2.finding) ∧
    ∀ s : Setting,
      (∀ k, Refers s.name.toList → word? (Text.trim s.value.toList) = some k →
        ((d.curveReport? s).map Problem.message = some "negative curve_index" ↔ k < 0) ∧
        ((d.curveReport? s).map Problem.message =
          some ("curve " ++ toString k ++ " referenced but not defined") ↔ 8 ≤ k ∧ ¬ d.Declares k) ∧
        (d.curveReport? s = none ↔ 0 ≤ k ∧ (k < 8 ∨ d.Declares k))) ∧
      (¬ MentionsCurve s.name.toList ∨ word? (Text.trim s.value.toList) = none →
        d.curveReport? s = none) := by
  refine ⟨checkCurves_eq d, fun s => ⟨?_, curveReport?_eq_none⟩⟩
  intro k hs hk
  have hne := undefined_ne_negative (toString k)
  rcases curveReport?_of_word? (d := d) hs hk with ⟨hneg, h⟩ | ⟨hneg, hin, h⟩ | ⟨hlow, hd, h⟩
  · rw [h]
    refine ⟨iff_of_true rfl hneg, iff_of_false (fun hm => hne (Option.some.inj hm).symm) ?_,
      iff_of_false (Option.some_ne_none _) ?_⟩
    · omega
    · omega
  · rw [h]
    refine ⟨iff_of_false (by simp) (by omega),
      iff_of_false (by simp) ?_, iff_of_true rfl ⟨hneg, hin⟩⟩
    rintro ⟨hlow, hd⟩
    rcases hin with hin | hin
    · omega
    · exact hd hin
  · rw [h]
    refine ⟨iff_of_false (fun hm => hne (Option.some.inj hm)) (by omega), iff_of_true rfl ⟨hlow, hd⟩,
      iff_of_false (Option.some_ne_none _) ?_⟩
    rintro ⟨-, hin | hin⟩
    · omega
    · exact hd hin

def curved (references : List (String × String)) (indices : List String) : Document :=
  ⟨⟨"a"⟩, #[⟨.region, ⟨⟨"a"⟩, 1, 1⟩,
      (references.map (fun r => ⟨r.1, r.2, ⟨⟨"a"⟩, 1, 1⟩⟩)).toArray, none, none⟩,
    ⟨.curve, ⟨⟨"a"⟩, 2, 1⟩,
      (indices.map (fun i => ⟨"curve_index", i, ⟨⟨"a"⟩, 2, 1⟩⟩)).toArray, none, none⟩], #[]⟩

theorem curves_checked_amplitude :
    let d := curved [("amplitude_curvecc110", " 9"), ("cutoff_curvecc1", "12"), ("curveccurveccurvecc1", "-1")]
      ["12", "+9"]
    d.curveReport? ⟨"amplitude_curvecc110", " 9", ⟨⟨"a"⟩, 1, 1⟩⟩ = none ∧
      (d.curveReport? ⟨"cutoff_curvecc1", "12", ⟨⟨"a"⟩, 1, 1⟩⟩).map Problem.message =
        some ("curve " ++ toString (12 : Int) ++ " referenced but not defined") ∧
      (d.curveReport? ⟨"curveccurveccurvecc1", "-1", ⟨⟨"a"⟩, 1, 1⟩⟩).map Problem.message =
        some "negative curve_index" := by
  intro d
  have hnine : d.Declares 9 := (mem_curves_iff_declares (by decide)).mp (by decide)
  have htwelve : ¬ d.Declares 12 := fun h => absurd ((mem_curves_iff_declares (by decide)).mpr h) (by decide)
  have hcheck := (curves_checked d).2
  have hamplitude : FollowsCurve "amplitude_curvecc110".toList "110".toList :=
    .first (a := "amplitude_".toList) (by decide) (by decide)
  have hcutoff : FollowsCurve "cutoff_curvecc1".toList ['1'] := .first (a := "cutoff_".toList) (by decide) (by decide)
  have hrest : FollowsCurve "urveccurvecc1".toList ['1'] := .first (a := "urvec".toList) (by decide) (by decide)
  have htwice : FollowsCurve "curveccurveccurvecc1".toList ['1'] := .later (a := []) (by decide) (by decide) hrest
  refine ⟨?_, ?_, ?_⟩
  · exact ((hcheck _).1 9 ⟨_, _, hamplitude, by decide⟩ (by decide)).2.2.mpr ⟨by decide, .inr hnine⟩
  · exact ((hcheck _).1 12 ⟨_, _, hcutoff, by decide⟩ (by decide)).2.1.mpr ⟨by decide, htwelve⟩
  · exact ((hcheck _).1 (-1) ⟨_, _, htwice, by decide⟩ (by decide)).1.mpr (by decide)

def DeclaresAlike (d : Document) (k : Int) : Prop :=
  ∃ h ∈ d.headers.toList, h.kind = .curve ∧ ∃ s, s.name = "curve_index" ∧ h.IsLast s ∧
    word? (Text.trim s.value.toList) = some k

def ReadsAlike (d : Document) : Prop :=
  d.checkCurves = d.settings.filterMap (fun s => (d.curveReport? s.2).map s.2.finding) ∧
  ∀ s ∈ d.settings, (∀ k, MentionsCurve s.2.name.toList → word? (Text.trim s.2.value.toList) = some k →
      ((d.curveReport? s.2).map Problem.message = some "negative curve_index" ↔ k < 0) ∧
      ((d.curveReport? s.2).map Problem.message =
        some ("curve " ++ toString k ++ " referenced but not defined") ↔ 8 ≤ k ∧ ¬ d.DeclaresAlike k)) ∧
    (¬ MentionsCurve s.2.name.toList ∨ word? (Text.trim s.2.value.toList) = none →
      d.curveReport? s.2 = none)

theorem ReadsAlike.reported_iff {d : Document} (h : d.ReadsAlike) {id : Nat} {s : Setting} {k : Int}
    (hs : (id, s) ∈ d.settings) (hname : MentionsCurve s.name.toList)
    (hk : word? (Text.trim s.value.toList) = some k) :
    (d.curveReport? s).map Problem.message =
      some ("curve " ++ toString k ++ " referenced but not defined") ↔ 8 ≤ k ∧ ¬ d.DeclaresAlike k :=
  ((h.2 (id, s) hs).1 k hname hk).2

theorem ReadsAlike.report_ne_none {d : Document} (h : d.ReadsAlike) {id : Nat} {s : Setting} {k : Int}
    (hs : (id, s) ∈ d.settings) (hname : MentionsCurve s.name.toList)
    (hk : word? (Text.trim s.value.toList) = some k) (hlow : 8 ≤ k) (hd : ¬ d.DeclaresAlike k) :
    d.curveReport? s ≠ none := by
  intro hnone
  have hreport := (h.reported_iff hs hname hk).mpr ⟨hlow, hd⟩
  simp [hnone] at hreport

theorem declaresAlike_iff {d : Document} {k : Int} : d.DeclaresAlike k ↔
    ∃ h ∈ d.headers.toList, h.kind = .curve ∧
      (h.get? "curve_index").bind (fun s => word? (Text.trim s.value.toList)) = some k := by
  simp only [DeclaresAlike, Option.bind_eq_some_iff, Header.get?_eq_some_iff, and_assoc]

/-- A plus sign, a number past 32 bits and a `curvecc` that begins with the last letter of another one are
read in different ways. -/
theorem not_readsAlike :
    ¬ (curved [("x_curvecc1", "9")] ["+9"]).ReadsAlike ∧
      ¬ (curved [("x_curvecc1", "4294967296")] ["4294967296"]).ReadsAlike ∧
      ¬ (curved [("curveccurvecc1", "9")] []).ReadsAlike := by
  have hplain : MentionsCurve "x_curvecc1".toList := ⟨"x_".toList, '1', [], by decide, by decide⟩
  have hoverlap : MentionsCurve "curveccurvecc1".toList :=
    ⟨"curvec".toList, '1', [], by decide, by decide⟩
  refine ⟨fun h => ?_, fun h => ?_, fun h => ?_⟩
  · exact h.report_ne_none (s := ⟨"x_curvecc1", "9", ⟨⟨"a"⟩, 1, 1⟩⟩) (k := 9) (List.mem_cons_self ..)
      hplain (by decide) (by decide) (fun hd => absurd (declaresAlike_iff.mp hd) (by decide)) (by decide)
  · have hwide : (curved [("x_curvecc1", "4294967296")] ["4294967296"]).curveReport?
        ⟨"x_curvecc1", "4294967296", ⟨⟨"a"⟩, 1, 1⟩⟩ = some (.undefinedCurve 4294967296) := by decide
    have hd := ((h.reported_iff (s := ⟨"x_curvecc1", "4294967296", ⟨⟨"a"⟩, 1, 1⟩⟩) (k := 4294967296)
      (List.mem_cons_self ..) hplain (by decide)).mp (by rw [hwide]; rfl)).2
    exact hd (declaresAlike_iff.mpr (by decide))
  · exact h.report_ne_none (s := ⟨"curveccurvecc1", "9", ⟨⟨"a"⟩, 1, 1⟩⟩) (k := 9) (List.mem_cons_self ..)
      hoverlap (by decide) (by decide) (fun hd => absurd (declaresAlike_iff.mp hd) (by decide)) (by decide)

end Document

end Sfz
