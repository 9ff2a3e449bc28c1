import Mathlib.Data.Nat.Find
import Sfz.Proofs.CheckedProblems
import Sfz.Proofs.MacroExpansion

/-!
The laws of expansion. A text is expanded part by part, a reference stands for the value of the longest
name that it begins with, and these laws leave no choice. What is reported while a value is expanded is
found again when the expanded value is checked.
-/

namespace Sfz

open Text

def Text.Apart (b : String) : Prop :=
  ∀ c, b.toList.head? = some c → isWordChar c = false

def Text.IsRun (run : String) : Prop :=
  ∀ c ∈ run.toList, isWordChar c = true

instance (run : String) : Decidable (Text.IsRun run) :=
  List.decidableBAll (fun c => isWordChar c = true) run.toList

theorem Text.apart_iff {b : String} : Apart b ↔ b.toList.head?.any isWordChar = false := by
  unfold Apart
  cases b.toList.head? <;> simp

instance (b : String) : Decidable (Text.Apart b) :=
  decidable_of_iff _ apart_iff.symm

theorem Text.apart_dollar (text : String) : Apart ("$" ++ text) := by
  intro c hc
  obtain rfl : '$' = c := by simpa using hc
  decide

theorem head_append {as bs : List Char} (ha : as.head?.any isWordChar = false)
    (hb : bs.head?.any isWordChar = false) : (as ++ bs).head?.any isWordChar = false := by
  cases as with
  | nil => exact hb
  | cons c as => exact ha

namespace MacroTable

variable {t : MacroTable}

structure Cuts (t : MacroTable) (run name value rest : String) : Prop where
  isRun : IsRun run
  split : run = name ++ rest
  nonempty : name ≠ ""
  defined : t.get? name = some value
  longest : ∀ longer, longer.toList <+: run.toList → name.length < longer.length → t.get? longer = none

def Unnamed (t : MacroTable) (run : String) : Prop :=
  ∀ name, name ≠ "" → name.toList <+: run.toList → t.get? name = none

structure Expands (t : MacroTable) (f : String → Expansion) : Prop where
  text_append : ∀ a b, Apart b → (f (a ++ b)).text = (f a).text ++ (f b).text
  undefined_append : ∀ a b, Apart b → (f (a ++ b)).undefined = (f a).undefined ++ (f b).undefined
  plain : ∀ a, '$' ∉ a.toList → f a = ⟨a, []⟩
  defined : ∀ run name value rest, t.Cuts run name value rest → f ("$" ++ run) = ⟨value ++ rest, []⟩
  undefined : ∀ run, IsRun run → t.Unnamed run →
    f ("$" ++ run) = ⟨"$" ++ run, if run = "" then [] else [run]⟩

section Search

theorem ofList_take_isPrefix (run : String) (n : Nat) :
    (String.ofList (run.toList.take n)).toList <+: run.toList := by
  rw [String.toList_ofList]
  exact List.take_prefix n _

theorem longestUpTo?_eq_none {run : String} (h : t.Unnamed run) {n : Nat} (hn : n ≤ run.toList.length) :
    t.longestUpTo? run.toList n = none := by
  induction n with
  | zero => rfl
  | succ n ih =>
    have hne : String.ofList (run.toList.take (n + 1)) ≠ "" := by
      intro he
      have hlength := congrArg String.length he
      rw [String.length_ofList, List.length_take] at hlength
      simp only [String.length_empty] at hlength
      omega
    rw [longestUpTo?, h _ hne (ofList_take_isPrefix run (n + 1))]
    apply ih
    omega

theorem Cuts.longestUpTo? {run name value rest : String} (h : t.Cuts run name value rest) {n : Nat}
    (hle : name.length ≤ n) (hn : n ≤ run.toList.length) :
    t.longestUpTo? run.toList n = some (value.toList, rest.toList) := by
  have hrun : run.toList = name.toList ++ rest.toList := by rw [h.split, String.toList_append]
  have hlength : name.toList.length = name.length := String.length_toList
  induction n with
  | zero =>
    have hzero : name.toList = [] := List.eq_nil_of_length_eq_zero (by omega)
    exact absurd (String.toList_eq_nil_iff.mp hzero) h.nonempty
  | succ n ih =>
    rw [MacroTable.longestUpTo?]
    by_cases hlast : name.length = n + 1
    · have htake : run.toList.take (n + 1) = name.toList := by
        rw [hrun, ← hlast, ← hlength]
        exact List.take_left
      have hdrop : run.toList.drop (n + 1) = rest.toList := by
        rw [hrun, ← hlast, ← hlength]
        exact List.drop_left
      rw [htake, hdrop, String.ofList_toList, h.defined]
    · have hnone : t.get? (String.ofList (run.toList.take (n + 1))) = none := by
        apply h.longest _ (ofList_take_isPrefix run (n + 1))
        rw [String.length_ofList, List.length_take]
        omega
      rw [hnone]
      apply ih
      · omega
      · omega

theorem Cuts.reference {run name value rest : String} (h : t.Cuts run name value rest) :
    t.reference run.toList = (value.toList ++ rest.toList, false) := by
  have hle : name.length ≤ run.toList.length := by
    rw [h.split, String.toList_append, List.length_append, String.length_toList]
    omega
  rw [MacroTable.reference, h.longestUpTo? hle le_rfl]

theorem Unnamed.reference {run : String} (h : t.Unnamed run) :
    t.reference run.toList = ('$' :: run.toList, true) := by
  rw [MacroTable.reference, longestUpTo?_eq_none h le_rfl]

def NamedAt (t : MacroTable) (run : String) (n : Nat) : Prop :=
  ∃ name : String, name.length = n ∧ name ≠ "" ∧ name.toList <+: run.toList ∧ t.get? name ≠ none

open Classical in
theorem cuts_or_unnamed (t : MacroTable) {run : String} (hrun : IsRun run) :
    (∃ name value rest, t.Cuts run name value rest) ∨ t.Unnamed run := by
  by_cases h : ∃ n ≤ run.length, t.NamedAt run n
  · left
    obtain ⟨n, hn, hnamed⟩ := h
    obtain ⟨name, hlength, hne, ⟨rest, hrest⟩, hdefined⟩ := Nat.findGreatest_spec hn hnamed
    obtain ⟨value, hvalue⟩ := Option.ne_none_iff_exists'.mp hdefined
    have hsplit : run = name ++ String.ofList rest := by
      apply String.toList_injective
      rw [String.toList_append, String.toList_ofList, hrest]
    refine ⟨name, value, String.ofList rest, hrun, hsplit, hne, hvalue, ?_⟩
    intro longer hp hlt
    by_contra hlonger
    have hle : longer.length ≤ run.length := by
      rw [← String.length_toList, ← String.length_toList]
      exact hp.length_le
    rw [hlength] at hlt
    apply Nat.findGreatest_is_greatest hlt hle
    refine ⟨longer, rfl, ?_, hp, hlonger⟩
    rintro rfl
    simp at hlt
  · right
    intro name hne hp
    by_contra hdefined
    apply h
    refine ⟨name.length, ?_, name, rfl, hne, hp, hdefined⟩
    rw [← String.length_toList, ← String.length_toList]
    exact hp.length_le

end Search

theorem expandChars_append (t : MacroTable) (as : List Char) {bs : List Char}
    (h : bs.head?.any isWordChar = false) : t.expandChars (as ++ bs) =
      ((t.expandChars as).1 ++ (t.expandChars bs).1, (t.expandChars as).2 ++ (t.expandChars bs).2) := by
  induction as using reference_induction with
  | nil => simp [expandChars]
  | char c as hc ih => rw [List.cons_append, expandChars_char t hc, expandChars_char t hc, ih, List.cons_append]
  | bare as has ih =>
    rw [List.cons_append, expandChars_bare t (head_append has h), expandChars_bare t has, ih,
      List.cons_append]
  | reference run as hne hrun has ih =>
    have hsplit : '$' :: (run ++ as) ++ bs = '$' :: (run ++ (as ++ bs)) := by simp
    rw [hsplit, expandChars_reference t hne hrun (head_append has h), expandChars_reference t hne hrun has, ih]
    cases (t.reference run).2 with
    | true => simp
    | false => simp

theorem expand_append (t : MacroTable) (a : String) {b : String} (h : Apart b) : t.expand (a ++ b) =
    ⟨(t.expand a).text ++ (t.expand b).text, (t.expand a).undefined ++ (t.expand b).undefined⟩ := by
  unfold expand
  rw [String.toList_append, expandChars_append t _ (apart_iff.mp h)]
  simp

theorem expand_run (t : MacroTable) {run : String} (hrun : IsRun run) : t.expand ("$" ++ run) =
    ⟨String.ofList (t.reference run.toList).1,
      if (t.reference run.toList).2 = true ∧ run ≠ "" then [run] else []⟩ := by
  have hdollar : ("$" ++ run).toList = '$' :: run.toList := by simp
  have hnil : t.expandChars [] = ([], []) := by rw [expandChars]
  rw [expand, hdollar]
  by_cases hne : run = ""
  · subst hne
    simp [expandChars_bare t (show ([] : List Char).head?.any isWordChar = false from rfl), hnil, reference,
      longestUpTo?]
  · have hne' : run.toList ≠ [] := fun h => hne (String.toList_eq_nil_iff.mp h)
    have href := expandChars_reference t hne' hrun (show ([] : List Char).head?.any isWordChar = false from rfl)
    rw [List.append_nil, hnil] at href
    rw [href]
    cases (t.reference run.toList).2 with
    | true => simp [hne]
    | false => simp

theorem expands_expand (t : MacroTable) : t.Expands t.expand where
  text_append a b hb := by rw [expand_append t a hb]
  undefined_append a b hb := by rw [expand_append t a hb]
  plain a ha := expand_plain t ha
  defined run name value rest h := by
    rw [expand_run t h.isRun, h.reference]
    simp
  undefined run hrun h := by
    rw [expand_run t hrun, h.reference]
    by_cases hne : run = ""
    · simp [hne]
    · simp [hne]

namespace Expands

variable {f g : String → Expansion}

theorem append (hf : t.Expands f) (a : String) {b : String} (hb : Apart b) :
    f (a ++ b) = ⟨(f a).text ++ (f b).text, (f a).undefined ++ (f b).undefined⟩ := by
  rw [← hf.text_append a b hb, ← hf.undefined_append a b hb]

theorem eq_on_run (hf : t.Expands f) (hg : t.Expands g) {run : String} (hrun : IsRun run) :
    f ("$" ++ run) = g ("$" ++ run) := by
  rcases t.cuts_or_unnamed hrun with ⟨name, value, rest, hcut⟩ | hnone
  · rw [hf.defined run name value rest hcut, hg.defined run name value rest hcut]
  · rw [hf.undefined run hrun hnone, hg.undefined run hrun hnone]

theorem eq_on_append (hf : t.Expands f) (hg : t.Expands g) {front run rest : List Char} (hfront : '$' ∉ front)
    (hrun : ∀ c ∈ run, isWordChar c = true) (hrest : rest.head?.any isWordChar = false)
    (h : f (String.ofList rest) = g (String.ofList rest)) :
    f (String.ofList (front ++ '$' :: (run ++ rest))) = g (String.ofList (front ++ '$' :: (run ++ rest))) := by
  have hsplit : String.ofList (front ++ '$' :: (run ++ rest)) =
      String.ofList front ++ ("$" ++ String.ofList run ++ String.ofList rest) := by
    apply String.toList_injective
    simp
  have hplain : '$' ∉ (String.ofList front).toList := by rwa [String.toList_ofList]
  have hisRun : IsRun (String.ofList run) := by rwa [IsRun, String.toList_ofList]
  have hapart : Apart (String.ofList rest) := by rwa [apart_iff, String.toList_ofList]
  have hdollar : Apart ("$" ++ String.ofList run ++ String.ofList rest) := by
    rw [String.append_assoc]
    exact apart_dollar _
  rw [hsplit, hf.append _ hdollar, hg.append _ hdollar, hf.append _ hapart, hg.append _ hapart,
    hf.plain _ hplain, hg.plain _ hplain, hf.eq_on_run hg hisRun, h]

theorem unique (hf : t.Expands f) (hg : t.Expands g) : f = g := by
  -- the text before the first dollar sign is carried along, as it may end in a word character
  have hall : ∀ cs front : List Char, '$' ∉ front →
      f (String.ofList (front ++ cs)) = g (String.ofList (front ++ cs)) := by
    intro cs
    induction cs using reference_induction with
    | nil =>
      intro front hfront
      have hplain : '$' ∉ (String.ofList (front ++ [])).toList := by simpa using hfront
      rw [hf.plain _ hplain, hg.plain _ hplain]
    | char c cs hc ih =>
      intro front hfront
      have hfront' : '$' ∉ front ++ [c] := by simpa using ⟨hfront, Ne.symm hc⟩
      have heq := ih (front ++ [c]) hfront'
      rwa [List.append_assoc, List.singleton_append] at heq
    | bare cs hcs ih =>
      intro front hfront
      exact hf.eq_on_append hg hfront (List.forall_mem_nil _) hcs (ih [] List.not_mem_nil)
    | reference run cs hne hrun hcs ih =>
      intro front hfront
      exact hf.eq_on_append hg hfront hrun hcs (ih [] List.not_mem_nil)
  funext text
  have htext := hall text.toList [] List.not_mem_nil
  rwa [List.nil_append, String.ofList_toList] at htext

end Expands

theorem expands_iff_eq_expand (t : MacroTable) :
    (∀ f, t.Expands f ↔ f = t.expand) ∧
    (∀ run, IsRun run → (∃ name value rest, t.Cuts run name value rest) ∨ t.Unnamed run) ∧
    -- a value stands in the text as it is, whatever it holds
    (∀ a b run name value rest, t.Cuts run name value rest → Apart b → t.expand (a ++ "$" ++ run ++ b) =
      ⟨(t.expand a).text ++ value ++ rest ++ (t.expand b).text,
        (t.expand a).undefined ++ (t.expand b).undefined⟩) := by
  refine ⟨?_, fun run => t.cuts_or_unnamed, ?_⟩
  · intro f
    constructor
    · intro hf
      exact hf.unique t.expands_expand
    · rintro rfl
      exact t.expands_expand
  · intro a b run name value rest hcut hb
    have hsplit : a ++ "$" ++ run ++ b = a ++ ("$" ++ run) ++ b := by simp only [String.append_assoc]
    rw [hsplit, expand_append t _ hb, expand_append t a (apart_dollar run),
      t.expands_expand.defined run name value rest hcut]
    simp [String.append_assoc]

/-- The value of the longer name refers to the shorter one, and is not read again. -/
theorem expand_octave :
    let t : MacroTable := ⟨[("oct", "3"), ("octave", "$oct$"), ("o", "1")]⟩
    t.Cuts "octaves" "octave" "$oct$" "s" ∧
      t.expand "key=$octaves $oct" = ⟨"key=$oct$s 3", []⟩ := by
  intro t
  have hcut : t.Cuts "octaves" "octave" "$oct$" "s" := by
    refine ⟨by decide, rfl, by decide, rfl, ?_⟩
    intro longer hp hlt
    obtain rfl : longer = "octaves" := by
      apply String.toList_injective
      apply hp.eq_of_length_le
      rw [String.length_toList, String.length_toList]
      exact hlt
    rfl
  have hfront : t.expand "key=" = ⟨"key=", []⟩ := by decide +kernel
  have hback : t.expand " $oct" = ⟨" 3", []⟩ := by decide +kernel
  have h := (expands_iff_eq_expand t).2.2 "key=" " $oct" _ _ _ _ hcut (by decide)
  rw [hfront, hback] at h
  exact ⟨hcut, h⟩

end MacroTable

theorem openReferences_le_append (as cs : List Char) : openReferences cs ≤ openReferences (as ++ cs) := by
  induction as with
  | nil => exact le_rfl
  | cons c as ih =>
    rw [List.cons_append, openReferences]
    omega

theorem Setting.countP_undefinedMacro (s : Setting) (r : Registry) (settings : Settings) :
    (s.findings r settings).countP (fun f => f.problem = .undefinedMacro) = s.openReferences := by
  rw [findings, List.countP_append, List.countP_replicate]
  simp only [finding, decide_true, if_true, Nat.add_eq_left, List.countP_eq_zero, decide_eq_true_eq]
  intro f hf hp
  cases hm : r.lookup s.name with
  | none =>
    rw [hm] at hf
    obtain rfl := List.mem_singleton.mp hf
    cases hp
  | some m =>
    rw [hm] at hf
    rcases List.mem_append.mp hf with hf | hf
    · have hversion := isVersion_of_mem_versionFindings hf
      rw [hp] at hversion
      cases hversion
    · simp only [List.mem_ite_nil_left, Option.mem_toList, Option.map_eq_some_iff] at hf
      obtain ⟨-, p, hcheck, rfl⟩ := hf
      have hvalue := Entry.isOfValue_of_check? hcheck
      obtain rfl : p = .undefinedMacro := hp
      cases hvalue

namespace MacroTable

variable (t : MacroTable)

theorem reference_of_undefined {run : List Char} (h : (t.reference run).2 = true) :
    (t.reference run).1 = '$' :: run := by
  unfold reference at h ⊢
  cases hl : t.longestUpTo? run run.length with
  | none => rfl
  | some found =>
    rw [hl] at h
    cases h

theorem length_undefined_le (cs : List Char) :
    (t.expandChars cs).2.length ≤ openReferences (t.expandChars cs).1 := by
  induction cs using reference_induction with
  | nil => simp [expandChars]
  | char c cs hc ih =>
    rw [expandChars_char t hc]
    exact ih.trans (openReferences_le_append [c] _)
  | bare cs hcs ih =>
    rw [expandChars_bare t hcs]
    exact ih.trans (openReferences_le_append ['$'] _)
  | reference run cs hne hrun hcs ih =>
    rw [expandChars_reference t hne hrun hcs]
    cases hu : (t.reference run).2 with
    | false =>
      rw [if_neg Bool.false_ne_true]
      exact ih.trans (openReferences_le_append _ _)
    | true =>
      rw [if_pos rfl, reference_of_undefined t hu, List.cons_append, openReferences_reference hne hrun,
        List.length_cons]
      omega

theorem undefined_references_found (v : String) :
    (t.expand v).undefined.length ≤ openReferences (t.expand v).text.toList ∧
    (t.Plain → ¬ ['$', '$'] <:+: v.toList →
      openReferences (t.expand v).text.toList = (t.expand v).undefined.length) ∧
    ∀ (s : Setting) (r : Registry) (settings : Settings), s.value = (t.expand v).text →
      (s.findings r settings).countP (fun f => f.problem = .undefinedMacro) =
        openReferences (t.expand v).text.toList := by
  have htext : (t.expand v).text.toList = (t.expandChars v.toList).1 := String.toList_ofList
  have hlength : (t.expand v).undefined.length = (t.expandChars v.toList).2.length := List.length_map ..
  refine ⟨?_, ?_, ?_⟩
  · rw [htext, hlength]
    exact t.length_undefined_le v.toList
  · intro ht hv
    rw [htext, hlength, ht.openReferences_expandChars, t.freshReferences_eq_zero hv, Nat.add_zero]
  · intro s r settings hs
    rw [s.countP_undefinedMacro, Setting.openReferences, hs]

theorem undefined_references_found_label :
    let t : MacroTable := ⟨[("key", "C4"), ("name", "snare")]⟩
    let label : Setting := ⟨"master_label", "$nam, $ and snare_2 of $1", ⟨⟨"kit.sfz"⟩, 1, 23⟩⟩
    t.expand "$nam, $ and $name_2 of $1" = ⟨label.value, ["nam", "1"]⟩ ∧
      ∀ r settings, (label.findings r settings).countP (fun f => f.problem = .undefinedMacro) = 2 := by
  intro t label
  have hplain : t.Plain := plain_of_definitions (by decide)
  have hexpand : t.expand "$nam, $ and $name_2 of $1" = ⟨label.value, ["nam", "1"]⟩ := by decide +kernel
  obtain ⟨-, hequal, hfound⟩ := undefined_references_found t "$nam, $ and $name_2 of $1"
  refine ⟨hexpand, ?_⟩
  intro r settings
  rw [hfound label r settings (by rw [hexpand]), hequal hplain (by decide +kernel), hexpand]
  rfl

end MacroTable

end Sfz
