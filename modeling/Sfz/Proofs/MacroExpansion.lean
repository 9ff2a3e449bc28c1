import Mathlib.Data.List.TakeWhile
import Mathlib.Data.String.Basic
import Sfz.Check
import Sfz.Macro

/-!
Expansion of macros a second time. A reference of a text is either replaced, and loses its dollar sign, or
reported, and stays. So a second pass has something to do only where the first one made a reference: a
dollar sign without a name keeps its place, and what comes out of the text after it can be read as a name.
-/

namespace Sfz

open Text

@[elab_as_elim]
theorem reference_induction {motive : List Char → Prop} (nil : motive [])
    (char : ∀ c cs, c ≠ '$' → motive cs → motive (c :: cs))
    (bare : ∀ cs, cs.head?.any isWordChar = false → motive cs → motive ('$' :: cs))
    (reference : ∀ run cs, run ≠ [] → (∀ c ∈ run, isWordChar c = true) →
      cs.head?.any isWordChar = false → motive cs → motive ('$' :: (run ++ cs)))
    (cs : List Char) : motive cs := by
  induction hn : cs.length using Nat.strongRecOn generalizing cs with
  | ind n ih =>
    subst hn
    cases cs with
    | nil => exact nil
    | cons c cs =>
      have hrest : motive cs := ih cs.length (by simp) cs rfl
      by_cases hc : c = '$'
      · subst hc
        cases hw : cs.head?.any isWordChar with
        | false => exact bare cs hw hrest
        | true =>
          have hlength : (cs.dropWhile isWordChar).length < ('$' :: cs).length :=
            Nat.lt_succ_of_le (List.dropWhile_sublist isWordChar).length_le
          have hsplit := reference (cs.takeWhile isWordChar) (cs.dropWhile isWordChar)
          rw [List.takeWhile_append_dropWhile] at hsplit
          apply hsplit
          · cases cs with
            | nil => simp at hw
            | cons d cs =>
              have hd : isWordChar d = true := by simpa using hw
              rw [List.takeWhile_cons_of_pos hd]
              exact List.cons_ne_nil d _
          · exact fun d hd => List.mem_takeWhile_imp hd
          · have hhead := List.head?_dropWhile_not isWordChar cs
            cases h : (cs.dropWhile isWordChar).head? with
            | none => rfl
            | some d => simpa [h] using hhead
          · exact ih _ hlength _ rfl
      · exact char c cs hc hrest

theorem dollar_not_mem_run {run : List Char} (h : ∀ c ∈ run, isWordChar c = true) : '$' ∉ run :=
  fun hm => absurd (h _ hm) (by decide)

theorem openReferences_append {as : List Char} (h : '$' ∉ as) (cs : List Char) :
    openReferences (as ++ cs) = openReferences cs := by
  induction as with
  | nil => rfl
  | cons c as ih =>
    have hc : c ≠ '$' := Ne.symm (List.ne_of_not_mem_cons h)
    simp [openReferences, hc, ih (List.not_mem_of_not_mem_cons h)]

theorem openReferences_dollar (cs : List Char) :
    openReferences ('$' :: cs) = (if cs.head?.any isWordChar then 1 else 0) + openReferences cs := by
  simp [openReferences]

theorem openReferences_reference {run : List Char} (hne : run ≠ []) (h : ∀ c ∈ run, isWordChar c = true)
    (cs : List Char) : openReferences ('$' :: (run ++ cs)) = 1 + openReferences cs := by
  obtain ⟨c, run, rfl⟩ := List.exists_cons_of_ne_nil hne
  have hc : isWordChar c = true := h c (List.mem_cons_self ..)
  rw [openReferences_dollar, openReferences_append (dollar_not_mem_run h)]
  simp [hc]

namespace MacroTable

def Plain (t : MacroTable) : Prop :=
  ∀ name value, t.get? name = some value → '$' ∉ value.toList

theorem plain_of_definitions {t : MacroTable} (h : ∀ d ∈ t.definitions, '$' ∉ d.2.toList) : t.Plain := by
  intro name value hv
  obtain ⟨before, after, hd, -⟩ := List.lookup_eq_some_iff.mp hv
  apply h (name, value)
  rw [hd]
  simp

theorem longestUpTo?_eq_some {t : MacroTable} {run value rest : List Char} {n : Nat}
    (h : t.longestUpTo? run n = some (value, rest)) :
    ∃ name v, t.get? name = some v ∧ value = v.toList ∧ rest <:+ run := by
  induction n with
  | zero => exact absurd h nofun
  | succ n ih =>
    rw [longestUpTo?] at h
    split at h
    next v hv =>
      obtain ⟨rfl, rfl⟩ := Prod.mk.inj (Option.some.inj h)
      exact ⟨_, v, hv, rfl, List.drop_suffix _ _⟩
    next => exact ih h

theorem Plain.reference_cases {t : MacroTable} (ht : t.Plain) {run : List Char} (hrun : '$' ∉ run) :
    ('$' ∉ (t.reference run).1 ∧ (t.reference run).2 = false) ∨ t.reference run = ('$' :: run, true) := by
  unfold reference
  split
  next value rest h =>
    obtain ⟨name, v, hv, rfl, hrest⟩ := longestUpTo?_eq_some h
    left
    refine ⟨?_, rfl⟩
    rw [List.mem_append, not_or]
    exact ⟨ht name v hv, fun hm => hrun (hrest.subset hm)⟩
  next => exact .inr rfl

section Expand

variable (t : MacroTable)

theorem expandChars_char {c : Char} (hc : c ≠ '$') (cs : List Char) :
    t.expandChars (c :: cs) = (c :: (t.expandChars cs).1, (t.expandChars cs).2) := by
  rw [expandChars, if_neg hc]

theorem expandChars_bare {cs : List Char} (h : cs.head?.any isWordChar = false) :
    t.expandChars ('$' :: cs) = ('$' :: (t.expandChars cs).1, (t.expandChars cs).2) := by
  rw [expandChars, if_pos rfl]
  cases cs with
  | nil => simp [reference, longestUpTo?]
  | cons c cs =>
    have hc : isWordChar c = false := by simpa using h
    simp [hc, reference, longestUpTo?]

theorem expandChars_reference {run : List Char} (hne : run ≠ []) (hrun : ∀ c ∈ run, isWordChar c = true)
    {cs : List Char} (h : cs.head?.any isWordChar = false) :
    t.expandChars ('$' :: (run ++ cs)) = ((t.reference run).1 ++ (t.expandChars cs).1,
      if (t.reference run).2 then run :: (t.expandChars cs).2 else (t.expandChars cs).2) := by
  have hend : cs.takeWhile isWordChar = [] ∧ cs.dropWhile isWordChar = cs := by
    cases cs with
    | nil => exact ⟨rfl, rfl⟩
    | cons c cs =>
      have hc : isWordChar c = false := by simpa using h
      simp [hc]
  rw [expandChars, if_pos rfl, List.takeWhile_append_of_pos hrun, List.dropWhile_append_of_pos hrun,
    hend.1, hend.2]
  simp [hne]

/-- How many dollar signs without a name get one when the text after them is expanded. -/
def freshReferences : List Char → Nat
  | [] => 0
  | c :: cs =>
    (if c = '$' && !cs.head?.any isWordChar && (t.expandChars cs).1.head?.any isWordChar then 1 else 0) +
      freshReferences cs

theorem freshReferences_append {as : List Char} (h : '$' ∉ as) (cs : List Char) :
    t.freshReferences (as ++ cs) = t.freshReferences cs := by
  induction as with
  | nil => rfl
  | cons c as ih =>
    have hc : c ≠ '$' := Ne.symm (List.ne_of_not_mem_cons h)
    simp [freshReferences, hc, ih (List.not_mem_of_not_mem_cons h)]

theorem freshReferences_bare {cs : List Char} (h : cs.head?.any isWordChar = false) :
    t.freshReferences ('$' :: cs) =
      (if (t.expandChars cs).1.head?.any isWordChar then 1 else 0) + t.freshReferences cs := by
  simp [freshReferences, h]

theorem freshReferences_reference {run : List Char} (hne : run ≠ [])
    (hrun : ∀ c ∈ run, isWordChar c = true) (cs : List Char) :
    t.freshReferences ('$' :: (run ++ cs)) = t.freshReferences cs := by
  obtain ⟨c, run, rfl⟩ := List.exists_cons_of_ne_nil hne
  have hc : isWordChar c = true := hrun c (List.mem_cons_self ..)
  have hrest := t.freshReferences_append (dollar_not_mem_run hrun) cs
  rw [List.cons_append] at hrest
  rw [List.cons_append, freshReferences, hrest]
  simp [hc]

theorem freshReferences_eq_zero {cs : List Char} (h : ¬ ['$', '$'] <:+: cs) : t.freshReferences cs = 0 := by
  induction cs with
  | nil => rfl
  | cons c cs ih =>
    have hrest : t.freshReferences cs = 0 := ih (fun hi => h (List.infix_cons hi))
    rw [freshReferences, hrest]
    cases cs with
    | nil => simp [expandChars]
    | cons d cs =>
      by_cases hc : c = '$'
      · subst hc
        have hd : d ≠ '$' := by
          rintro rfl
          exact h ⟨[], cs, rfl⟩
        rw [expandChars_char t hd]
        simp
      · simp [hc]

theorem expandChars_eq_self {cs : List Char} (h : openReferences cs = 0) : t.expandChars cs = (cs, []) := by
  induction cs using reference_induction with
  | nil => rw [expandChars]
  | char c cs hc ih =>
    rw [openReferences, Nat.add_eq_zero_iff] at h
    rw [expandChars_char t hc, ih h.2]
  | bare cs hcs ih =>
    rw [openReferences, Nat.add_eq_zero_iff] at h
    rw [expandChars_bare t hcs, ih h.2]
  | reference run cs hne hrun hcs ih =>
    rw [openReferences_reference hne hrun] at h
    omega

theorem expand_plain {a : String} (h : '$' ∉ a.toList) : t.expand a = ⟨a, []⟩ := by
  have hopen : openReferences a.toList = 0 := by
    have happend := openReferences_append h []
    rwa [List.append_nil] at happend
  rw [expand, expandChars_eq_self t hopen]
  simp

end Expand

variable {t : MacroTable}

theorem Plain.count_expandChars (ht : t.Plain) (cs : List Char) :
    (t.expandChars cs).1.count '$' + openReferences cs = cs.count '$' + (t.expandChars cs).2.length := by
  induction cs using reference_induction with
  | nil => simp [expandChars, openReferences]
  | char c cs hc ih =>
    have hdollar : '$' ∉ [c] := by simpa using Ne.symm hc
    have hopen := openReferences_append hdollar cs
    rw [List.singleton_append] at hopen
    rw [expandChars_char t hc, hopen, List.count_cons_of_ne hc, List.count_cons_of_ne hc]
    exact ih
  | bare cs hcs ih =>
    rw [expandChars_bare t hcs, openReferences_dollar, hcs, List.count_cons_self, List.count_cons_self]
    simp only [Bool.false_eq_true, if_false]
    omega
  | reference run cs hne hrun hcs ih =>
    have hdollar := dollar_not_mem_run hrun
    rw [expandChars_reference t hne hrun hcs, openReferences_reference hne hrun, List.count_cons_self,
      List.count_append, List.count_append, List.count_eq_zero_of_not_mem hdollar]
    rcases ht.reference_cases hdollar with ⟨hout, hfound⟩ | hkept
    · rw [List.count_eq_zero_of_not_mem hout, hfound]
      simp only [Bool.false_eq_true, if_false]
      omega
    · rw [hkept]
      simp only [List.count_cons_self, List.count_eq_zero_of_not_mem hdollar, if_true, List.length_cons]
      omega

theorem Plain.openReferences_expandChars (ht : t.Plain) (cs : List Char) :
    openReferences (t.expandChars cs).1 = (t.expandChars cs).2.length + t.freshReferences cs := by
  induction cs using reference_induction with
  | nil => simp [expandChars, openReferences, freshReferences]
  | char c cs hc ih =>
    have hdollar : '$' ∉ [c] := by simpa using Ne.symm hc
    have hopen := openReferences_append hdollar (t.expandChars cs).1
    have hfresh := t.freshReferences_append hdollar cs
    rw [List.singleton_append] at hopen hfresh
    rw [expandChars_char t hc, hopen, hfresh, ih]
  | bare cs hcs ih =>
    rw [expandChars_bare t hcs, openReferences_dollar, freshReferences_bare t hcs, ih]
    exact Nat.add_left_comm _ _ _
  | reference run cs hne hrun hcs ih =>
    have hdollar := dollar_not_mem_run hrun
    rw [expandChars_reference t hne hrun hcs, freshReferences_reference t hne hrun]
    rcases ht.reference_cases hdollar with ⟨hout, hfound⟩ | hkept
    · rw [openReferences_append hout, hfound]
      exact ih
    · rw [hkept, List.cons_append, openReferences_reference hne hrun, ih]
      simp only [if_true, List.length_cons]
      omega

theorem Plain.expandChars_eq_self_iff (ht : t.Plain) {cs : List Char} :
    t.expandChars cs = (cs, []) ↔ openReferences cs = 0 := by
  constructor
  · intro h
    have hcount := ht.count_expandChars cs
    rw [h] at hcount
    simpa using hcount
  · exact t.expandChars_eq_self

theorem expand_eq_self_iff (ht : t.Plain) (text : String) :
    t.expand text = ⟨text, []⟩ ↔ openReferences text.toList = 0 := by
  rw [← ht.expandChars_eq_self_iff, expand, Expansion.mk.injEq, Prod.ext_iff, List.map_eq_nil_iff,
    String.ofList_eq]

/-- A second pass changes nothing and reports nothing exactly if the first one made no reference, and it
makes none in a text without two dollar signs in a row. -/
theorem expand_expand_iff (ht : t.Plain) (text : String) (hu : (t.expand text).undefined = []) :
    (t.expand (t.expand text).text = ⟨(t.expand text).text, []⟩ ↔ t.freshReferences text.toList = 0) ∧
    (¬ ['$', '$'] <:+: text.toList → t.expand (t.expand text).text = ⟨(t.expand text).text, []⟩) := by
  have hnone : (t.expandChars text.toList).2 = [] := List.map_eq_nil_iff.mp hu
  have hopen := ht.openReferences_expandChars text.toList
  rw [hnone, List.length_nil, Nat.zero_add] at hopen
  have htext : (t.expand text).text.toList = (t.expandChars text.toList).1 := String.toList_ofList
  have hiff : t.expand (t.expand text).text = ⟨(t.expand text).text, []⟩ ↔
      t.freshReferences text.toList = 0 := by
    rw [expand_eq_self_iff ht, htext, hopen]
  exact ⟨hiff, fun h => hiff.mpr (t.freshReferences_eq_zero h)⟩

/-- Two passes can do more than one: the first dollar sign has no name until the second is replaced. -/
theorem expand_not_idempotent : ¬ ∀ (t : MacroTable) (text : String), t.Plain →
    (t.expand text).undefined = [] → t.expand (t.expand text).text = ⟨(t.expand text).text, []⟩ := by
  intro h
  have hplain : (MacroTable.mk [("a", "a")]).Plain := plain_of_definitions (by decide)
  exact absurd (h ⟨[("a", "a")]⟩ "$$a" hplain (by decide +kernel)) (by decide +kernel)

theorem expand_expand_kick :
    let t : MacroTable := ⟨[("name", "kick drum"), ("pitch", "24")]⟩
    (t.expand "$ $pitch8 and $name$").text = "$ 248 and kick drum$" ∧
      t.expand "$ 248 and kick drum$" = ⟨"$ 248 and kick drum$", []⟩ := by
  intro t
  have hplain : t.Plain := plain_of_definitions (by decide)
  have htext : t.expand "$ $pitch8 and $name$" = ⟨"$ 248 and kick drum$", []⟩ := by decide +kernel
  have hagain := (expand_expand_iff hplain "$ $pitch8 and $name$" (by rw [htext])).2 (by decide +kernel)
  rw [htext] at hagain ⊢
  exact ⟨rfl, hagain⟩

end MacroTable

end Sfz
