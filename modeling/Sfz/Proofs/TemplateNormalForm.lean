import Mathlib.Data.List.Destutter
import Sfz.Proofs.Respelling

namespace Sfz.Template

/-- A text around a longest run of one uppercase letter, which stands there `n + 1` times. -/
structure Run (text before : List Char) (l : Char) (n : Nat) (after : List Char) : Prop where
  text_eq : text = before ++ List.replicate (n + 1) l ++ after
  upper : l.isUpper = true
  before_ne : before.getLast? ≠ some l
  after_ne : after.head? ≠ some l

theorem Run.cons {text u v : List Char} {c l : Char} {n : Nat} (h : Run text u l n v) (hc : u = [] → c ≠ l) :
    Run (c :: text) (c :: u) l n v := by
  refine ⟨by rw [h.text_eq]; rfl, h.upper, ?_, h.after_ne⟩
  cases u with
  | nil => simpa using hc rfl
  | cons d u => rw [List.getLast?_cons_cons]; exact h.before_ne

def RunsAlone (text : List Char) : Prop :=
  ∀ before l n after, Run text before l n after →
    (∀ c ∈ before.getLast?, c.isDigit = false ∧ c.isUpper = false) ∧
      ∀ c ∈ after.head?, c.isDigit = false ∧ c.isUpper = false

theorem exists_front_run (l : Char) (cs : List Char) :
    ∃ n rest, cs = List.replicate n l ++ rest ∧ rest.head? ≠ some l := by
  induction cs with
  | nil => exact ⟨0, [], rfl, by simp⟩
  | cons c cs ih =>
    by_cases hc : c = l
    · obtain ⟨n, rest, rfl, hrest⟩ := ih
      exact ⟨n + 1, rest, by rw [hc, List.replicate_succ, List.cons_append], hrest⟩
    · exact ⟨0, c :: cs, rfl, by simpa using hc⟩

theorem exists_back_run (l : Char) (cs : List Char) :
    ∃ n rest, cs = rest ++ List.replicate n l ∧ rest.getLast? ≠ some l := by
  obtain ⟨n, rest, hcs, hrest⟩ := exists_front_run l cs.reverse
  refine ⟨n, rest.reverse, ?_, by rwa [List.getLast?_reverse]⟩
  rw [← List.reverse_reverse cs, hcs, List.reverse_append, List.reverse_replicate]

theorem not_touch_after_upper {a b : Char} (ha : a.isUpper = true) (hne : a ≠ b) :
    ¬Touch a b ↔ b.isDigit = false ∧ b.isUpper = false := by
  have hdigit := isDigit_of_isUpper ha
  simp [Touch, ha, hdigit, hne]

theorem not_touch_before_upper {a b : Char} (hb : b.isUpper = true) (hne : a ≠ b) :
    ¬Touch a b ↔ a.isDigit = false ∧ a.isUpper = false := by
  have hdigit := isDigit_of_isUpper hb
  simp [Touch, hb, hdigit, hne]

theorem isChain_touch_iff (cs : List Char) : cs.IsChain (fun a b => ¬Touch a b) ↔ RunsAlone cs := by
  constructor
  · rintro h u l n v ⟨rfl, hl, hu, hv⟩
    constructor
    · intro c hc
      rw [List.append_assoc, List.isChain_append] at h
      refine (not_touch_before_upper hl ?_).mp (h.2.2 c hc l (by simp [List.replicate_succ]))
      rintro rfl
      exact hu hc
    · intro c hc
      rw [List.isChain_append] at h
      refine (not_touch_after_upper hl ?_).mp (h.2.2 l (by simp [List.replicate_succ']) c hc)
      rintro rfl
      exact hv hc
  · intro h
    apply List.isChain_iff_forall_rel_of_append_cons_cons.mpr
    rintro a b p q rfl htouch
    have hne : a ≠ b := by
      rintro rfl
      have hdigit := @isDigit_of_isUpper a
      grind [Touch]
    -- one of the two belongs to a run, which the other one ends
    by_cases ha : a.isUpper = true
    · obtain ⟨n, u, rfl, hu⟩ := exists_back_run a p
      have hrun : Run (u ++ List.replicate n a ++ a :: b :: q) u a n (b :: q) :=
        ⟨by simp [List.replicate_succ'], ha, hu, by simpa using hne.symm⟩
      exact (not_touch_after_upper ha hne).mpr ((h _ _ _ _ hrun).2 b rfl) htouch
    · have hb : b.isUpper = true := by
        rcases htouch with htouch | htouch | htouch
        · exact absurd htouch.1 ha
        · exact htouch.2
        · exact absurd htouch.1 ha
      obtain ⟨n, v, rfl, hv⟩ := exists_front_run b q
      have hrun : Run (p ++ a :: b :: (List.replicate n b ++ v)) (p ++ [a]) b n v :=
        ⟨by simp [List.replicate_succ], hb, by simpa using hne, hv⟩
      exact (not_touch_before_upper hb hne).mpr ((h _ _ _ _ hrun).1 a (by simp)) htouch

def reduced (cs : List Char) : List Char :=
  cs.destutter (fun a b => ¬(a.isUpper = true ∧ a = b))

theorem reduced_run {c : Char} (hc : c.isUpper = true) (cs : List Char) :
    reduced (c :: c :: cs) = reduced (c :: cs) := by
  rw [reduced, List.destutter_cons_cons, if_neg (by simp [hc])]
  rfl

theorem reduced_cons {c : Char} {cs : List Char} (h : cs.head? = some c → c.isUpper = false) :
    reduced (c :: cs) = c :: reduced cs := by
  cases cs with
  | nil => rfl
  | cons d ds =>
    rw [reduced, List.destutter_cons_cons, if_pos]
    · rfl
    · rintro ⟨hc, rfl⟩
      rw [h rfl] at hc
      cases hc

theorem reduced_cases (c : Char) (cs : List Char) :
    (c.isUpper = true ∧ ∃ ds, cs = c :: ds) ∨ (cs.head? = some c → c.isUpper = false) := by
  cases cs with
  | nil => simp
  | cons d ds => by_cases hd : d = c <;> simp [hd]

theorem getLast?_reduced (cs : List Char) : (reduced cs).getLast? = cs.getLast? := by
  induction cs with
  | nil => rfl
  | cons c cs ih =>
    rcases reduced_cases c cs with ⟨hc, ds, rfl⟩ | h
    · rw [reduced_run hc, ih, List.getLast?_cons_cons]
    · rw [reduced_cons h, List.getLast?_cons, List.getLast?_cons, ih]

theorem reduced_concat {x : Char} (hx : x.isUpper = false) (cs : List Char) :
    reduced (cs ++ [x]) = reduced cs ++ [x] := by
  induction cs with
  | nil => rfl
  | cons c cs ih =>
    rcases reduced_cases c cs with ⟨hc, ds, rfl⟩ | h
    · rw [reduced_run hc, ← ih]
      exact reduced_run hc (ds ++ [x])
    · rw [reduced_cons h, List.cons_append, List.cons_append, ← ih]
      apply reduced_cons
      cases cs with
      | nil => rintro ⟨⟩; exact hx
      | cons d ds => exact h

theorem endsInCc_concat {cs : List Char} {x : Char} :
    endsInCc (cs ++ [x]) = true ↔ x = 'c' ∧ cs.getLast? = some 'c' := by
  rw [endsInCc, List.isSuffixOf_iff_suffix, List.getLast?_eq_some_iff]
  constructor
  · rintro ⟨ds, hds⟩
    obtain ⟨hcs, hx⟩ := List.append_inj' (show (ds ++ ['c']) ++ ['c'] = cs ++ [x] by simpa using hds) rfl
    exact ⟨(List.singleton_inj.mp hx).symm, ds, hcs.symm⟩
  · rintro ⟨rfl, ds, rfl⟩
    exact ⟨ds, by simp⟩

theorem endsInCc_reduced (cs : List Char) : endsInCc (reduced cs) = endsInCc cs := by
  rcases List.eq_nil_or_concat' cs with rfl | ⟨ds, x, rfl⟩
  · rfl
  · apply Bool.eq_iff_iff.mpr
    by_cases hx : x.isUpper = true
    · -- the last letter is that of a run, and stays one
      have hlast : (reduced (ds ++ [x])).getLast? = some x := by rw [getLast?_reduced, List.getLast?_concat]
      obtain ⟨es, hes⟩ := List.getLast?_eq_some_iff.mp hlast
      have hc : x ≠ 'c' := by rintro rfl; cases hx
      rw [hes, endsInCc_concat, endsInCc_concat]
      simp [hc]
    · rw [reduced_concat (by simpa using hx), endsInCc_concat, endsInCc_concat, getLast?_reduced]

theorem pieces_eq_slot_cons_iff {cs : List Char} {l : Char} :
    (∃ ps, pieces cs = .slot l :: ps) ↔ cs.head? = some l ∧ l.isUpper = true := by
  cases cs with
  | nil => simp [pieces]
  | cons c cs =>
    rcases pieces_cons c cs with ⟨hc, ps, hp⟩ | ⟨hc, t, ps, hp⟩
    · rw [hp]
      constructor
      · rintro ⟨qs, ⟨⟩⟩
        exact ⟨rfl, hc⟩
      · rintro ⟨⟨⟩, -⟩
        exact ⟨ps, rfl⟩
    · rw [hp]
      constructor
      · rintro ⟨qs, ⟨⟩⟩
      · rintro ⟨⟨⟩, hl⟩
        rw [hc] at hl
        cases hl

theorem pieces_text (cs : List Char) : (pieces cs).flatMap Piece.text = reduced cs := by
  induction cs with
  | nil => rfl
  | cons c cs ih =>
    have hj := joins_pieces c cs
    generalize pieces (c :: cs) = qs at hj
    generalize hps : pieces cs = ps at hj ih
    cases hj with
    | run hc =>
      obtain ⟨hhead, -⟩ := pieces_eq_slot_cons_iff.mp ⟨_, hps⟩
      obtain ⟨ds, rfl⟩ := List.head?_eq_some_iff.mp hhead
      rw [ih, reduced_run hc]
    | slot hc hne =>
      rw [List.flatMap_cons, ih, reduced_cons]
      · rfl
      · intro hhead
        obtain ⟨qs, hqs⟩ := pieces_eq_slot_cons_iff.mpr ⟨hhead, hc⟩
        exact absurd (hps.symm.trans hqs) (hne qs)
    | extend hc =>
      rw [reduced_cons (fun _ => hc), ← ih]
      rfl
    | literal hc hne =>
      rw [reduced_cons (fun _ => hc), ← ih]
      rfl

theorem Joins.unique {c : Char} {ps qs qs' : List Piece} (h : Joins c ps qs) (h' : Joins c ps qs') : qs = qs' := by
  cases h <;> cases h' <;> grind

theorem Joins.pieces_eq {c : Char} {cs : List Char} {qs : List Piece} (h : Joins c (pieces cs) qs) :
    pieces (c :: cs) = qs :=
  (joins_pieces c cs).unique h

theorem exists_run {cs : List Char} {qs : List Piece} {l : Char} (ps : List Piece) (h : pieces cs = ps ++ .slot l :: qs) :
    ∃ u n v, Run cs u l n v ∧ pieces u = ps := by
  induction cs generalizing ps with
  | nil => simp [pieces] at h
  | cons c cs ih =>
    have hj := joins_pieces c cs
    rw [h] at hj
    generalize hcut : pieces cs = cut at hj
    cases ps with
    | nil =>
      cases hj with
      | run hc =>
        obtain ⟨u, n, v, ⟨rfl, -, -, hv⟩, hu⟩ := ih [] hcut
        have hreduced : reduced u = [] := by rw [← pieces_text, hu, List.flatMap_nil]
        obtain rfl : u = [] := (List.destutter_eq_nil _).mp hreduced
        exact ⟨[], n + 1, v, ⟨rfl, hc, by simp, hv⟩, rfl⟩
      | slot hc hne =>
        refine ⟨[], 0, cs, ⟨rfl, hc, by simp, ?_⟩, rfl⟩
        intro hhead
        obtain ⟨rest, hrest⟩ := pieces_eq_slot_cons_iff.mpr ⟨hhead, hc⟩
        exact hne rest (hcut.symm.trans hrest)
    | cons p ps =>
      cases hj with
      | run hc =>
        obtain ⟨u, n, v, hrun, hu⟩ := ih (.slot c :: ps) hcut
        refine ⟨c :: u, n, v, hrun.cons ?_, Joins.pieces_eq (hu ▸ .run hc)⟩
        rintro rfl
        cases hu
      | slot hc hne =>
        obtain ⟨u, n, v, hrun, rfl⟩ := ih _ hcut
        refine ⟨c :: u, n, v, hrun.cons ?_, Joins.pieces_eq (.slot hc ?_)⟩
        · rintro rfl rfl
          exact hne qs rfl
        · intro rest hrest
          exact hne (rest ++ .slot l :: qs) (by rw [hrest]; rfl)
      | @extend t _ hc =>
        obtain ⟨u, n, v, hrun, hu⟩ := ih (.literal t :: ps) hcut
        refine ⟨c :: u, n, v, hrun.cons ?_, Joins.pieces_eq (hu ▸ .extend hc)⟩
        rintro rfl
        cases hu
      | literal hc hne =>
        obtain ⟨u, n, v, hrun, rfl⟩ := ih _ hcut
        refine ⟨c :: u, n, v, hrun.cons ?_, Joins.pieces_eq (.literal hc ?_)⟩
        · rintro - rfl
          rw [hrun.upper] at hc
          cases hc
        · intro t rest hrest
          exact hne t (rest ++ .slot l :: qs) (by rw [hrest]; rfl)

structure NormalForm (ranges : SlotRanges) (t : Template) : Prop where
  normal : t.Normal
  written : segmentsText t.segments = reduced t.text.toList
  ranged : ∀ a l r b, t.segments = a ++ .slot l r :: b → ∃ u n v, Run t.text.toList u l n v ∧
    segmentsText a = reduced u ∧
    r = (ranges.declared.lookup l).getD (if ['c', 'c'] <:+ u then ranges.controller else .full)

theorem slotRange_eq (ranges : SlotRanges) (u : List Char) (l : Char) : slotRange ranges (endsInCc u) l =
    (ranges.declared.lookup l).getD (if ['c', 'c'] <:+ u then ranges.controller else .full) := by
  rw [slotRange, endsInCc]
  cases ranges.declared.lookup l with
  | some r => rfl
  | none => simp

theorem forall_slot_cons {s : Segment} {rest : List Segment} {P : List Segment → Char → IndexRange → Prop} :
    (∀ a l r b, s :: rest = a ++ .slot l r :: b → P a l r) ↔
      (∀ l r, s = .slot l r → P [] l r) ∧ ∀ a l r b, rest = a ++ .slot l r :: b → P (s :: a) l r := by
  constructor
  · intro h
    exact ⟨fun l r hs => h [] l r rest (by rw [hs]; rfl), fun a l r b hrest => h (s :: a) l r b (by rw [hrest]; rfl)⟩
  · rintro ⟨hfirst, hrest⟩ a l r b hsplit
    cases a with
    | nil => exact hfirst l r (List.cons.inj hsplit).1
    | cons s' a =>
      obtain ⟨rfl, htail⟩ := List.cons.inj hsplit
      exact hrest a l r b htail

theorem endsInCc_append {u t : List Char} (hu : u.getLast? ≠ some 'c') (ht : t ≠ []) :
    endsInCc (u ++ t) = endsInCc t := by
  obtain ⟨ds, x, rfl⟩ := (List.eq_nil_or_concat' t).resolve_left ht
  apply Bool.eq_iff_iff.mpr
  rw [← List.append_assoc, endsInCc_concat, endsInCc_concat]
  rcases List.eq_nil_or_concat' ds with rfl | ⟨es, y, rfl⟩
  · simp [hu]
  · simp [← List.append_assoc]

theorem eq_withRanges_iff {ranges : SlotRanges} {u : List Char} {segments : List Segment}
    (h : Separated (segments.map Segment.piece))
    (hu : ∀ t, (segments.map Segment.piece).head? = some (.literal t) → u.getLast? ≠ some 'c') :
    segments = withRanges ranges (endsInCc u) (segments.map Segment.piece) ↔
      ∀ a l r b, segments = a ++ .slot l r :: b → r = slotRange ranges (endsInCc (u ++ segmentsText a)) l := by
  induction segments generalizing u with
  | nil => simp [withRanges]
  | cons s rest ih =>
    rw [List.map_cons] at h
    have hproper := h.proper s.piece (List.mem_cons_self ..)
    have hnext : ∀ q ∈ (rest.map Segment.piece).head?, s.piece.Apart q := (List.isChain_cons.mp h.apart).1
    rw [forall_slot_cons]
    cases s with
    | literal t =>
      have ih := ih (u := u ++ t) h.tail (fun t' ht' => (hnext _ ht').elim)
      rw [endsInCc_append (hu t rfl) hproper.1] at ih
      simp [Segment.piece, withRanges, ih, segmentsText]
    | slot m r =>
      have hm : m ≠ 'c' := by rintro rfl; cases hproper
      have hcc : endsInCc (u ++ [m]) = false := by
        apply Bool.eq_false_iff.mpr
        simp [endsInCc_concat, hm]
      have ih := ih (u := u ++ [m]) h.tail (fun _ _ => by simpa using hm)
      rw [hcc] at ih
      simp [Segment.piece, withRanges, ih, segmentsText]

theorem normalForm_withRanges {ranges : SlotRanges} {text : String} (h : Separated (pieces text.toList)) :
    NormalForm ranges ⟨text, withRanges ranges false (pieces text.toList)⟩ := by
  have hcut := map_piece_withRanges ranges false (pieces text.toList)
  refine ⟨?_, ?_, ?_⟩
  · rw [Normal, hcut]
    exact h
  · rw [segmentsText_eq, hcut, pieces_text]
  · intro a l r b hsplit
    dsimp only at hsplit
    have hr := (eq_withRanges_iff (u := []) (hcut.symm ▸ h) (by simp)).mp (by rw [hcut]; rfl) a l r b hsplit
    have hslot : pieces text.toList = a.map Segment.piece ++ .slot l :: b.map Segment.piece := by
      rw [← hcut, hsplit, List.map_append, List.map_cons, Segment.piece]
    obtain ⟨u, n, v, hrun, hu⟩ := exists_run _ hslot
    have ha : segmentsText a = reduced u := by rw [segmentsText_eq, ← hu, pieces_text]
    refine ⟨u, n, v, hrun, ha, ?_⟩
    rw [hr, List.nil_append, ha, endsInCc_reduced, slotRange_eq]

theorem NormalForm.segments_eq {ranges : SlotRanges} {t : Template} (h : NormalForm ranges t) :
    t.segments = withRanges ranges false (t.segments.map Segment.piece) := by
  apply (eq_withRanges_iff (u := []) h.normal (by simp)).mpr
  intro a l r b hsplit
  obtain ⟨u, n, v, -, ha, hr⟩ := h.ranged a l r b hsplit
  rw [hr, List.nil_append, ha, endsInCc_reduced, slotRange_eq]

theorem NormalForm.eq {ranges : SlotRanges} {t : Template} (h : NormalForm ranges t)
    (htext : Separated (pieces t.text.toList)) : t = ⟨t.text, withRanges ranges false (pieces t.text.toList)⟩ := by
  have hcut : t.segments.map Segment.piece = pieces t.text.toList := by
    rw [← Separated.pieces_text h.normal, ← segmentsText_eq, h.written, ← pieces_text]
    exact htext.pieces_text
  rw [← hcut, ← h.segments_eq]

theorem NormalForm.respell {ranges : SlotRanges} {t : Template} {c : ControllerSlot} {s : String}
    (h : NormalForm ranges t) (hc : t.controllerSlot? = some c) (hs : s ∈ spellings) :
    NormalForm ranges (c.respell s) := by
  have hnormal := respell_normal h.normal hc hs
  have hcut := pieces_respell hnormal
  have hform : NormalForm ranges ⟨(c.respell s).text, withRanges ranges false (pieces (c.respell s).text.toList)⟩ :=
    normalForm_withRanges (hcut ▸ hnormal)
  rwa [hcut, ← withRanges_respell h.segments_eq hc hs] at hform

structure Compilable (text : String) (ranges : SlotRanges) : Prop where
  nonempty : text ≠ ""
  alone : RunsAlone text.toList
  declared : ∀ d ∈ ranges.declared, d.1.isUpper = true ∧ d.1 ∈ text.toList

theorem compilable_iff {text : String} {ranges : SlotRanges} :
    (∃ t, compile text ranges = .ok t) ↔ Compilable text ranges := by
  rw [compile_isOk_iff]
  constructor
  · rintro ⟨⟨hne, hapart⟩, hdeclared⟩
    exact ⟨hne, (isChain_touch_iff _).mp hapart, fun d hd => (hdeclared d hd).symm⟩
  · rintro ⟨hne, halone, hdeclared⟩
    exact ⟨⟨hne, (isChain_touch_iff _).mpr halone⟩, fun d hd => (hdeclared d hd).symm⟩

theorem compile_eq_ok_iff_normalForm {text : String} {ranges : SlotRanges} {t : Template} :
    compile text ranges = .ok t ↔ Compilable text ranges ∧ t.text = text ∧ NormalForm ranges t := by
  constructor
  · intro h
    refine ⟨compilable_iff.mp ⟨t, h⟩, ?_⟩
    obtain ⟨rfl, hseparated⟩ := compile_eq_ok h
    exact ⟨rfl, normalForm_withRanges hseparated⟩
  · rintro ⟨hcompilable, rfl, hform⟩
    obtain ⟨t', ht'⟩ := compilable_iff.mpr hcompilable
    obtain ⟨rfl, hseparated⟩ := compile_eq_ok ht'
    rw [ht', ← hform.eq hseparated]

theorem compiled_in_normal_form (text : String) (ranges : SlotRanges) :
    ((∃ t, compile text ranges = .ok t) ↔ Compilable text ranges) ∧
      (∀ t, compile text ranges = .ok t ↔ Compilable text ranges ∧ t.text = text ∧ NormalForm ranges t) ∧
      ∀ t c s, NormalForm ranges t → t.controllerSlot? = some c → s ∈ spellings → NormalForm ranges (c.respell s) := by
  refine ⟨compilable_iff, fun t => compile_eq_ok_iff_normalForm, ?_⟩
  intro t c s h hc hs
  exact h.respell hc hs

theorem compiled_in_normal_form_lfo :
    let ranges : SlotRanges := ⟨[('N', ⟨1, 32⟩)], ⟨0, 127⟩⟩
    let t : Template := ⟨"lfoNN_ampccX", [.literal ['l', 'f', 'o'], .slot 'N' ⟨1, 32⟩,
      .literal ['_', 'a', 'm', 'p', 'c', 'c'], .slot 'X' ⟨0, 127⟩]⟩
    let v : Template := ⟨"lfoN_amp_onccX", [.literal ['l', 'f', 'o'], .slot 'N' ⟨1, 32⟩,
      .literal ['_', 'a', 'm', 'p', '_', 'o', 'n', 'c', 'c'], .slot 'X' ⟨0, 127⟩]⟩
    compile "lfoNN_ampccX" ranges = .ok t ∧ Compilable "lfoNN_ampccX" ranges ∧ NormalForm ranges t ∧
      t.controllerSlot?.map (·.respell "_oncc") = some v ∧ NormalForm ranges v := by
  intro ranges t v
  have h : compile "lfoNN_ampccX" ranges = .ok t := rfl
  obtain ⟨-, hcompile, hrespell⟩ := compiled_in_normal_form "lfoNN_ampccX" ranges
  obtain ⟨hcompilable, -, hform⟩ := (hcompile t).mp h
  exact ⟨h, hcompilable, hform, rfl, hrespell t _ "_oncc" hform rfl (by decide)⟩

/-- A letter that stands in the text is no slot unless it is uppercase. -/
theorem declared_lowercase_letter_refused : ¬∀ (text : String) (ranges : SlotRanges),
    (∃ t, compile text ranges = .ok t) ↔
      text ≠ "" ∧ RunsAlone text.toList ∧ ∀ d ∈ ranges.declared, d.1 ∈ text.toList := by
  intro h
  have halone : RunsAlone "lfoN_freq".toList := by
    apply (isChain_touch_iff _).mp
    unfold Touch
    decide
  obtain ⟨t, ht⟩ := (h "lfoN_freq" ⟨[('f', ⟨1, 2⟩)], ⟨0, 255⟩⟩).mpr ⟨by decide, halone, by decide⟩
  have herror : compile "lfoN_freq" ⟨[('f', ⟨1, 2⟩)], ⟨0, 255⟩⟩ = .error (.unknownSlot 'f') := rfl
  rw [herror] at ht
  cases ht

end Sfz.Template
