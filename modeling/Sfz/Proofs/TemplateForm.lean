import Mathlib.Data.List.Chain
import Sfz.Opcode.Template

namespace Sfz

def Segment.piece : Segment → Template.Piece
  | .literal t => .literal t
  | .slot l _ => .slot l

namespace Template

namespace Piece

def Proper : Piece → Prop
  | .literal t => t ≠ [] ∧ ∀ c ∈ t, c.isUpper = false
  | .slot l => l.isUpper = true

def Maximal : Piece → Piece → Prop
  | .literal _, .literal _ => False
  | .slot l, .slot m => l ≠ m
  | _, _ => True

def Apart : Piece → Piece → Prop
  | .literal t, .slot _ => t.getLast?.any Char.isDigit = false
  | .slot _, .literal t => t.head?.any Char.isDigit = false
  | _, _ => False

end Piece

structure Separated (ps : List Piece) : Prop where
  proper : ∀ p ∈ ps, p.Proper
  apart : ps.IsChain Piece.Apart

theorem pieces_proper (cs : List Char) : ∀ p ∈ pieces cs, p.Proper := by
  fun_induction pieces cs with
  | case1 => simp
  | case2 cs d rest hp hd ih => rwa [hp] at ih
  | case3 c cs hc d rest hp hd ih =>
    rw [hp] at ih
    exact List.forall_mem_cons.mpr ⟨hc, ih⟩
  | case4 c cs hc hs ih => exact List.forall_mem_cons.mpr ⟨hc, ih⟩
  | case5 c cs hc t rest hp ih =>
    rw [hp, List.forall_mem_cons] at ih
    obtain ⟨⟨-, ht⟩, hrest⟩ := ih
    have hcons : ∀ x ∈ c :: t, x.isUpper = false :=
      List.forall_mem_cons.mpr ⟨by simpa using hc, ht⟩
    exact List.forall_mem_cons.mpr ⟨⟨List.cons_ne_nil c t, hcons⟩, hrest⟩
  | case6 c cs hc hl ih =>
    exact List.forall_mem_cons.mpr ⟨⟨List.cons_ne_nil c [], by simpa using hc⟩, ih⟩

theorem pieces_maximal (cs : List Char) : (pieces cs).IsChain Piece.Maximal := by
  fun_induction pieces cs with
  | case1 => exact .nil
  | case2 cs d rest hp hd ih => rwa [hp] at ih
  | case3 c cs hc d rest hp hd ih =>
    rw [hp] at ih
    exact ih.cons_cons hd
  | case4 c cs hc hs ih =>
    refine ih.cons ?_
    intro p hp
    cases p with
    | literal t => trivial
    | slot d =>
      obtain ⟨rest, hr⟩ := List.head?_eq_some_iff.mp hp
      exact absurd hr (hs d rest)
  | case5 c cs hc t rest hp ih =>
    rw [hp] at ih
    exact ih.imp_head (fun {p} h => by cases p <;> exact h)
  | case6 c cs hc hl ih =>
    refine ih.cons ?_
    intro p hp
    cases p with
    | slot d => trivial
    | literal t =>
      obtain ⟨rest, hr⟩ := List.head?_eq_some_iff.mp hp
      exact absurd hr (hl t rest)

theorem isChain_apart_iff (ps : List Piece) :
    ps.IsChain Piece.Apart ↔
      ps.IsChain Piece.Maximal ∧ crowdedBefore? ps = none ∧ crowdedAfter? ps = none := by
  induction ps with
  | nil => simp [crowdedBefore?, crowdedAfter?]
  | cons p ps ih =>
    cases ps with
    | nil => cases p <;> simp [crowdedBefore?, crowdedAfter?]
    | cons q qs =>
      rw [List.isChain_cons_cons, List.isChain_cons_cons, ih]
      cases p with
      | literal t =>
        cases q with
        | literal u => simp [Piece.Apart, Piece.Maximal]
        | slot m =>
          cases hd : t.getLast?.any Char.isDigit <;>
            simp [Piece.Apart, Piece.Maximal, crowdedBefore?, crowdedAfter?, hd]
      | slot l =>
        cases q with
        | slot m => simp [Piece.Apart, Piece.Maximal, crowdedBefore?]
        | literal u =>
          cases hd : u.head?.any Char.isDigit <;>
            simp [Piece.Apart, Piece.Maximal, crowdedBefore?, crowdedAfter?, hd]

theorem map_piece_withRanges (ranges : SlotRanges) (b : Bool) (ps : List Piece) :
    (withRanges ranges b ps).map Segment.piece = ps := by
  induction ps generalizing b with
  | nil => rfl
  | cons p ps ih => cases p <;> simp [withRanges, Segment.piece, ih]

theorem separated_pieces_iff (cs : List Char) :
    Separated (pieces cs) ↔ crowdedBefore? (pieces cs) = none ∧ crowdedAfter? (pieces cs) = none := by
  constructor
  · intro h
    exact ((isChain_apart_iff _).mp h.apart).2
  · intro h
    exact ⟨pieces_proper _, (isChain_apart_iff _).mpr ⟨pieces_maximal _, h⟩⟩

theorem compile_eq_ok_iff {text : String} {ranges : SlotRanges} {t : Template} :
    compile text ranges = .ok t ↔ text ≠ "" ∧ Separated (pieces text.toList) ∧
      (∀ d ∈ ranges.declared, .slot d.1 ∈ pieces text.toList) ∧
      t = ⟨text, withRanges ranges false (pieces text.toList)⟩ := by
  have hdeclared : (∀ d ∈ ranges.declared, .slot d.1 ∈ pieces text.toList) ↔
      ranges.declared.find? (fun d => !(pieces text.toList).contains (.slot d.1)) = none := by
    simp
  rw [separated_pieces_iff, hdeclared, compile]
  by_cases htext : text = ""
  · simp [htext]
  · rw [if_neg (by simpa using htext)]
    dsimp only
    cases crowdedBefore? (pieces text.toList) with
    | some l => simp
    | none =>
      cases crowdedAfter? (pieces text.toList) with
      | some l => simp
      | none =>
        cases ranges.declared.find? (fun d => !(pieces text.toList).contains (.slot d.1)) with
        | some d => simp
        | none => simp [htext, eq_comm]

theorem compile_eq_ok {text : String} {ranges : SlotRanges} {t : Template}
    (h : compile text ranges = .ok t) :
    t = ⟨text, withRanges ranges false (pieces text.toList)⟩ ∧ Separated (pieces text.toList) := by
  obtain ⟨-, hseparated, -, rfl⟩ := compile_eq_ok_iff.mp h
  exact ⟨rfl, hseparated⟩

def Normal (t : Template) : Prop :=
  Separated (t.segments.map Segment.piece)

theorem compile_normal {text : String} {ranges : SlotRanges} {t : Template}
    (h : compile text ranges = .ok t) : t.Normal := by
  obtain ⟨rfl, hs⟩ := compile_eq_ok h
  rw [Normal, map_piece_withRanges]
  exact hs

theorem spellingOf?_eq_some {t stem : List Char} {s : String} (h : spellingOf? t = some (stem, s)) :
    t = stem ++ s.toList ∧ s ∈ spellings := by
  obtain ⟨s', hs', hm⟩ := List.exists_of_findSome?_eq_some h
  obtain ⟨stem', hp, he⟩ := Option.map_eq_some_iff.mp hm
  obtain ⟨rfl, rfl⟩ := Prod.mk.inj he
  exact ⟨(List.append_eq_of_isSuffixOf?_eq_some hp).symm, hs'⟩

theorem findController?_eq_some {segments : List Segment} {c : ControllerSlot}
    (h : findController? segments = some c) :
    segments = c.before ++ .literal (c.stem ++ c.spelling.toList) :: c.rest ∧
      c.spelling ∈ spellings ∧ ∃ l r rest, c.rest = .slot l r :: rest := by
  fun_induction findController? segments generalizing c with
  | case1 t l r rest stem s hs =>
    obtain ⟨rfl, hm⟩ := spellingOf?_eq_some hs
    cases h
    exact ⟨rfl, hm, l, r, rest, rfl⟩
  | case2 t l r rest hs ih =>
    obtain ⟨c', hc', rfl⟩ := Option.map_eq_some_iff.mp h
    obtain ⟨he, hm, hr⟩ := ih hc'
    exact ⟨by rw [he]; rfl, hm, hr⟩
  | case3 s rest hs ih =>
    obtain ⟨c', hc', rfl⟩ := Option.map_eq_some_iff.mp h
    obtain ⟨he, hm, hr⟩ := ih hc'
    exact ⟨by rw [he]; rfl, hm, hr⟩
  | case4 => cases h

theorem Separated.replace {a b : List Piece} {t u : List Char} {l : Char}
    (h : Separated (a ++ .literal t :: .slot l :: b)) (hu : (Piece.literal u).Proper)
    (hfirst : t.head?.any Char.isDigit = false → u.head?.any Char.isDigit = false)
    (hlast : u.getLast?.any Char.isDigit = false) :
    Separated (a ++ .literal u :: .slot l :: b) := by
  obtain ⟨hp, hc⟩ := h
  constructor
  · intro p hm
    rcases List.mem_append.mp hm with ha | hb
    · exact hp p (List.mem_append_left _ ha)
    · rcases List.mem_cons.mp hb with rfl | hb
      · exact hu
      · exact hp p (List.mem_append_right _ (List.mem_cons_of_mem _ hb))
  · obtain ⟨ha, hb, hab⟩ := List.isChain_append.mp hc
    have hu' : (Piece.literal u :: .slot l :: b).IsChain Piece.Apart :=
      List.isChain_cons_cons.mpr ⟨hlast, (List.isChain_cons_cons.mp hb).2⟩
    apply ha.append hu'
    intro x hx y hy
    obtain rfl : Piece.literal u = y := by simpa using hy
    have hxt := hab x hx (.literal t) (by simp)
    cases x with
    | literal v => exact hxt.elim
    | slot m => exact hfirst hxt

theorem spelling_chars {s : String} (h : s ∈ spellings) :
    s.toList ≠ [] ∧ ∀ c ∈ s.toList, c.isUpper = false ∧ c.isDigit = false := by
  have hall : spellings.all (fun s => !s.toList.isEmpty &&
      s.toList.all (fun c => !c.isUpper && !c.isDigit)) = true := by decide
  simpa using List.all_eq_true.mp hall s h

theorem respell_normal {t : Template} {c : ControllerSlot} {s : String} (h : t.Normal)
    (hc : t.controllerSlot? = some c) (hs : s ∈ spellings) : (c.respell s).Normal := by
  obtain ⟨he, hm, l, r, rest, hr⟩ := findController?_eq_some hc
  obtain ⟨hne, hchars⟩ := spelling_chars hs
  rw [Normal, he, hr, List.map_append] at h
  simp only [Normal, ControllerSlot.respell, hr, List.map_append]
  have hstem : ∀ x ∈ c.stem, x.isUpper = false := by
    have hp := h.proper (.literal (c.stem ++ c.spelling.toList)) (by simp [Segment.piece])
    exact fun x hx => hp.2 x (List.mem_append_left _ hx)
  apply h.replace
  · refine ⟨by simp [hne], ?_⟩
    intro x hx
    rcases List.mem_append.mp hx with hx | hx
    · exact hstem x hx
    · exact (hchars x hx).1
  · intro hd
    cases hst : c.stem with
    | cons x xs => simpa [hst] using hd
    | nil =>
      rw [List.nil_append, Option.any_eq_false]
      exact fun x hx => (hchars x (List.mem_of_mem_head? hx)).2
  · rw [List.getLast?_append_of_ne_nil _ hne, Option.any_eq_false]
    exact fun x hx => (hchars x (List.mem_of_mem_getLast? hx)).2

inductive Derived : Template → Prop
  | compiled {text : String} {ranges : SlotRanges} {t : Template}
      (h : compile text ranges = .ok t) : Derived t
  | respelled {t : Template} {c : ControllerSlot} {s : String} (h : Derived t)
      (hc : t.controllerSlot? = some c) (hs : s ∈ spellings) : Derived (c.respell s)

theorem Derived.normal {t : Template} (h : t.Derived) : t.Normal := by
  induction h with
  | compiled h => exact compile_normal h
  | respelled h hc hs ih => exact respell_normal ih hc hs

end Template

end Sfz
