import Mathlib.Data.List.Infix
import Sfz.Proofs.TemplateLanguage

namespace Sfz.Template

def Piece.text : Piece → List Char
  | .literal t => t
  | .slot l => [l]

theorem segmentsText_eq (segments : List Segment) :
    segmentsText segments = (segments.map Segment.piece).flatMap Piece.text := by
  induction segments with
  | nil => rfl
  | cons s rest ih =>
    cases s with
    | literal t => rw [segmentsText, ih]; rfl
    | slot l r => rw [segmentsText, ih]; rfl

theorem pieces_literal {t rest : List Char} (ht : (Piece.literal t).Proper)
    (hrest : ∀ u ps, pieces rest ≠ .literal u :: ps) : pieces (t ++ rest) = .literal t :: pieces rest := by
  obtain ⟨hne, hlower⟩ := ht
  induction t with
  | nil => exact absurd rfl hne
  | cons c t ih =>
    obtain ⟨hc, ht⟩ := List.forall_mem_cons.mp hlower
    rw [List.cons_append, pieces, if_neg (by simp [hc])]
    cases t with
    | nil =>
      rw [List.nil_append]
      split
      next u ps hp => exact absurd hp (hrest u ps)
      next => rfl
    | cons d t => rw [ih (List.cons_ne_nil d t) ht]

theorem pieces_slot {l : Char} {rest : List Char} (hl : l.isUpper = true)
    (hrest : ∀ m ps, pieces rest ≠ .slot m :: ps) : pieces (l :: rest) = .slot l :: pieces rest := by
  rw [pieces, if_pos hl]
  split
  next m ps hp => exact absurd hp (hrest m ps)
  next => rfl

theorem Separated.pieces_text {ps : List Piece} (h : Separated ps) : pieces (ps.flatMap Piece.text) = ps := by
  induction ps with
  | nil => rfl
  | cons p ps ih =>
    have hproper := h.proper p (List.mem_cons_self ..)
    have hrest := ih h.tail
    -- neighbours are of different kinds, so no piece runs into the next one
    have hnext : ∀ q ∈ ps.head?, p.Apart q := (List.isChain_cons.mp h.apart).1
    rw [List.flatMap_cons]
    cases p with
    | literal t =>
      rw [Piece.text, pieces_literal hproper, hrest]
      intro u qs hp
      rw [hrest] at hp
      exact hnext (.literal u) (by simp [hp])
    | slot l =>
      rw [Piece.text, List.singleton_append, pieces_slot hproper, hrest]
      intro m qs hp
      rw [hrest] at hp
      exact hnext (.slot m) (by simp [hp])

inductive Joins (c : Char) : List Piece → List Piece → Prop
  | run {ps : List Piece} (hc : c.isUpper = true) : Joins c (.slot c :: ps) (.slot c :: ps)
  | slot {ps : List Piece} (hc : c.isUpper = true) (hps : ∀ qs, ps ≠ .slot c :: qs) : Joins c ps (.slot c :: ps)
  | extend {t : List Char} {ps : List Piece} (hc : c.isUpper = false) :
      Joins c (.literal t :: ps) (.literal (c :: t) :: ps)
  | literal {ps : List Piece} (hc : c.isUpper = false) (hps : ∀ t qs, ps ≠ .literal t :: qs) :
      Joins c ps (.literal [c] :: ps)

theorem joins_pieces (c : Char) (cs : List Char) : Joins c (pieces cs) (pieces (c :: cs)) := by
  rw [pieces]
  by_cases hc : c.isUpper = true
  · rw [if_pos hc]
    split
    next d ps hp =>
      split
      next hcd =>
        rw [hp, hcd]
        exact .run (hcd ▸ hc)
      next hcd =>
        rw [hp]
        apply Joins.slot hc
        rintro qs ⟨⟩
        exact hcd rfl
    next hps => exact .slot hc (hps c)
  · rw [if_neg hc]
    have hc : c.isUpper = false := by simpa using hc
    split
    next t ps hp =>
      rw [hp]
      exact .extend hc
    next hps => exact .literal hc hps

theorem pieces_cons (c : Char) (cs : List Char) :
    (c.isUpper = true ∧ ∃ ps, pieces (c :: cs) = .slot c :: ps) ∨
      (c.isUpper = false ∧ ∃ t ps, pieces (c :: cs) = .literal (c :: t) :: ps) := by
  have h := joins_pieces c cs
  generalize pieces (c :: cs) = qs at h
  generalize pieces cs = ps at h
  cases h with
  | run hc => exact .inl ⟨hc, _, rfl⟩
  | slot hc hps => exact .inl ⟨hc, _, rfl⟩
  | extend hc => exact .inr ⟨hc, _, _, rfl⟩
  | literal hc hps => exact .inr ⟨hc, _, _, rfl⟩

theorem slot_mem_pieces {cs : List Char} {l : Char} : .slot l ∈ pieces cs ↔ l ∈ cs ∧ l.isUpper = true := by
  induction cs with
  | nil => simp [pieces]
  | cons c cs ih =>
    have h := joins_pieces c cs
    generalize pieces (c :: cs) = qs at h
    generalize pieces cs = ps at h ih
    cases h with
    | run hc => grind
    | slot hc hps => grind
    | extend hc => grind
    | literal hc hps => grind

def Touch (a b : Char) : Prop :=
  a.isUpper = true ∧ b.isDigit = true ∨ a.isDigit = true ∧ b.isUpper = true ∨
    a.isUpper = true ∧ b.isUpper = true ∧ a ≠ b

theorem isDigit_of_isUpper {c : Char} (h : c.isUpper = true) : c.isDigit = false := by
  delta Char.isUpper at h
  delta Char.isDigit
  simp only [decide_eq_true_eq, ge_iff_le, UInt32.le_iff_toNat_le, Bool.and_eq_false_imp,
    decide_eq_false_iff_not] at h ⊢
  simp only [Char.reduceVal, UInt32.reduceToNat] at h ⊢
  omega

theorem isChain_pieces_iff (cs : List Char) :
    (pieces cs).IsChain Piece.Apart ↔ cs.IsChain (fun a b => ¬Touch a b) := by
  induction cs with
  | nil => simp [pieces]
  | cons c cs ih =>
    cases cs with
    | nil => by_cases hc : c.isUpper = true <;> simp [pieces, hc]
    | cons d ds =>
      rw [List.isChain_cons_cons, ← ih, pieces]
      rcases pieces_cons d ds with ⟨hd, ps, hp⟩ | ⟨hd, t, ps, hp⟩
      · rw [hp]
        have hdigit := isDigit_of_isUpper hd
        by_cases hc : c.isUpper = true
        · by_cases hcd : c = d
          · subst hcd
            simp [hd, Touch, hdigit]
          · simp [hc, hd, hcd, Touch, Piece.Apart]
        · simp [hc, hd, Touch, Piece.Apart]
      · rw [hp]
        by_cases hc : c.isUpper = true
        · simp [hc, hd, Touch, Piece.Apart, isDigit_of_isUpper hc]
        · have hsame : ∀ q : Piece, (Piece.literal (c :: d :: t)).Apart q ↔ (Piece.literal (d :: t)).Apart q := by
            intro q
            cases q with
            | literal u => rfl
            | slot m => simp [Piece.Apart]
          simp [hc, hd, Touch, List.isChain_cons, hsame]

def Controlled (ps : List Piece) : Prop :=
  ∃ s ∈ spellings, ∃ t l, s.toList <:+ t ∧ [.literal t, .slot l] <:+: ps

theorem spellingOf?_isSome {t : List Char} : (spellingOf? t).isSome = true ↔ ∃ s ∈ spellings, s.toList <:+ t := by
  simp [spellingOf?, List.findSome?_isSome_iff]

theorem controlled_cons {p : Piece} {ps : List Piece}
    (h : ∀ t l qs, p = .literal t → ps = .slot l :: qs → ¬∃ s ∈ spellings, s.toList <:+ t) :
    Controlled (p :: ps) ↔ Controlled ps := by
  constructor
  · rintro ⟨s, hs, t, l, ht, hi⟩
    rcases List.infix_cons_iff.mp hi with hp | hi
    · obtain ⟨hfirst, qs, hsecond⟩ := List.cons_prefix_cons.mp hp
      exact absurd ⟨s, hs, ht⟩ (h t l qs hfirst.symm hsecond.symm)
    · exact ⟨s, hs, t, l, ht, hi⟩
  · rintro ⟨s, hs, t, l, ht, hi⟩
    exact ⟨s, hs, t, l, ht, hi.trans (List.suffix_cons p ps).isInfix⟩

theorem findController?_isSome {segments : List Segment} :
    (findController? segments).isSome = true ↔ Controlled (segments.map Segment.piece) := by
  fun_induction findController? segments with
  | case1 t l r rest stem s hs =>
    obtain ⟨rfl, hm⟩ := spellingOf?_eq_some hs
    refine ⟨fun _ => ⟨s, hm, _, l, List.suffix_append stem s.toList, ?_⟩, fun _ => rfl⟩
    exact (List.prefix_append [.literal (stem ++ s.toList), .slot l] (rest.map Segment.piece)).isInfix
  | case2 t l r rest hs ih =>
    rw [Option.isSome_map, ih]
    refine (controlled_cons ?_).symm
    rintro u m qs hu -
    obtain rfl := Piece.literal.inj hu
    rw [← spellingOf?_isSome, hs]
    simp
  | case3 s rest hs ih =>
    rw [Option.isSome_map, ih]
    refine (controlled_cons ?_).symm
    intro t l qs hfirst hsecond
    cases s with
    | slot => cases hfirst
    | literal u =>
      cases rest with
      | nil => cases hsecond
      | cons s' rest =>
        cases s' with
        | literal => cases hsecond
        | slot m r => exact absurd rfl (hs u m r rest rfl)
  | case4 => simp [Controlled]

theorem Controlled.joins {c : Char} {ps qs : List Piece} (h : Controlled ps) (hj : Joins c ps qs) :
    Controlled qs := by
  obtain ⟨s, hs, t, l, ht, hi⟩ := h
  cases hj with
  | run hc => exact ⟨s, hs, t, l, ht, hi⟩
  | slot hc hps => exact ⟨s, hs, t, l, ht, hi.trans (List.suffix_cons _ _).isInfix⟩
  | @extend u ps hc =>
    rcases List.infix_cons_iff.mp hi with hp | hi
    · obtain ⟨hu, hnext⟩ := List.cons_prefix_cons.mp hp
      obtain rfl := Piece.literal.inj hu
      refine ⟨s, hs, c :: t, l, ht.trans (List.suffix_cons c t), ?_⟩
      exact (List.cons_prefix_cons.mpr ⟨rfl, hnext⟩).isInfix
    · exact ⟨s, hs, t, l, ht, hi.trans (List.suffix_cons _ _).isInfix⟩
  | literal hc hps => exact ⟨s, hs, t, l, ht, hi.trans (List.suffix_cons _ _).isInfix⟩

theorem prefix_of_pieces {cs t : List Char} {l : Char} (h : [.literal t, .slot l] <+: pieces cs) :
    t ++ [l] <+: cs := by
  induction cs generalizing t with
  | nil => simp [pieces] at h
  | cons c cs ih =>
    have hj := joins_pieces c cs
    generalize pieces (c :: cs) = qs at h hj
    generalize hps : pieces cs = ps at hj
    obtain ⟨more, rfl⟩ := h
    cases hj with
    | @extend u ps hc =>
      apply (List.prefix_cons_inj c).mpr
      apply ih
      rw [hps]
      exact List.prefix_append [.literal u, .slot l] more
    | literal hc =>
      cases cs with
      | nil => cases hps
      | cons d ds =>
        rcases pieces_cons d ds with ⟨-, ps, hp⟩ | ⟨-, u, ps, hp⟩
        · rw [hp] at hps
          obtain ⟨hd, -⟩ := List.cons.inj hps
          obtain rfl := Piece.slot.inj hd
          exact ⟨ds, rfl⟩
        · rw [hp] at hps
          cases hps

theorem infix_of_pieces {cs t : List Char} {l : Char} (h : [.literal t, .slot l] <:+: pieces cs) :
    t ++ [l] <:+: cs := by
  induction cs with
  | nil => simp [pieces] at h
  | cons c cs ih =>
    by_cases hp : [.literal t, .slot l] <+: pieces (c :: cs)
    · exact (prefix_of_pieces hp).isInfix
    · have hj := joins_pieces c cs
      generalize pieces (c :: cs) = qs at h hp hj
      generalize pieces cs = ps at ih hj
      apply List.IsInfix.trans _ (List.suffix_cons c cs).isInfix
      apply ih
      cases hj with
      | run hc => exact h
      | slot hc hps => exact (List.infix_cons_iff.mp h).resolve_left hp
      | extend hc => exact ((List.infix_cons_iff.mp h).resolve_left hp).trans (List.suffix_cons _ _).isInfix
      | literal hc hps => exact (List.infix_cons_iff.mp h).resolve_left hp

theorem controlled_pieces_iff {cs : List Char} :
    Controlled (pieces cs) ↔ ∃ s ∈ spellings, ∃ l ∈ cs, l.isUpper = true ∧ s.toList ++ [l] <:+: cs := by
  constructor
  · rintro ⟨s, hs, t, l, ht, hi⟩
    have hl := slot_mem_pieces.mp (hi.subset (List.mem_cons_of_mem _ (List.mem_singleton_self _)))
    refine ⟨s, hs, l, hl.1, hl.2, ?_⟩
    obtain ⟨stem, rfl⟩ := ht
    have htext := infix_of_pieces hi
    rw [List.append_assoc] at htext
    exact (List.suffix_append stem _).isInfix.trans htext
  · rintro ⟨s, hs, l, -, hl, front, back, rfl⟩
    induction front with
    | nil =>
      obtain ⟨hne, hchars⟩ := spelling_chars hs
      rcases pieces_cons l back with ⟨-, ps, hp⟩ | ⟨hlower, -⟩
      · have hcut : pieces (s.toList ++ l :: back) = .literal s.toList :: .slot l :: ps := by
          rw [pieces_literal ⟨hne, fun c hc => (hchars c hc).1⟩, hp]
          simp [hp]
        rw [List.nil_append, List.append_assoc, List.singleton_append, hcut]
        exact ⟨s, hs, s.toList, l, List.suffix_refl _, (List.prefix_append [.literal s.toList, .slot l] ps).isInfix⟩
      · rw [hl] at hlower
        cases hlower
    | cons c front ih => exact ih.joins (joins_pieces c _)

structure WellFormed (text : String) : Prop where
  nonempty : text ≠ ""
  apart : text.toList.IsChain (fun a b => ¬Touch a b)

theorem compile_isOk_iff {text : String} {ranges : SlotRanges} : (∃ t, compile text ranges = .ok t) ↔
    WellFormed text ∧ ∀ d ∈ ranges.declared, d.1 ∈ text.toList ∧ d.1.isUpper = true := by
  simp only [compile_eq_ok_iff, slot_mem_pieces]
  constructor
  · rintro ⟨t, hne, hseparated, hdeclared, -⟩
    exact ⟨⟨hne, (isChain_pieces_iff _).mp hseparated.apart⟩, hdeclared⟩
  · rintro ⟨⟨hne, hapart⟩, hdeclared⟩
    exact ⟨_, hne, ⟨pieces_proper _, (isChain_pieces_iff _).mpr hapart⟩, hdeclared, rfl⟩

theorem controllerSlot?_isSome {text : String} {ranges : SlotRanges} {t : Template}
    (h : compile text ranges = .ok t) : t.controllerSlot?.isSome = true ↔
      ∃ s ∈ spellings, ∃ l ∈ text.toList, l.isUpper = true ∧ s.toList ++ [l] <:+: text.toList := by
  obtain ⟨rfl, -⟩ := compile_eq_ok h
  rw [controllerSlot?, findController?_isSome, map_piece_withRanges, controlled_pieces_iff]

end Sfz.Template
