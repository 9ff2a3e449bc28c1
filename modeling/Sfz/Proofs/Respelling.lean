import Sfz.Opcode.Registry
import Sfz.Proofs.TemplateText

/-!
Other spellings of a controller slot. The range of a slot depends only on its letter and on whether the literal before
it ends in `cc`, as every spelling does. So a template that was respelled is the one that its own text compiles to.
-/

namespace Sfz.Template

theorem length_withRanges (ranges : SlotRanges) (b : Bool) (ps : List Piece) :
    (withRanges ranges b ps).length = ps.length := by
  have h := congrArg List.length (map_piece_withRanges ranges b ps)
  rwa [List.length_map] at h

theorem withRanges_append (ranges : SlotRanges) (b : Bool) (ps : List Piece) (t : List Char) (qs : List Piece) :
    withRanges ranges b (ps ++ .literal t :: qs) =
      withRanges ranges b ps ++ .literal t :: withRanges ranges (endsInCc t) qs := by
  induction ps generalizing b with
  | nil => rfl
  | cons p ps ih =>
    cases p with
    | literal u => simp [withRanges, ih]
    | slot l => simp [withRanges, ih]

theorem endsInCc_spelling {s : String} (h : s ∈ spellings) (stem : List Char) : endsInCc (stem ++ s.toList) = true := by
  have hall : ∀ s ∈ spellings, ['c', 'c'] <:+ s.toList := by decide
  exact List.isSuffixOf_iff_suffix.mpr ((hall s h).trans (List.suffix_append stem s.toList))

theorem withRanges_respell {ranges : SlotRanges} {t : Template} {c : ControllerSlot}
    (ht : t.segments = withRanges ranges false (t.segments.map Segment.piece)) (hc : t.controllerSlot? = some c)
    {s : String} (hs : s ∈ spellings) :
    (c.respell s).segments = withRanges ranges false ((c.respell s).segments.map Segment.piece) := by
  obtain ⟨he, hm, -⟩ := findController?_eq_some hc
  rw [he, List.map_append, List.map_cons, Segment.piece, withRanges_append, endsInCc_spelling hm] at ht
  obtain ⟨hbefore, hafter⟩ := List.append_inj ht (by rw [length_withRanges, List.length_map])
  obtain ⟨-, hrest⟩ := List.cons.inj hafter
  rw [ControllerSlot.respell, List.map_append, List.map_cons, Segment.piece, withRanges_append, endsInCc_spelling hs,
    ← hbefore, ← hrest]

theorem pieces_respell {c : ControllerSlot} {s : String} (h : (c.respell s).Normal) :
    pieces (c.respell s).text.toList = (c.respell s).segments.map Segment.piece := by
  rw [ControllerSlot.respell, String.toList_ofList, segmentsText_eq]
  exact Separated.pieces_text h

theorem slot_mem_respell {t : Template} {c : ControllerSlot} (hc : t.controllerSlot? = some c) {l : Char}
    (hl : .slot l ∈ t.segments.map Segment.piece) (s : String) :
    .slot l ∈ (c.respell s).segments.map Segment.piece := by
  rw [(findController?_eq_some hc).1, List.map_append, List.map_cons, List.mem_append, List.mem_cons] at hl
  rw [ControllerSlot.respell, List.map_append, List.map_cons, List.mem_append, List.mem_cons]
  rcases hl with hbefore | hliteral | hrest
  · exact .inl hbefore
  · cases hliteral
  · exact .inr (.inr hrest)

theorem isLiteral_respell {t : Template} {c : ControllerSlot} (hc : t.controllerSlot? = some c) (s : String) :
    (c.respell s).isLiteral = false := by
  obtain ⟨-, -, l, r, rest, hrest⟩ := findController?_eq_some hc
  simp [isLiteral, ControllerSlot.respell, hrest]

theorem respelled_text_compiles {text : String} {ranges : SlotRanges} {t : Template} {c : ControllerSlot} {s : String}
    (h : compile text ranges = .ok t) (hc : t.controllerSlot? = some c) (hs : s ∈ spellings) :
    compile (c.respell s).text ranges = .ok (c.respell s) ∧
      ∀ name, (Pattern.variant (c.respell s)).match? name = (Row.basePattern (c.respell s)).match? name := by
  have hpieces := pieces_respell (respell_normal (compile_normal h) hc hs)
  constructor
  · obtain ⟨-, -, hdeclared, ht⟩ := compile_eq_ok_iff.mp h
    have hcut : t.segments.map Segment.piece = pieces text.toList := by
      rw [ht]
      exact map_piece_withRanges ranges false _
    have hranges : t.segments = withRanges ranges false (t.segments.map Segment.piece) := by
      rw [hcut, ht]
    rw [← hcut] at hdeclared
    refine compile_eq_ok_iff.mpr ⟨?_, ?_, ?_, ?_⟩
    · intro hempty
      rw [hempty] at hpieces
      simp [ControllerSlot.respell, pieces] at hpieces
    · rw [hpieces]
      exact respell_normal (compile_normal h) hc hs
    · intro d hd
      rw [hpieces]
      exact slot_mem_respell hc (hdeclared d hd) s
    · rw [hpieces, ← withRanges_respell hranges hc hs]
  · intro name
    rw [Row.basePattern, isLiteral_respell hc]
    rfl

theorem respelled_text_compiles_trill :
    let ranges : SlotRanges := ⟨[('Y', ⟨1, 3⟩)], ⟨0, 127⟩⟩
    let t : Template :=
      ⟨"NNccX_ccY", [.slot 'N' .full, .literal ['c', 'c'], .slot 'X' ⟨0, 127⟩, .literal ['_', 'c', 'c'], .slot 'Y' ⟨1, 3⟩]⟩
    let v : Template :=
      ⟨"N_onccX_ccY", [.slot 'N' .full, .literal ['_', 'o', 'n', 'c', 'c'], .slot 'X' ⟨0, 127⟩,
        .literal ['_', 'c', 'c'], .slot 'Y' ⟨1, 3⟩]⟩
    compile "NNccX_ccY" ranges = .ok t ∧ t.controllerSlot?.map (·.respell "_oncc") = some v ∧
      compile "N_onccX_ccY" ranges = .ok v ∧
      (Row.basePattern v).match? "7_oncc064_cc2" = some [('N', 7), ('X', 64), ('Y', 2)] := by
  intro ranges t v
  have h : compile "NNccX_ccY" ranges = .ok t := rfl
  obtain ⟨hcompiles, hmatch⟩ := respelled_text_compiles (s := "_oncc") h rfl (by decide)
  refine ⟨h, rfl, hcompiles, ?_⟩
  exact (hmatch "7_oncc064_cc2").symm.trans (by decide)

end Sfz.Template
