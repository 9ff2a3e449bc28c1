import Sfz.Proofs.TemplateLanguage

/-!
The shape of a name is the name with one `#` in place of every longest run of digits. In a template no slot touches a digit,
so its shape is put together from those of its literals and a `#` for each slot, and every name that it matches has that
shape.
-/

namespace Sfz

open Number

namespace Template

inductive Shaped : List Char → List Char → Prop
  | nil : Shaped [] []
  | other {c : Char} {cs shape : List Char} (hc : c.isDigit = false) (h : Shaped cs shape) : Shaped (c :: cs) (c :: shape)
  | run {run cs shape : List Char} (hrun : isDigits run = true) (hnext : cs.head?.any Char.isDigit = false)
      (h : Shaped cs shape) : Shaped (run ++ cs) ('#' :: shape)

theorem collapse_of_head {cs : List Char} (h : cs.head?.any Char.isDigit = false) (b : Bool) :
    collapse b cs = shapeOf cs := by
  cases cs with
  | nil => rfl
  | cons c cs =>
    have hc : c.isDigit = false := by simpa using h
    simp [shapeOf, collapse, hc]

theorem shapeOf_run {run cs : List Char} (hrun : isDigits run = true) (hnext : cs.head?.any Char.isDigit = false) :
    shapeOf (run ++ cs) = '#' :: shapeOf cs := by
  rw [shapeOf, collapse_run hrun, ← collapse_of_head hnext true]
  rfl

theorem shaped_collapse (cs : List Char) :
    Shaped cs (collapse false cs) ∧ ∃ run rest, cs = run ++ rest ∧ (∀ c ∈ run, c.isDigit = true) ∧
      rest.head?.any Char.isDigit = false ∧ Shaped rest (collapse true cs) := by
  -- within a run, the scan is that of what stands after the run
  induction cs with
  | nil => exact ⟨.nil, [], [], rfl, by simp, rfl, .nil⟩
  | cons c cs ih =>
    obtain ⟨hshape, run, rest, hcs, hrun, hnext, hrest⟩ := ih
    by_cases hc : c.isDigit = true
    · -- a digit lengthens the run that the rest begins with
      have htext : c :: cs = (c :: run) ++ rest := by rw [hcs]; rfl
      have hdigits : ∀ d ∈ c :: run, d.isDigit = true := List.forall_mem_cons.mpr ⟨hc, hrun⟩
      have hfirst : collapse false (c :: cs) = '#' :: collapse true cs := by simp [collapse, hc]
      have hinside : collapse true (c :: cs) = collapse true cs := by simp [collapse, hc]
      rw [hfirst, hinside]
      refine ⟨?_, c :: run, rest, htext, hdigits, hnext, hrest⟩
      rw [htext]
      exact .run (isDigits_iff.mpr ⟨List.cons_ne_nil c run, hdigits⟩) hnext hrest
    · have hc : c.isDigit = false := by simpa using hc
      have hany (b : Bool) : Shaped (c :: cs) (collapse b (c :: cs)) := by
        simpa [collapse, hc] using Shaped.other hc hshape
      exact ⟨hany false, [], c :: cs, rfl, by simp, by simpa using hc, hany true⟩

theorem shaped_iff {cs shape : List Char} : Shaped cs shape ↔ shapeOf cs = shape := by
  constructor
  · intro h
    induction h with
    | nil => rfl
    | other hc h ih => rw [← ih]; simp [shapeOf, collapse, hc]
    | run hrun hnext h ih => rw [← ih, shapeOf_run hrun hnext]
  · rintro rfl
    exact (shaped_collapse cs).1

theorem collapse_append (b : Bool) (cs ds : List Char) :
    collapse b (cs ++ ds) = collapse b cs ++ collapse ((cs.getLast?.map Char.isDigit).getD b) ds := by
  induction cs generalizing b with
  | nil => rfl
  | cons c cs ih =>
    have hlast : ((c :: cs).getLast?.map Char.isDigit).getD b = (cs.getLast?.map Char.isDigit).getD c.isDigit := by
      rw [List.getLast?_cons]
      cases cs.getLast? <;> rfl
    rw [hlast]
    cases hc : c.isDigit <;> cases b <;> simp [collapse, hc, ih]

theorem shapeOf_append {cs ds : List Char}
    (h : cs.getLast?.any Char.isDigit = false ∨ ds.head?.any Char.isDigit = false) :
    shapeOf (cs ++ ds) = shapeOf cs ++ shapeOf ds := by
  rw [shapeOf, collapse_append]
  rcases h with h | h
  · have hlast : (cs.getLast?.map Char.isDigit).getD false = false := by
      cases hl : cs.getLast? with
      | none => rfl
      | some c => simpa [hl] using h
    rw [hlast]
    rfl
  · rw [collapse_of_head h]
    rfl

end Template

def Segment.shape : Segment → List Char
  | .literal t => Template.shapeOf t
  | .slot _ _ => ['#']

namespace Template

theorem shapeOf_write {segments : List Segment} {runs : List (List Char)}
    (h : Separated (segments.map Segment.piece)) (hl : runs.length = (slots segments).length)
    (hd : ∀ run ∈ runs, isDigits run = true) : shapeOf (write segments runs) = segments.flatMap Segment.shape := by
  induction segments generalizing runs with
  | nil => rfl
  | cons s rest ih =>
    rw [List.flatMap_cons]
    cases s with
    | literal t =>
      rw [write, shapeOf_append, ih h.tail hl hd]
      · rfl
      · -- a literal may end in a digit only where the name ends
        cases rest with
        | nil => exact .inr rfl
        | cons s rest =>
          have hs : (Piece.literal t).Apart s.piece := (List.isChain_cons_cons.mp h.apart).1
          cases s with
          | literal u => exact hs.elim
          | slot l r => exact .inl hs
    | slot l r =>
      obtain ⟨run, runs, rfl⟩ := List.exists_cons_of_length_eq_add_one hl
      obtain ⟨hrun, hd⟩ := List.forall_mem_cons.mp hd
      rw [write, shapeOf_run hrun (head_write runs h), ih h.tail (Nat.succ.inj hl) hd]
      rfl

theorem sampleName_eq_write (segments : List Segment) :
    sampleName segments = write segments ((slots segments).map (fun _ => ['0'])) := by
  induction segments with
  | nil => rfl
  | cons s rest ih => cases s <;> simp [sampleName, slots, write, ih]

theorem Normal.shape_eq {t : Template} (h : t.Normal) : t.shape = t.segments.flatMap Segment.shape := by
  rw [shape, sampleName_eq_write]
  apply shapeOf_write h (by simp)
  intro run hrun
  obtain ⟨slot, -, rfl⟩ := List.mem_map.mp hrun
  decide

theorem matched_names_share_shape {t : Template} (h : t.Derived) {name : String} {caps : List (Char × Nat)}
    (hm : t.match? name = some caps) :
    shapeOf name.toList = t.shape ∧ Shaped name.toList t.shape ∧ t.shape = t.segments.flatMap Segment.shape := by
  have hshape := shapeOf_eq_shape hm
  exact ⟨hshape, shaped_iff.mpr hshape, h.normal.shape_eq⟩

theorem matched_names_share_shape_envelope :
    let t : Template := ⟨"eg02#_timeN_onccX", [.literal ['e', 'g', '0', '2', '#', '_', 't', 'i', 'm', 'e'],
      .slot 'N' ⟨1, 32⟩, .literal ['_', 'o', 'n', 'c', 'c'], .slot 'X' ⟨0, 127⟩]⟩
    t.Derived ∧ t.match? "eg02#_time00017_oncc64" = some [('N', 17), ('X', 64)] ∧
      shapeOf "eg02#_time00017_oncc64".toList = t.shape ∧ Shaped "eg02#_time00017_oncc64".toList t.shape ∧
      t.shape = "eg##_time#_oncc#".toList := by
  intro t
  have hd : t.Derived := by
    have h : compile "eg02#_timeNN_ccX" ⟨[('N', ⟨1, 32⟩)], ⟨0, 127⟩⟩ =
        .ok ⟨"eg02#_timeNN_ccX", [.literal ['e', 'g', '0', '2', '#', '_', 't', 'i', 'm', 'e'],
          .slot 'N' ⟨1, 32⟩, .literal ['_', 'c', 'c'], .slot 'X' ⟨0, 127⟩]⟩ := by rfl
    exact .respelled (s := "_oncc") (.compiled h) rfl (by decide)
  have hm : t.match? "eg02#_time00017_oncc64" = some [('N', 17), ('X', 64)] := by decide
  obtain ⟨hshape, hshaped, hparts⟩ := matched_names_share_shape hd hm
  exact ⟨hd, hm, hshape, hshaped, hparts.trans (by decide)⟩

end Template

end Sfz
