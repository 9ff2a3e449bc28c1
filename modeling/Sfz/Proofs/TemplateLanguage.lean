import Sfz.Proofs.NumberTexts
import Sfz.Proofs.TemplateForm

namespace Sfz.Template

open Number

def slots : List Segment → List (Char × IndexRange)
  | [] => []
  | .literal _ :: rest => slots rest
  | .slot l r :: rest => (l, r) :: slots rest

def write : List Segment → List (List Char) → List Char
  | [], _ => []
  | .literal t :: rest, runs => t ++ write rest runs
  | .slot _ _ :: rest, [] => write rest []
  | .slot _ _ :: rest, run :: runs => run ++ write rest runs

def InRange (slot : Char × IndexRange) (n : Nat) : Prop :=
  n ≤ maxIndex ∧ slot.2.min ≤ n ∧ n ≤ slot.2.max

instance (slot : Char × IndexRange) (n : Nat) : Decidable (InRange slot n) :=
  inferInstanceAs (Decidable (_ ∧ _))

def Takes (slot : Char × IndexRange) (run : List Char) : Prop :=
  isDigits run = true ∧ InRange slot (digitsValue run)

instance (slot : Char × IndexRange) (run : List Char) : Decidable (Takes slot run) :=
  inferInstanceAs (Decidable (_ ∧ _))

def captures (segments : List Segment) (runs : List (List Char)) : List (Char × Nat) :=
  (slots segments).zipWith (fun slot run => (slot.1, digitsValue run)) runs

theorem isDigits_of_takes {slots : List (Char × IndexRange)} {runs : List (List Char)}
    (h : slots.Forall₂ Takes runs) : ∀ run ∈ runs, isDigits run = true := by
  induction h with
  | nil => simp
  | cons hrun _ ih => exact List.forall_mem_cons.mpr ⟨hrun.1, ih⟩

theorem takeIndex?_eq_some_iff (l : Char) {range : IndexRange} {name rest : List Char} {n : Nat} :
    takeIndex? range name = some (n, rest) ↔
      Takes (l, range) (name.takeWhile Char.isDigit) ∧
        digitsValue (name.takeWhile Char.isDigit) = n ∧ name.dropWhile Char.isDigit = rest := by
  simp only [takeIndex?, IndexRange.contains, Takes, InRange, Option.bind_eq_bind,
    Option.bind_eq_some_iff, index?_eq_some_iff, Option.ite_none_right_eq_some, Option.some.injEq,
    Prod.mk.injEq, Bool.and_eq_true, decide_eq_true_eq]
  constructor
  · rintro ⟨m, ⟨hd, hm, rfl⟩, hr, rfl, rfl⟩
    exact ⟨⟨hd, hm, hr⟩, rfl, rfl⟩
  · rintro ⟨⟨hd, hm, hr⟩, rfl, rfl⟩
    exact ⟨_, ⟨hd, hm, rfl⟩, hr, rfl, rfl⟩

theorem takeIndex?_run {l : Char} {range : IndexRange} {run rest : List Char}
    (hr : Takes (l, range) run) (hd : rest.head?.any Char.isDigit = false) :
    takeIndex? range (run ++ rest) = some (digitsValue run, rest) := by
  obtain ⟨htake, hdrop⟩ := span_run (isDigits_iff.mp hr.1).2 hd
  rw [takeIndex?_eq_some_iff l, htake, hdrop]
  exact ⟨hr, rfl, rfl⟩

theorem written_of_matchSegments? {segments : List Segment} {name : List Char}
    {caps : List (Char × Nat)} (h : matchSegments? segments name = some caps) :
    ∃ runs, (slots segments).Forall₂ Takes runs ∧ write segments runs = name ∧
      captures segments runs = caps := by
  induction segments generalizing name caps with
  | nil =>
    cases name with
    | nil => exact ⟨[], .nil, rfl, by simpa [matchSegments?, captures, slots] using h⟩
    | cons c cs => simp [matchSegments?] at h
  | cons s rest ih =>
    cases s with
    | literal t =>
      obtain ⟨tail, ht, hm⟩ := Option.bind_eq_some_iff.mp h
      obtain ⟨runs, hf, hw, hc⟩ := ih hm
      refine ⟨runs, hf, ?_, hc⟩
      rw [write, hw]
      exact List.append_eq_of_isPrefixOf?_eq_some ht
    | slot l range =>
      obtain ⟨⟨n, tail⟩, ht, hm⟩ := Option.bind_eq_some_iff.mp h
      obtain ⟨caps', hm, hc⟩ := Option.bind_eq_some_iff.mp hm
      obtain ⟨htakes, hn, htail⟩ := (takeIndex?_eq_some_iff l).mp ht
      obtain ⟨runs, hf, hw, hcs⟩ := ih hm
      refine ⟨name.takeWhile Char.isDigit :: runs, .cons htakes hf, ?_, ?_⟩
      · rw [write, hw, ← htail, List.takeWhile_append_dropWhile]
      · cases hc
        rw [← hcs, ← hn]
        rfl

/-- What follows a slot never begins with a digit, so a run is maximal wherever it stands. -/
theorem head_write {l : Char} {segments : List Segment} (runs : List (List Char))
    (h : Separated (.slot l :: segments.map Segment.piece)) :
    (write segments runs).head?.any Char.isDigit = false := by
  cases segments with
  | nil => rfl
  | cons s rest =>
    have hs : (Piece.slot l).Apart s.piece := (List.isChain_cons_cons.mp h.apart).1
    cases s with
    | slot m r => exact hs.elim
    | literal t =>
      have ht : t ≠ [] := (h.proper (.literal t) (by simp [Segment.piece])).1
      rw [write, List.head?_append_of_ne_nil _ ht]
      exact hs

theorem Separated.tail {p : Piece} {ps : List Piece} (h : Separated (p :: ps)) : Separated ps :=
  ⟨fun q hq => h.proper q (List.mem_cons_of_mem p hq), h.apart.tail⟩

theorem matchSegments?_write {segments : List Segment} {runs : List (List Char)}
    (h : Separated (segments.map Segment.piece)) (hr : (slots segments).Forall₂ Takes runs) :
    matchSegments? segments (write segments runs) = some (captures segments runs) := by
  induction segments generalizing runs with
  | nil =>
    cases hr
    rfl
  | cons s rest ih =>
    cases s with
    | literal t =>
      have hp : t.isPrefixOf? (write (.literal t :: rest) runs) = some (write rest runs) :=
        List.isPrefixOf?_eq_some_iff_append_eq.mpr rfl
      rw [matchSegments?, hp]
      exact ih h.tail hr
    | slot l range =>
      cases hr with
      | @cons _ run _ runs hrun hruns =>
        have ht := takeIndex?_run hrun (head_write runs h)
        rw [matchSegments?, write, ht]
        simp only [Option.bind_eq_bind, Option.bind_some, ih h.tail hruns]
        rfl

theorem write_injective {segments : List Segment} {runs runs' : List (List Char)}
    (h : Separated (segments.map Segment.piece))
    (hl : runs.length = (slots segments).length) (hd : ∀ run ∈ runs, isDigits run = true)
    (hl' : runs'.length = (slots segments).length) (hd' : ∀ run ∈ runs', isDigits run = true)
    (hw : write segments runs = write segments runs') : runs = runs' := by
  induction segments generalizing runs runs' with
  | nil => rw [List.eq_nil_of_length_eq_zero hl, List.eq_nil_of_length_eq_zero hl']
  | cons s rest ih =>
    cases s with
    | literal t => exact ih h.tail hl hd hl' hd' (List.append_cancel_left hw)
    | slot l range =>
      obtain ⟨run, runs, rfl⟩ := List.exists_cons_of_length_eq_add_one hl
      obtain ⟨run', runs', rfl⟩ := List.exists_cons_of_length_eq_add_one hl'
      obtain ⟨hrun, hd⟩ := List.forall_mem_cons.mp hd
      obtain ⟨hrun', hd'⟩ := List.forall_mem_cons.mp hd'
      obtain ⟨htake, hdrop⟩ := span_run (isDigits_iff.mp hrun).2 (head_write runs h)
      obtain ⟨htake', hdrop'⟩ := span_run (isDigits_iff.mp hrun').2 (head_write runs' h)
      rw [write, write] at hw
      have hfirst : run = run' := by rw [← htake, hw, htake']
      have hrest : write rest runs = write rest runs' := by rw [← hdrop, hw, hdrop']
      rw [hfirst, ih h.tail (Nat.succ.inj hl) hd (Nat.succ.inj hl') hd' hrest]

theorem collapse_append_congr {xs ys : List Char} (h : ∀ b, collapse b xs = collapse b ys) (b : Bool)
    (t : List Char) : collapse b (t ++ xs) = collapse b (t ++ ys) := by
  induction t generalizing b with
  | nil => exact h b
  | cons c cs ih => simp only [List.cons_append, collapse, ih]

theorem collapse_digits {run : List Char} (hd : ∀ c ∈ run, c.isDigit = true) (rest : List Char) :
    collapse true (run ++ rest) = collapse true rest := by
  induction run with
  | nil => rfl
  | cons c cs ih =>
    obtain ⟨hc, hcs⟩ := List.forall_mem_cons.mp hd
    simp [collapse, hc, ih hcs]

theorem collapse_run {run : List Char} (hr : isDigits run = true) (b : Bool) (rest : List Char) :
    collapse b (run ++ rest) = collapse b ('0' :: rest) := by
  obtain ⟨hne, hd⟩ := isDigits_iff.mp hr
  obtain ⟨c, cs, rfl⟩ := List.exists_cons_of_ne_nil hne
  obtain ⟨hc, hcs⟩ := List.forall_mem_cons.mp hd
  have h0 : '0'.isDigit = true := by decide
  simp [collapse, hc, h0, collapse_digits hcs]

theorem collapse_write {segments : List Segment} {runs : List (List Char)}
    (hr : (slots segments).Forall₂ Takes runs) (b : Bool) :
    collapse b (write segments runs) = collapse b (sampleName segments) := by
  induction segments generalizing runs b with
  | nil => rfl
  | cons s rest ih =>
    cases s with
    | literal t => exact collapse_append_congr (fun b => ih hr b) b t
    | slot l range =>
      cases hr with
      | @cons _ run _ runs hrun hruns =>
        rw [write, collapse_run hrun.1]
        exact collapse_append_congr (fun b => ih hruns b) b ['0']

theorem shapeOf_eq_shape {t : Template} {name : String} {caps : List (Char × Nat)}
    (h : t.match? name = some caps) : shapeOf name.toList = t.shape := by
  obtain ⟨runs, hr, hw, -⟩ := written_of_matchSegments? h
  rw [← hw]
  exact collapse_write hr false

def fill (t : Template) (values : List Nat) : String :=
  String.ofList (write t.segments (values.map (Nat.toDigits 10)))

theorem takes_toDigits {slot : Char × IndexRange} {n : Nat} :
    Takes slot (Nat.toDigits 10 n) ↔ InRange slot n := by
  rw [Takes, digitsValue_toDigits]
  exact and_iff_right (isDigits_toDigits n)

theorem forall₂_takes_toDigits {slots : List (Char × IndexRange)} {values : List Nat} :
    slots.Forall₂ Takes (values.map (Nat.toDigits 10)) ↔ slots.Forall₂ InRange values := by
  rw [List.forall₂_map_right_iff]
  simp only [takes_toDigits]

theorem captures_toDigits (segments : List Segment) (values : List Nat) :
    captures segments (values.map (Nat.toDigits 10)) = ((slots segments).map Prod.fst).zip values := by
  rw [captures, List.zipWith_map_right, List.zip, List.zipWith_map_left]
  simp only [digitsValue_toDigits]

theorem Normal.match?_iff {t : Template} (h : t.Normal) {name : String} {caps : List (Char × Nat)} :
    t.match? name = some caps ↔
      ∃ runs, (slots t.segments).Forall₂ Takes runs ∧
        name = String.ofList (write t.segments runs) ∧ caps = captures t.segments runs := by
  constructor
  · intro hm
    obtain ⟨runs, hr, hw, hc⟩ := written_of_matchSegments? hm
    exact ⟨runs, hr, by rw [hw, String.ofList_toList], hc.symm⟩
  · rintro ⟨runs, hr, rfl, rfl⟩
    rw [match?, String.toList_ofList]
    exact matchSegments?_write h hr

theorem Normal.match?_fill_eq_none {t : Template} (h : t.Normal) {values : List Nat}
    (hl : values.length = (slots t.segments).length)
    (hv : ¬ (slots t.segments).Forall₂ InRange values) : t.match? (t.fill values) = none := by
  rw [Option.eq_none_iff_forall_ne_some]
  intro caps hm
  obtain ⟨runs, hr, hw, -⟩ := h.match?_iff.mp hm
  have hd : ∀ run ∈ values.map (Nat.toDigits 10), isDigits run = true := by
    simp [isDigits_toDigits]
  have he : runs = values.map (Nat.toDigits 10) :=
    write_injective h hr.length_eq.symm (isDigits_of_takes hr) (by simpa using hl) hd
      (String.ofList_injective hw.symm)
  exact hv (forall₂_takes_toDigits.mp (he ▸ hr))

theorem match?_iff_written {t : Template} (h : t.Derived) :
    (∀ name caps, t.match? name = some caps ↔
      ∃ runs, (slots t.segments).Forall₂ Takes runs ∧
        name = String.ofList (write t.segments runs) ∧ caps = captures t.segments runs) ∧
    (∀ runs runs', (slots t.segments).Forall₂ Takes runs → (slots t.segments).Forall₂ Takes runs' →
      write t.segments runs = write t.segments runs' → runs = runs') ∧
    (∀ values, (slots t.segments).Forall₂ InRange values →
      t.match? (t.fill values) = some (((slots t.segments).map Prod.fst).zip values)) ∧
    (∀ values i v slot, (slots t.segments).Forall₂ InRange values →
      (slots t.segments)[i]? = some slot → ¬ InRange slot v →
        t.match? (t.fill (values.set i v)) = none) := by
  have hn := h.normal
  refine ⟨fun _ _ => hn.match?_iff, ?_, ?_, ?_⟩
  · intro runs runs' hr hr' hw
    exact write_injective hn hr.length_eq.symm (isDigits_of_takes hr) hr'.length_eq.symm
      (isDigits_of_takes hr') hw
  · intro values hv
    rw [hn.match?_iff]
    exact ⟨_, forall₂_takes_toDigits.mpr hv, rfl, (captures_toDigits _ _).symm⟩
  · intro values i v slot hv hs hout
    apply hn.match?_fill_eq_none
    · rw [List.length_set, hv.length_eq]
    · intro hall
      obtain ⟨hi, hget⟩ := List.getElem?_eq_some_iff.mp hs
      have hi' : i < (values.set i v).length := hall.length_eq ▸ hi
      have hv := (List.forall₂_iff_get.mp hall).2 i hi hi'
      simp only [List.get_eq_getElem, hget, List.getElem_set_self] at hv
      exact hout hv

theorem match?_equalizer_bandwidth :
    let t : Template := ⟨"eqN_bw_onccX", [.literal ['e', 'q'], .slot 'N' ⟨1, 3⟩,
      .literal ['_', 'b', 'w', '_', 'o', 'n', 'c', 'c'], .slot 'X' ⟨0, 127⟩]⟩
    t.Derived ∧ t.match? "eq2_bw_oncc064" = some [('N', 2), ('X', 64)] ∧
      t.match? (t.fill [3, 127]) = some [('N', 3), ('X', 127)] ∧
      t.match? (t.fill ([3, 127].set 0 4)) = none := by
  intro t
  have hd : t.Derived := by
    have h : compile "eqN_bwccX" ⟨[('N', ⟨1, 3⟩)], ⟨0, 127⟩⟩ =
        .ok ⟨"eqN_bwccX", [.literal ['e', 'q'], .slot 'N' ⟨1, 3⟩, .literal ['_', 'b', 'w', 'c', 'c'],
          .slot 'X' ⟨0, 127⟩]⟩ := by rfl
    exact .respelled (s := "_oncc") (.compiled h) rfl (by decide)
  obtain ⟨hiff, -, hin, hout⟩ := match?_iff_written hd
  have hv : (slots t.segments).Forall₂ InRange [3, 127] := .cons (by decide) (.cons (by decide) .nil)
  refine ⟨hd, (hiff _ _).mpr ⟨[['2'], ['0', '6', '4']], ?_, by decide, by decide⟩, hin _ hv,
    hout _ 0 4 ('N', ⟨1, 3⟩) hv rfl (by decide)⟩
  exact .cons (by decide) (.cons (by decide) .nil)

end Sfz.Template
