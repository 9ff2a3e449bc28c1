import Sfz.Proofs.FindingPlaces
import Sfz.Proofs.LineLayout

namespace Sfz

def Span.Before (a b : Span) : Prop :=
  a.line < b.line ∨ a.line = b.line ∧ a.column < b.column

namespace Parser

structure OnLine (s : Span) (ns : List Node) : Prop where
  places : ∀ n ∈ ns, n.span.line = s.line ∧ s.column ≤ n.span.column
  ordered : ns.Pairwise (fun a b => a.span.Before b.span)

theorem onLine_singleton {s : Span} {n : Node} (hn : n.span = s) : OnLine s [n] := by
  refine ⟨?_, List.pairwise_singleton ..⟩
  intro m hm
  obtain rfl := List.mem_singleton.mp hm
  rw [hn]
  exact ⟨rfl, Nat.le_refl _⟩

theorem OnLine.from_left {s : Span} {ns : List Node} {k : Nat} (h : OnLine (s.right k) ns) : OnLine s ns := by
  refine ⟨?_, h.ordered⟩
  intro n hn
  obtain ⟨hline, hcolumn⟩ := h.places n hn
  simp only [Span.right] at hline hcolumn
  exact ⟨hline, by omega⟩

theorem OnLine.cons {s : Span} {n : Node} {ns : List Node} {k : Nat} (hn : n.span = s) (hk : 0 < k)
    (h : OnLine (s.right k) ns) : OnLine s (n :: ns) := by
  constructor
  · refine List.forall_mem_cons.mpr ⟨?_, h.from_left.places⟩
    rw [hn]
    exact ⟨rfl, Nat.le_refl _⟩
  · refine List.pairwise_cons.mpr ⟨?_, h.ordered⟩
    intro m hm
    obtain ⟨hline, hcolumn⟩ := h.places m hm
    simp only [Span.right] at hline hcolumn
    apply Or.inr
    rw [hn]
    exact ⟨hline.symm, by omega⟩

theorem onLine_nodesFrom (s : Span) (items : List Item) : OnLine s (nodesFrom s items) := by
  induction items generalizing s with
  | nil => exact ⟨by simp [nodesFrom], .nil⟩
  | cons i items ih =>
    have hrest := ih (s.right i.text.length)
    cases i with
    | blank c => exact hrest.from_left
    | tag kind => exact hrest.cons rfl (Item.length_text_pos _)
    | chunk name raw => exact hrest.cons rfl (Item.length_text_pos _)

theorem onLine_scan {s : Span} {line : List Char} {nodes : List Node} (h : scan s line = .ok nodes) :
    OnLine s nodes := by
  obtain ⟨items, rest, -, -, hscanned⟩ := exists_laid s line
  rw [h] at hscanned
  cases hscanned with
  | done => exact onLine_nodesFrom s items

theorem onLine_parseLine {k : Nat} {line : List Char} {nodes : List Node} (h : parseLine k line = .ok nodes) :
    ∃ m, OnLine ⟨k, m⟩ nodes := by
  rcases parseLine_eq_ok h with ⟨rest, name, value, -, -, rfl⟩ | ⟨rest, path, -, -, rfl⟩ | hscan
  · exact ⟨_, onLine_singleton rfl⟩
  · exact ⟨_, onLine_singleton rfl⟩
  · exact ⟨1, onLine_scan hscan⟩

theorem ordered_parseLines {k : Nat} {ls : List (List Char)} {nodes : List Node}
    (h : parseLines k ls = .ok nodes) :
    (∀ n ∈ nodes, k ≤ n.span.line) ∧ nodes.Pairwise (fun a b => a.span.Before b.span) := by
  induction ls generalizing k nodes with
  | nil =>
    obtain rfl := Except.ok.inj h
    exact ⟨by simp, .nil⟩
  | cons l ls ih =>
    simp only [parseLines, bind_eq_ok, pure_eq_ok] at h
    obtain ⟨ns, hns, ms, hms, rfl⟩ := h
    obtain ⟨m, hplaces, hordered⟩ := onLine_parseLine hns
    obtain ⟨hlater, hordered'⟩ := ih hms
    constructor
    · intro n hn
      rcases List.mem_append.mp hn with hn | hn
      · exact (hplaces n hn).1.ge
      · exact Nat.le_of_succ_le (hlater n hn)
    · refine List.pairwise_append.mpr ⟨hordered, hordered', ?_⟩
      intro a ha b hb
      apply Or.inl
      have hline : a.span.line = k := (hplaces a ha).1
      have hline' := hlater b hb
      omega

end Parser

namespace Node

theorem parse_spans_exact {text : String} {nodes : List Node} (h : parse text = .ok nodes) :
    nodes.Pairwise (fun a b => a.span.Before b.span) ∧ ∀ n ∈ nodes, Text.HasAt text n.span n.opening := by
  obtain ⟨code, -, hlines⟩ := parse_eq_ok.mp h
  exact ⟨(Parser.ordered_parseLines hlines).2, fun n => hasAt_opening h⟩

theorem parse_spans_exact_flute :
    let text := "/* é */<region> key=1 // x\r\n  #define $a 1\n#include \"b.sfz\""
    ∃ nodes, parse text = .ok nodes ∧ nodes.Pairwise (fun a b => a.span.Before b.span) ∧
      Text.HasAt text ⟨1, 8⟩ "<region>" ∧ Text.HasAt text ⟨1, 17⟩ "key=" ∧ Text.HasAt text ⟨2, 3⟩ "#define" ∧
      Text.HasAt text ⟨3, 1⟩ "#include" := by
  intro text
  have h : parse text = .ok [.header .region ⟨1, 8⟩, .opcode "key" "1" ⟨1, 17⟩, .define "a" "1" ⟨2, 3⟩,
      .inclusion "b.sfz" ⟨3, 1⟩] := by
    decide +kernel
  obtain ⟨hordered, hplaces⟩ := parse_spans_exact h
  exact ⟨_, h, hordered, hplaces (.header .region ⟨1, 8⟩) (by simp), hplaces (.opcode "key" "1" ⟨1, 17⟩) (by simp),
    hplaces (.define "a" "1" ⟨2, 3⟩) (by simp), hplaces (.inclusion "b.sfz" ⟨3, 1⟩) (by simp)⟩

end Node

end Sfz
