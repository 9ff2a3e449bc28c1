import Mathlib.Data.List.Forall2
import Mathlib.Data.List.TakeWhile
import Sfz.Proofs.TextComposition

namespace Sfz

namespace Text

theorem splitLines_eq_cons {cs l : List Char} {ls : List (List Char)} (h : splitLines cs = l :: ls) :
    l <+: cs ∧ ∀ k ∈ ls, k <:+: cs := by
  induction cs generalizing l ls with
  | nil =>
    obtain ⟨rfl, rfl⟩ : [] = l ∧ [] = ls := by simpa [splitLines] using h
    exact ⟨List.nil_prefix, by simp⟩
  | cons c cs ih =>
    have htail : cs <:+: c :: cs := (List.suffix_cons c cs).isInfix
    cases hs : splitLines cs with
    | nil => exact absurd hs (splitLines_ne_nil cs)
    | cons k ks =>
      obtain ⟨hk, hks⟩ := ih hs
      rw [splitLines, hs] at h
      split at h
      · obtain ⟨rfl, rfl⟩ := List.cons.inj h
        refine ⟨List.nil_prefix, ?_⟩
        intro x hx
        rcases List.mem_cons.mp hx with rfl | hx
        · exact hk.isInfix.trans htail
        · exact (hks x hx).trans htail
      · obtain ⟨rfl, rfl⟩ := List.cons.inj h
        exact ⟨(List.prefix_cons_inj c).mpr hk, fun x hx => (hks x hx).trans htail⟩

theorem infix_of_mem_splitLines {cs l : List Char} (h : l ∈ splitLines cs) : l <:+: cs := by
  cases hs : splitLines cs with
  | nil => exact absurd hs (splitLines_ne_nil cs)
  | cons k ks =>
    obtain ⟨hk, hks⟩ := splitLines_eq_cons hs
    rw [hs] at h
    rcases List.mem_cons.mp h with rfl | h
    · exact hk.isInfix
    · exact hks l h

theorem not_mem_of_mem_splitLines {cs l : List Char} (h : l ∈ splitLines cs) : '\n' ∉ l := by
  induction cs generalizing l with
  | nil =>
    obtain rfl : l = [] := by simpa [splitLines] using h
    exact List.not_mem_nil
  | cons c cs ih =>
    rw [splitLines] at h
    by_cases hc : c = '\n'
    · rw [if_pos hc, List.mem_cons] at h
      rcases h with rfl | h
      · exact List.not_mem_nil
      · exact ih h
    · rw [if_neg hc] at h
      cases hl : splitLines cs with
      | nil => exact absurd hl (splitLines_ne_nil cs)
      | cons k ls =>
        rw [hl] at h ih
        rcases List.mem_cons.mp h with rfl | h
        · exact List.not_mem_cons_of_ne_of_not_mem (Ne.symm hc) (ih (List.mem_cons_self ..))
        · exact ih (List.mem_cons_of_mem _ h)

end Text

namespace Comment

open Text

inductive Blanked : List Char → List Char → Prop
  | nil : Blanked [] []
  | sign {a b : Char} {cs code : List Char} (ha : a ≠ '\n') (hb : b ≠ '\n') (h : Blanked cs code) :
      Blanked (a :: b :: cs) (' ' :: ' ' :: code)
  | inside (c : Char) {cs code : List Char} (h : Blanked cs code) : Blanked (c :: cs) (blank c :: code)
  | outside {c : Char} {cs code : List Char}
      (hc : c = '/' → cs.head? ≠ some '/' ∧ cs.head? ≠ some '*') (h : Blanked cs code) :
      Blanked (c :: cs) (c :: code)

theorem blanked_of_blankFrom {m : Mode} {s : Span} {cs code : List Char} (h : blankFrom m s cs = .ok code) :
    Blanked cs code := by
  fun_induction blankFrom m s cs generalizing code with
  | case1 => simp at h
  | case2 =>
    obtain rfl : [] = code := by simpa using h
    exact .nil
  | case3 s cs ih =>
    simp only [bind_eq_ok, pure_eq_ok] at h
    obtain ⟨x, hx, rfl⟩ := h
    exact .sign (by decide) (by decide) (ih hx)
  | case4 s cs ih =>
    simp only [bind_eq_ok, pure_eq_ok] at h
    obtain ⟨x, hx, rfl⟩ := h
    exact .sign (by decide) (by decide) (ih hx)
  | case5 s c cs h₁ h₂ ih =>
    simp only [bind_eq_ok, pure_eq_ok] at h
    obtain ⟨x, hx, rfl⟩ := h
    refine .outside (fun hc => ⟨fun hh => ?_, fun hh => ?_⟩) (ih hx)
    · obtain ⟨ds, rfl⟩ := List.head?_eq_some_iff.mp hh
      exact h₁ ds hc rfl
    · obtain ⟨ds, rfl⟩ := List.head?_eq_some_iff.mp hh
      exact h₂ ds hc rfl
  | case6 s c cs ih =>
    simp only [bind_eq_ok, pure_eq_ok] at h
    obtain ⟨x, hx, rfl⟩ := h
    exact .inside c (ih hx)
  | case7 o s cs ih =>
    simp only [bind_eq_ok, pure_eq_ok] at h
    obtain ⟨x, hx, rfl⟩ := h
    exact .sign (by decide) (by decide) (ih hx)
  | case8 o s c cs _ ih =>
    simp only [bind_eq_ok, pure_eq_ok] at h
    obtain ⟨x, hx, rfl⟩ := h
    exact .inside c (ih hx)

def Kept (c d : Char) : Prop :=
  d = c ∨ d = ' ' ∧ c ≠ '\n'

theorem kept_blank (c : Char) : Kept c (blank c) := by
  unfold blank
  split
  next => exact .inl rfl
  next h => exact .inr ⟨rfl, fun hc => h (.inl hc)⟩

theorem Blanked.kept {cs code : List Char} (h : Blanked cs code) : List.Forall₂ Kept cs code := by
  induction h with
  | nil => exact .nil
  | sign ha hb _ ih => exact .cons (.inr ⟨rfl, ha⟩) (.cons (.inr ⟨rfl, hb⟩) ih)
  | inside c _ ih => exact .cons (kept_blank c) ih
  | outside _ _ ih => exact .cons (.inl rfl) ih

theorem kept_splitLines {cs code : List Char} (h : List.Forall₂ Kept cs code) :
    List.Forall₂ (List.Forall₂ Kept) (splitLines cs) (splitLines code) := by
  induction h with
  | nil => exact .cons .nil .nil
  | @cons c d cs code hk _ ih =>
    rw [splitLines, splitLines]
    by_cases hc : c = '\n'
    · have hd : d = '\n' := by
        rcases hk with rfl | ⟨-, hne⟩
        · exact hc
        · exact absurd hc hne
      rw [if_pos hc, if_pos hd]
      exact .cons .nil ih
    · have hd : d ≠ '\n' := by
        rcases hk with rfl | ⟨rfl, -⟩
        · exact hc
        · decide
      rw [if_neg hc, if_neg hd]
      generalize splitLines cs = ls at ih
      generalize splitLines code = ls' at ih
      cases ih with
      | nil => exact .cons (.cons hk .nil) .nil
      | cons hl hls => exact .cons (.cons hk hl) hls

theorem eq_of_kept {cs code : List Char} (h : List.Forall₂ Kept cs code) (hcode : ' ' ∉ code) :
    cs = code := by
  induction h with
  | nil => rfl
  | @cons c d cs code hk _ ih =>
    obtain ⟨hd, hrest⟩ := List.ne_and_not_mem_of_not_mem_cons hcode
    rcases hk with rfl | ⟨rfl, -⟩
    · rw [ih hrest]
    · exact absurd rfl hd

theorem plain_nil : Plain [] :=
  ⟨by simp, by simp⟩

theorem plain_cons {c : Char} {cs : List Char} :
    Plain (c :: cs) ↔ (c = '/' → cs.head? ≠ some '/' ∧ cs.head? ≠ some '*') ∧ Plain cs := by
  unfold Plain
  simp only [List.infix_cons_iff, List.cons_prefix_cons, not_or]
  have hhead : ∀ d : Char, [d] <+: cs ↔ cs.head? = some d := by
    intro d
    cases cs with
    | nil => simp
    | cons e es => simp [List.cons_prefix_cons, eq_comm]
  rw [hhead, hhead]
  constructor
  · rintro ⟨⟨h₁, h₂⟩, h₃, h₄⟩
    exact ⟨fun hc => ⟨fun h => h₁ ⟨hc.symm, h⟩, fun h => h₃ ⟨hc.symm, h⟩⟩, h₂, h₄⟩
  · rintro ⟨h, h₂, h₄⟩
    exact ⟨⟨fun h₁ => (h h₁.1.symm).1 h₁.2, h₂⟩, fun h₃ => (h h₃.1.symm).2 h₃.2, h₄⟩

theorem Plain.cons {c : Char} {cs : List Char} (hc : c ≠ '/') (h : Plain cs) : Plain (c :: cs) :=
  plain_cons.mpr ⟨fun hslash => absurd hslash hc, h⟩

theorem blank_ne_slash (c : Char) : blank c ≠ '/' := by
  unfold blank
  split
  next h =>
    rintro rfl
    simp at h
  next => decide

theorem Blanked.plain {cs code : List Char} (h : Blanked cs code) : Plain code := by
  induction h with
  | nil => exact plain_nil
  | sign _ _ _ ih => exact (ih.cons (by decide)).cons (by decide)
  | inside c _ ih => exact ih.cons (blank_ne_slash c)
  | outside hc h ih =>
    refine plain_cons.mpr ⟨fun hslash => ?_, ih⟩
    obtain ⟨h₁, h₂⟩ := hc hslash
    -- the character after it stays as well, or is blanked
    cases h.kept with
    | nil => simp
    | cons hk _ =>
      rcases hk with rfl | ⟨rfl, -⟩
      · exact ⟨h₁, h₂⟩
      · simp

end Comment

namespace Parser

open Text

section Run

variable {p : Char → Bool} {run rest : List Char} {c : Char}

theorem takeWhile_run (h : ∀ d ∈ run, p d = true) (hc : p c = false) :
    (run ++ c :: rest).takeWhile p = run := by
  rw [List.takeWhile_append_of_pos h, List.takeWhile_cons_of_neg (by simp [hc]), List.append_nil]

theorem dropWhile_run (h : ∀ d ∈ run, p d = true) (hc : p c = false) :
    (run ++ c :: rest).dropWhile p = c :: rest := by
  rw [List.dropWhile_append_of_pos h, List.dropWhile_cons_of_neg (by simp [hc])]

end Run

theorem tag?_eq_some {cs name rest : List Char} : tag? cs = some (name, rest) ↔
    cs = '<' :: (name ++ '>' :: rest) ∧ ∀ c ∈ name, isTagChar c = true := by
  constructor
  · intro h
    unfold tag? at h
    split at h
    next cs =>
      split at h
      next r hr =>
        obtain ⟨rfl, rfl⟩ := by simpa using h
        refine ⟨?_, fun c => List.mem_takeWhile_imp⟩
        rw [← hr, List.takeWhile_append_dropWhile]
      next => simp at h
    next => simp at h
  · rintro ⟨rfl, hname⟩
    simp only [tag?, takeWhile_run hname (show isTagChar '>' = false by decide),
      dropWhile_run hname (show isTagChar '>' = false by decide)]

theorem setting?_eq_some {cs name rest : List Char} : setting? cs = some (name, rest) ↔
    cs = name ++ '=' :: rest ∧ name ≠ [] ∧ ∀ c ∈ name, isNameChar c = true := by
  constructor
  · intro h
    unfold setting? at h
    split at h
    next c name r hn hr =>
      obtain ⟨rfl, rfl⟩ := by simpa using h
      rw [← hn]
      refine ⟨?_, by simp [hn], fun c => List.mem_takeWhile_imp⟩
      rw [← hr, List.takeWhile_append_dropWhile]
    next => simp at h
  · rintro ⟨rfl, hne, hname⟩
    unfold setting?
    rw [takeWhile_run hname (by decide), dropWhile_run hname (by decide)]
    cases name with
    | nil => exact absurd rfl hne
    | cons c name => rfl

theorem after?_eq_some {ps cs rest : List Char} : after? ps cs = some rest ↔ cs = ps ++ rest := by
  induction ps generalizing cs with
  | nil => simp [after?]
  | cons p ps ih =>
    cases cs with
    | nil => simp [after?]
    | cons c cs =>
      rw [after?]
      by_cases hp : p = c
      · rw [if_pos hp, ih, hp, List.cons_append, List.cons.injEq]
        simp
      · rw [if_neg hp]
        simp [Ne.symm hp]

inductive Read (s : Span) (cs : List Char) : Node → Prop
  | header {name rest : List Char} {kind : HeaderKind} (ht : tag? cs = some (name, rest))
      (hk : HeaderKind.ofName? (String.ofList name) = some kind) : Read s cs (.header kind s)
  | opcode {name rest : List Char} (ho : setting? cs = some (name, rest)) :
      Read s cs (.opcode (String.ofList name) (String.ofList (unquote (trim (rawValue rest).1))) s)
  | define {rest : List Char} {name value : String} (ha : after? "#define".toList cs = some rest)
      (hd : definition? rest = some (name, value)) : Read s cs (.define name value s)
  | inclusion {rest : List Char} {path : String} (ha : after? "#include".toList cs = some rest)
      (hi : inclusion? rest = some path) : Read s cs (.inclusion path s)

theorem exists_read_of_append {s : Span} (front : List Char) {cs : List Char} {k : Nat}
    (hk : front.length = k) {n : Node} (h : ∃ m, Read ((s.right k).right m) (cs.drop m) n) :
    ∃ m, Read (s.right m) ((front ++ cs).drop m) n := by
  obtain ⟨m, hr⟩ := h
  refine ⟨k + m, ?_⟩
  have hs : (s.right k).right m = s.right (k + m) := by simp [Span.right, Nat.add_assoc]
  have hd : (front ++ cs).drop (k + m) = cs.drop m := by
    rw [← hk, List.drop_append, List.drop_eq_nil_of_le (Nat.le_add_right ..), Nat.add_sub_cancel_left,
      List.nil_append]
  rwa [hd, ← hs]

theorem exists_read_of_scan {s : Span} {cs : List Char} {nodes : List Node} (h : scan s cs = .ok nodes)
    {n : Node} (hn : n ∈ nodes) : ∃ m, Read (s.right m) (cs.drop m) n := by
  fun_induction scan s cs generalizing nodes with
  | case1 =>
    obtain rfl := Except.ok.inj h
    simp at hn
  | case2 s c cs hc ih => exact exists_read_of_append [c] rfl (ih h hn)
  | case3 => simp at h
  | case4 s c cs hc name rest ht kind hk ih =>
    simp only [bind_eq_ok, pure_eq_ok] at h
    obtain ⟨ns, hns, rfl⟩ := h
    rcases List.mem_cons.mp hn with rfl | hn
    · exact ⟨0, .header ht hk⟩
    · have hcs : c :: cs = ('<' :: (name ++ ['>'])) ++ rest := by simpa using (tag?_eq_some.mp ht).1
      rw [hcs]
      exact exists_read_of_append _ (by simp) (ih hns hn)
  | case5 s c cs hc ht name rest ho value after =>
    next ih =>
      simp only [bind_eq_ok, pure_eq_ok] at h
      obtain ⟨ns, hns, rfl⟩ := h
      rcases List.mem_cons.mp hn with rfl | hn
      · exact ⟨0, .opcode ho⟩
      · have hcs : c :: cs = (name ++ '=' :: (rawValue rest).1) ++ (rawValue rest).2 := by
          rw [(setting?_eq_some.mp ho).1, List.append_assoc, List.cons_append, rawValue_append]
        rw [hcs]
        refine exists_read_of_append _ ?_ (ih hns hn)
        simp only [List.length_append, List.length_cons]
        omega
  | case6 => simp at h

theorem parseLine_eq_ok {k : Nat} {line : List Char} {nodes : List Node} (h : parseLine k line = .ok nodes) :
    (∃ rest name value, after? "#define".toList (trimStart line) = some rest ∧
      definition? rest = some (name, value) ∧
      nodes = [.define name value ⟨k, line.length - (trimStart line).length + 1⟩]) ∨
    (∃ rest path, after? "#include".toList (trimStart line) = some rest ∧ inclusion? rest = some path ∧
      nodes = [.inclusion path ⟨k, line.length - (trimStart line).length + 1⟩]) ∨
    scan ⟨k, 1⟩ line = .ok nodes := by
  cases hd : after? "#define".toList (trimStart line) with
  | some rest =>
    simp only [parseLine, hd] at h
    cases hv : definition? rest with
    | none => simp [hv] at h
    | some nv => exact .inl ⟨rest, nv.1, nv.2, rfl, hv, by simpa [hv] using h.symm⟩
  | none =>
    cases hi : after? "#include".toList (trimStart line) with
    | some rest =>
      simp only [parseLine, hd, hi] at h
      cases hp : inclusion? rest with
      | none => simp [hp] at h
      | some path => exact .inr (.inl ⟨rest, path, rfl, hp, by simpa [hp] using h.symm⟩)
    | none =>
      simp only [parseLine, hd, hi] at h
      exact .inr (.inr h)

theorem exists_read_of_parseLine {k : Nat} {line : List Char} {nodes : List Node}
    (h : parseLine k line = .ok nodes) {n : Node} (hn : n ∈ nodes) :
    ∃ m, Read ⟨k, m + 1⟩ (line.drop m) n := by
  have hbody : line.drop (line.length - (trimStart line).length) = trimStart line := by
    obtain ⟨front, hf⟩ : trimStart line <:+ line := List.dropWhile_suffix isBlank
    have hlen := congrArg List.length hf
    rw [List.length_append] at hlen
    have hfront : line.length - (trimStart line).length = front.length := by omega
    rw [hfront]
    conv_lhs => rw [← hf]
    exact List.drop_left
  rcases parseLine_eq_ok h with ⟨rest, name, value, ha, hv, rfl⟩ | ⟨rest, path, ha, hp, rfl⟩ | hscan
  · obtain rfl := List.mem_singleton.mp hn
    exact ⟨_, .define (by rw [hbody]; exact ha) hv⟩
  · obtain rfl := List.mem_singleton.mp hn
    exact ⟨_, .inclusion (by rw [hbody]; exact ha) hp⟩
  · obtain ⟨m, hr⟩ := exists_read_of_scan hscan hn
    have hs : (⟨k, m + 1⟩ : Span) = (⟨k, 1⟩ : Span).right m := by simp [Span.right, Nat.add_comm]
    exact ⟨m, hs ▸ hr⟩

theorem exists_read_of_parseLines {k : Nat} {ls : List (List Char)} {nodes : List Node}
    (h : parseLines k ls = .ok nodes) {n : Node} (hn : n ∈ nodes) :
    ∃ i l m, ls[i]? = some l ∧ Read ⟨k + i, m + 1⟩ (l.drop m) n := by
  induction ls generalizing k nodes with
  | nil =>
    obtain rfl := Except.ok.inj h
    simp at hn
  | cons l ls ih =>
    simp only [parseLines, bind_eq_ok, pure_eq_ok] at h
    obtain ⟨ns, hns, ms, hms, rfl⟩ := h
    rcases List.mem_append.mp hn with hn | hn
    · obtain ⟨m, hr⟩ := exists_read_of_parseLine hns hn
      exact ⟨0, l, m, rfl, hr⟩
    · obtain ⟨i, l', m, hl, hr⟩ := ih hms hn
      refine ⟨i + 1, l', m, by simpa using hl, ?_⟩
      rwa [show k + (i + 1) = k + 1 + i by omega]

end Parser

namespace Node

open Sfz.Parser Sfz.Comment Sfz.Text

theorem parse_eq_ok {text : String} {nodes : List Node} : parse text = .ok nodes ↔
    ∃ code, blankFrom .code .start text.toList = .ok code ∧ parseLines 1 (splitLines code) = .ok nodes := by
  unfold parse blankComments
  simp only [bind_eq_ok, mapError_eq_ok, parseLines_lines]

theorem exists_read_of_parse {text : String} {nodes : List Node} (h : parse text = .ok nodes) {n : Node}
    (hn : n ∈ nodes) : ∃ code i l m, blankFrom .code .start text.toList = .ok code ∧
      (splitLines code)[i]? = some l ∧ Read ⟨i + 1, m + 1⟩ (l.drop m) n := by
  obtain ⟨code, hcode, hlines⟩ := parse_eq_ok.mp h
  obtain ⟨i, l, m, hl, hr⟩ := exists_read_of_parseLines hlines hn
  exact ⟨code, i, l, m, hcode, hl, by rwa [Nat.add_comm] at hr⟩

end Node

end Sfz
