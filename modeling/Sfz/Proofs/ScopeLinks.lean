import Mathlib.Data.List.Chain
import Mathlib.Data.List.Induction
import Mathlib.Order.Bounds.Basic
import Sfz.Document.Builder

namespace Sfz

namespace HeaderKind

def breadth? : HeaderKind → Option Nat
  | .region => some 0
  | .group => some 1
  | .master => some 2
  | .global => some 3
  | _ => none

def broader (a b : HeaderKind) : Bool :=
  a.breadth?.any (fun m => b.breadth?.any (fun n => n < m))

theorem broader_iff {a b : HeaderKind} :
    a.broader b = true ↔ ∃ m n, a.breadth? = some m ∧ b.breadth? = some n ∧ n < m := by
  simp only [broader, Option.any_eq_true, decide_eq_true_eq]
  constructor
  · rintro ⟨m, hm, n, hn, h⟩
    exact ⟨m, n, hm, hn, h⟩
  · rintro ⟨m, n, hm, hn, h⟩
    exact ⟨m, hm, n, hn, h⟩

theorem broader_trans {a b c : HeaderKind} (hab : a.broader b = true) (hbc : b.broader c = true) :
    a.broader c = true := by
  obtain ⟨m, n, hm, hn, hlt⟩ := broader_iff.mp hab
  obtain ⟨n', k, hn', hk, hlt'⟩ := broader_iff.mp hbc
  obtain rfl : n = n' := Option.some.inj (hn.symm.trans hn')
  exact broader_iff.mpr ⟨m, k, hm, hk, by omega⟩

theorem breadth?_le {a : HeaderKind} {n : Nat} (h : a.breadth? = some n) : n ≤ 3 := by
  cases a <;> simp [breadth?] at h <;> omega

theorem broader_top (a : HeaderKind) {k : HeaderKind} (hk : k ∈ [.global, .control, .curve, .effect, .midi]) :
    a.broader k = false := by
  simp only [List.mem_cons, List.not_mem_nil, or_false] at hk
  rcases hk with rfl | rfl | rfl | rfl | rfl <;> cases a <;> rfl

end HeaderKind

def IsLast (S : Set Nat) : Option Nat → Prop
  | some j => IsGreatest S j
  | none => S = ∅

def lastBelow (p : Nat → Bool) : Nat → Option Nat
  | 0 => none
  | n + 1 => if p n then some n else lastBelow p n

theorem lastBelow_congr {p q : Nat → Bool} {n : Nat} (h : ∀ j < n, p j = q j) :
    lastBelow p n = lastBelow q n := by
  induction n with
  | zero => rfl
  | succ n ih =>
    rw [lastBelow, lastBelow, h n (Nat.lt_succ_self n), ih (fun j hj => h j (Nat.lt_succ_of_lt hj))]

theorem isLast_lastBelow (p : Nat → Bool) (n : Nat) : IsLast {j | j < n ∧ p j = true} (lastBelow p n) := by
  induction n with
  | zero => simp [lastBelow, IsLast]
  | succ n ih =>
    by_cases hp : p n = true
    · rw [lastBelow, if_pos hp]
      refine ⟨⟨Nat.lt_succ_self n, hp⟩, ?_⟩
      intro j hj
      exact Nat.le_of_lt_succ hj.1
    · have hset : {j | j < n + 1 ∧ p j = true} = {j | j < n ∧ p j = true} := by
        ext j
        refine ⟨fun hj => ⟨?_, hj.2⟩, fun hj => ⟨Nat.lt_succ_of_lt hj.1, hj.2⟩⟩
        have hne : j ≠ n := by
          rintro rfl
          exact hp hj.2
        have hlt := hj.1
        omega
      rw [lastBelow, if_neg hp, hset]
      exact ih

namespace Document

def kindIs (d : Document) (p : HeaderKind → Bool) (j : Nat) : Bool :=
  d.headers[j]?.any (fun h => p h.kind)

theorem kindIs_iff {d : Document} {p : HeaderKind → Bool} {j : Nat} :
    d.kindIs p j = true ↔ ∃ h, d.headers[j]? = some h ∧ p h.kind = true :=
  Option.any_eq_true ..

def Inherits (d : Document) (i j : Nat) : Prop :=
  ∃ h, d.headers[i]? = some h ∧ h.parent = some j

def Precedes (d : Document) (i j : Nat) : Prop :=
  j < i ∧ ∃ h g, d.headers[i]? = some h ∧ d.headers[j]? = some g ∧ g.kind.broader h.kind = true

instance (d : Document) : Trans d.Precedes d.Precedes d.Precedes where
  trans := by
    rintro i j k ⟨hji, h, g, hi, hj, hb⟩ ⟨hkj, g', f, hj', hk, hb'⟩
    obtain rfl : g = g' := Option.some.inj (hj.symm.trans hj')
    exact ⟨hkj.trans hji, h, f, hi, hk, HeaderKind.broader_trans hb' hb⟩

/-- Each link of a chain makes the scope broader, and there are four breadths. -/
theorem length_of_precedes {d : Document} {l : List Nat} {i : Nat} {h : Header}
    (hi : d.headers[i]? = some h) (hl : List.IsChain d.Precedes (i :: l)) :
    l = [] ∨ ∃ n, h.kind.breadth? = some n ∧ n + l.length ≤ 3 := by
  induction l generalizing i h with
  | nil => exact .inl rfl
  | cons j l ih =>
    right
    obtain ⟨hij, hl⟩ := List.isChain_cons_cons.mp hl
    obtain ⟨-, h', g, hi', hj, hb⟩ := hij
    obtain rfl : h = h' := Option.some.inj (hi.symm.trans hi')
    obtain ⟨m, n, hm, hn, hlt⟩ := HeaderKind.broader_iff.mp hb
    have hle := HeaderKind.breadth?_le hm
    refine ⟨n, hn, ?_⟩
    rw [List.length_cons]
    rcases ih hj hl with rfl | ⟨m', hm', hlen⟩
    · simp only [List.length_nil]
      omega
    · obtain rfl : m = m' := Option.some.inj (hm.symm.trans hm')
      omega

end Document

namespace Scope

theorem parent_enter (s : Scope) (id : Nat) (kind k : HeaderKind) :
    (s.enter id kind).parent k = if kind.broader k then some id else s.parent k := by
  cases kind <;> cases k <;> rfl

theorem control_enter (s : Scope) (id : Nat) (kind : HeaderKind) :
    (s.enter id kind).control = if kind == .control then some id else s.control := by
  cases kind <;> rfl

end Scope

namespace Builder

inductive Operation
  | openHeader (kind : HeaderKind) (position : Position)
  | assign (s : Setting)
  | define (m : Definition)

def apply (b : Builder) : Operation → Builder
  | .openHeader kind position => b.openHeader kind position
  | .assign s => b.assign s
  | .define m => b.define m

def build (root : Path) (ops : List Operation) : Builder :=
  ops.foldl apply (empty root)

theorem build_concat (root : Path) (ops : List Operation) (op : Operation) :
    build root (ops ++ [op]) = (build root ops).apply op := by
  simp [build]

section Headers

variable (b : Builder) (kind : HeaderKind) (position : Position) (s : Setting) (p : HeaderKind → Bool)

theorem headers_openHeader : (b.openHeader kind position).document.headers =
    b.document.headers.push ⟨kind, position, #[], b.scope.parent kind,
      (b.scope.enter b.document.headers.size kind).control⟩ := rfl

theorem headers_assign (j : Nat) : (b.assign s).document.headers[j]? =
    if j + 1 = b.document.headers.size then
      b.document.headers[j]?.map (fun h => { h with settings := h.settings.push s })
    else b.document.headers[j]? := by
  have hmodify : (b.assign s).document.headers = b.document.headers.modify (b.document.headers.size - 1)
      (fun h => { h with settings := h.settings.push s }) := rfl
  rw [hmodify, Array.getElem?_modify]
  by_cases hsize : b.document.headers.size = 0
  · have hnone : b.document.headers[j]? = none := Array.getElem?_eq_none (by omega)
    simp [hnone]
  · by_cases hj : j + 1 = b.document.headers.size
    · rw [if_pos hj, if_pos (by omega)]
    · rw [if_neg hj, if_neg (by omega)]

theorem size_assign : (b.assign s).document.headers.size = b.document.headers.size := by
  simp [assign]

theorem kindIs_openHeader {j : Nat} (hj : j < b.document.headers.size) :
    (b.openHeader kind position).document.kindIs p j = b.document.kindIs p j := by
  rw [Document.kindIs, Document.kindIs, headers_openHeader, Array.getElem?_push_lt hj,
    Array.getElem?_eq_getElem hj]

theorem kindIs_openHeader_self :
    (b.openHeader kind position).document.kindIs p b.document.headers.size = p kind := by
  rw [Document.kindIs, headers_openHeader, Array.getElem?_push_size]
  rfl

theorem kindIs_assign : (b.assign s).document.kindIs p = b.document.kindIs p := by
  funext j
  rw [Document.kindIs, Document.kindIs, headers_assign]
  split
  · rw [Option.any_map]
  · rfl

end Headers

structure Linked (b : Builder) : Prop where
  parent : ∀ k, b.scope.parent k = lastBelow (b.document.kindIs (·.broader k)) b.document.headers.size
  control : b.scope.control = lastBelow (b.document.kindIs (· == .control)) b.document.headers.size
  headers : ∀ i h, b.document.headers[i]? = some h →
    h.parent = lastBelow (b.document.kindIs (·.broader h.kind)) i ∧
    h.control = lastBelow (b.document.kindIs (· == .control)) (i + 1)

theorem linked_empty (root : Path) : (empty root).Linked where
  parent k := by cases k <;> rfl
  control := rfl
  headers i h hi := by simp [empty] at hi

theorem lastBelow_openHeader (b : Builder) (kind : HeaderKind) (position : Position)
    (p : HeaderKind → Bool) :
    lastBelow ((b.openHeader kind position).document.kindIs p) (b.document.headers.size + 1) =
      if p kind then some b.document.headers.size
      else lastBelow (b.document.kindIs p) b.document.headers.size := by
  rw [lastBelow, kindIs_openHeader_self,
    lastBelow_congr (fun j hj => kindIs_openHeader b kind position p hj)]

theorem Linked.openHeader {b : Builder} (hb : b.Linked) (kind : HeaderKind) (position : Position) :
    (b.openHeader kind position).Linked := by
  have hsize : (b.openHeader kind position).document.headers.size = b.document.headers.size + 1 :=
    Array.size_push ..
  have hcontrol : (b.scope.enter b.document.headers.size kind).control = lastBelow
      ((b.openHeader kind position).document.kindIs (· == .control)) (b.document.headers.size + 1) := by
    rw [lastBelow_openHeader, Scope.control_enter, hb.control]
  refine ⟨?_, ?_, ?_⟩
  · intro k
    rw [hsize, lastBelow_openHeader, ← hb.parent k]
    exact Scope.parent_enter b.scope b.document.headers.size kind k
  · rw [hsize]
    exact hcontrol
  · intro i h hi
    rw [headers_openHeader, Array.getElem?_push] at hi
    by_cases hlast : i = b.document.headers.size
    · subst hlast
      rw [if_pos rfl] at hi
      obtain rfl := Option.some.inj hi
      refine ⟨?_, hcontrol⟩
      dsimp only
      rw [hb.parent kind, lastBelow_congr (fun j hj => kindIs_openHeader b kind position _ hj)]
    · rw [if_neg hlast] at hi
      have hlt : i < b.document.headers.size := (Array.getElem?_eq_some_iff.mp hi).1
      obtain ⟨hparent, hc⟩ := hb.headers i h hi
      rw [hparent, hc]
      constructor
      · apply lastBelow_congr
        intro j hj
        exact (kindIs_openHeader b kind position _ (by omega)).symm
      · apply lastBelow_congr
        intro j hj
        exact (kindIs_openHeader b kind position _ (by omega)).symm

theorem Linked.assign {b : Builder} (hb : b.Linked) (s : Setting) : (b.assign s).Linked := by
  refine ⟨?_, ?_, ?_⟩
  · intro k
    rw [kindIs_assign, size_assign]
    exact hb.parent k
  · rw [kindIs_assign, size_assign]
    exact hb.control
  · intro i h hi
    rw [headers_assign] at hi
    rw [kindIs_assign, kindIs_assign]
    split at hi
    · obtain ⟨g, hg, rfl⟩ := Option.map_eq_some_iff.mp hi
      exact hb.headers i g hg
    · exact hb.headers i h hi

theorem Linked.apply {b : Builder} (hb : b.Linked) (op : Operation) : (b.apply op).Linked := by
  cases op with
  | openHeader kind position => exact hb.openHeader kind position
  | assign s => exact hb.assign s
  | define m => exact ⟨hb.parent, hb.control, hb.headers⟩

theorem linked_build (root : Path) (ops : List Operation) : (build root ops).Linked := by
  induction ops using List.reverseRecOn with
  | nil => exact linked_empty root
  | append_singleton ops op ih =>
    rw [build_concat]
    exact ih.apply op

theorem Linked.precedes {b : Builder} (hb : b.Linked) {i j : Nat} (h : b.document.Inherits i j) :
    b.document.Precedes i j := by
  obtain ⟨g, hi, hp⟩ := h
  have hlast := isLast_lastBelow (b.document.kindIs (·.broader g.kind)) i
  rw [← (hb.headers i g hi).1, hp] at hlast
  obtain ⟨hlt, hj⟩ := hlast.1
  obtain ⟨f, hf, hbroader⟩ := Document.kindIs_iff.mp hj
  exact ⟨hlt, g, f, hi, hf, hbroader⟩

theorem links_are_nearest (root : Path) (ops : List Operation) {i : Nat} {h : Header}
    (hi : (build root ops).document.headers[i]? = some h) :
    let d := (build root ops).document
    IsLast {j | j < i ∧ ∃ g, d.headers[j]? = some g ∧ g.kind.broader h.kind = true} h.parent ∧
    (h.kind ∈ [.global, .control, .curve, .effect, .midi] → h.parent = none) ∧
    IsLast {c | c ≤ i ∧ ∃ g, d.headers[c]? = some g ∧ g.kind = .control} h.control ∧
    (∀ j, h.parent = some j → j < i) ∧
    ∀ l, List.IsChain d.Inherits (i :: l) → (i :: l).Pairwise d.Precedes ∧ l.length ≤ 3 := by
  intro d
  have hb := linked_build root ops
  obtain ⟨hparent, hcontrol⟩ := hb.headers i h hi
  have hnearest : IsLast {j | j < i ∧ ∃ g, d.headers[j]? = some g ∧ g.kind.broader h.kind = true}
      h.parent := by
    have hlast := isLast_lastBelow (d.kindIs (·.broader h.kind)) i
    simp only [Document.kindIs_iff] at hlast
    rwa [hparent]
  refine ⟨hnearest, ?_, ?_, ?_, ?_⟩
  · intro hk
    cases hp : h.parent with
    | none => rfl
    | some j =>
      rw [hp] at hnearest
      obtain ⟨-, g, -, hg⟩ := hnearest.1
      exact absurd hg (by simp [HeaderKind.broader_top g.kind hk])
  · have hlast := isLast_lastBelow (d.kindIs (· == .control)) (i + 1)
    simp only [Document.kindIs_iff, beq_iff_eq, Nat.lt_succ_iff] at hlast
    rwa [hcontrol]
  · intro j hj
    rw [hj] at hnearest
    exact hnearest.1.1
  · intro l hl
    have hchain : List.IsChain d.Precedes (i :: l) := hl.imp (fun _ _ => hb.precedes)
    refine ⟨hchain.pairwise, ?_⟩
    rcases Document.length_of_precedes hi hchain with rfl | ⟨n, -, hlen⟩
    · exact Nat.zero_le 3
    · omega

def layered : List Operation :=
  [.openHeader .global ⟨⟨"a"⟩, 1, 1⟩, .openHeader .group ⟨⟨"a"⟩, 2, 1⟩, .openHeader .master ⟨⟨"a"⟩, 3, 1⟩,
    .openHeader .group ⟨⟨"a"⟩, 4, 1⟩, .assign ⟨"key", "60", ⟨⟨"a"⟩, 4, 8⟩⟩,
    .openHeader .control ⟨⟨"a"⟩, 5, 1⟩, .openHeader .region ⟨⟨"a"⟩, 6, 1⟩]

theorem links_layered :
    (build ⟨"a"⟩ layered).document.headers[5]? = some ⟨.region, ⟨⟨"a"⟩, 6, 1⟩, #[], some 3, some 4⟩ ∧
    IsLast {j | j < 5 ∧ ∃ g, (build ⟨"a"⟩ layered).document.headers[j]? = some g ∧
      g.kind.broader .region = true} (some 3) ∧
    IsLast {c | c ≤ 5 ∧ ∃ g, (build ⟨"a"⟩ layered).document.headers[c]? = some g ∧ g.kind = .control}
      (some 4) ∧
    [5, 3, 2, 0].Pairwise (build ⟨"a"⟩ layered).document.Precedes := by
  have hi : (build ⟨"a"⟩ layered).document.headers[5]? =
      some ⟨.region, ⟨⟨"a"⟩, 6, 1⟩, #[], some 3, some 4⟩ := rfl
  obtain ⟨hparent, -, hcontrol, -, hchain⟩ := links_are_nearest ⟨"a"⟩ layered hi
  refine ⟨hi, hparent, hcontrol, (hchain [3, 2, 0] ?_).1⟩
  refine .cons_cons ⟨_, hi, rfl⟩ (.cons_cons ⟨_, rfl, rfl⟩ (.cons_cons ⟨_, rfl, rfl⟩ (.singleton 0)))

end Builder

end Sfz
