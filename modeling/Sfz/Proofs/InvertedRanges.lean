import Sfz.Check.Structure
import Sfz.Proofs.InheritedLookup

namespace Sfz

open Number Builder

namespace Header

def head (h : Header) : HeaderKind × Position :=
  (h.kind, h.position)

def last? (h : Header) (name : String) : Option Setting :=
  (h.settings.toList.filter (fun s => s.name == name)).getLast?

theorem get?_eq_last? (h : Header) (name : String) : h.get? name = h.last? name := by
  rw [get?, last?, ← List.head?_filter, List.filter_reverse, List.head?_reverse]

end Header

namespace HeaderKind

def closes (a b : HeaderKind) : Bool :=
  a == b || a.broader b

end HeaderKind

namespace Document

def inForce? (d : Document) (kind : HeaderKind) (n : Nat) : Option Header :=
  ((lastBelow (d.kindIs (·.closes kind)) n).bind (d.headers[·]?)).filter (fun h => h.kind == kind)

def inEffect? (d : Document) (name : String) (id : Nat) : Option Setting :=
  (d.headers[id]?.bind (·.last? name)).or
    (((d.inForce? .group id).bind (·.last? name)).or
      (((d.inForce? .master id).bind (·.last? name)).or ((d.inForce? .global id).bind (·.last? name))))

def passed? (d : Document) (name : String) (kind : HeaderKind) (n : Nat) : Option Setting :=
  (lastBelow (d.kindIs (·.broader kind)) n).bind (d.lookup name)

theorem lastBelow_kindIs {d : Document} {n : Nat} {h : Header} (hn : d.headers[n]? = some h)
    (p : HeaderKind → Bool) :
    lastBelow (d.kindIs p) (n + 1) = if p h.kind then some n else lastBelow (d.kindIs p) n := by
  rw [lastBelow, kindIs, hn]
  rfl

theorem lastBelow_kindIs_outside {d : Document} {n : Nat} (hn : d.headers[n]? = none)
    (p : HeaderKind → Bool) : lastBelow (d.kindIs p) (n + 1) = lastBelow (d.kindIs p) n := by
  rw [lastBelow, kindIs, hn]
  rfl

theorem inForce?_succ {d : Document} {n : Nat} {h : Header} (hn : d.headers[n]? = some h)
    (kind : HeaderKind) : d.inForce? kind (n + 1) =
      if h.kind = kind then some h else if h.kind.broader kind then none else d.inForce? kind n := by
  unfold inForce?
  rw [lastBelow_kindIs hn, HeaderKind.closes]
  by_cases he : h.kind = kind
  · simp [he, hn, Option.filter]
  · by_cases hb : h.kind.broader kind = true
    · simp [he, hb, hn, Option.filter]
    · simp [he, hb]

theorem passed?_succ {d : Document} {n : Nat} {h : Header} (hn : d.headers[n]? = some h) (name : String)
    (kind : HeaderKind) : d.passed? name kind (n + 1) =
      if h.kind.broader kind then d.lookup name n else d.passed? name kind n := by
  unfold passed?
  rw [lastBelow_kindIs hn]
  split <;> rfl

theorem passed?_global (d : Document) (name : String) (n : Nat) : d.passed? name .global n = none := by
  have hnone : d.kindIs (·.broader .global) = fun _ => false := by
    funext j
    simp [kindIs, HeaderKind.broader_top]
  have hlast : lastBelow (fun _ => false) n = none := by
    induction n with
    | zero => rfl
    | succ n ih => exact ih
  rw [passed?, hnone, hlast]
  rfl

end Document

namespace Builder

theorem Linked.passed?_eq {b : Builder} (hb : b.Linked) {inner : HeaderKind} (outer : HeaderKind)
    (hk : ∀ k : HeaderKind, k.broader inner = k.closes outer) (name : String) (n : Nat) :
    b.document.passed? name inner n =
      ((b.document.inForce? outer n).bind (·.last? name)).or (b.document.passed? name outer n) := by
  induction n with
  | zero => rfl
  | succ n ih =>
    cases hn : b.document.headers[n]? with
    | none =>
      unfold Document.passed? Document.inForce? at ih ⊢
      rw [Document.lastBelow_kindIs_outside hn, Document.lastBelow_kindIs_outside hn,
        Document.lastBelow_kindIs_outside hn]
      exact ih
    | some h =>
      rw [Document.passed?_succ hn, Document.passed?_succ hn, Document.inForce?_succ hn, hk,
        HeaderKind.closes]
      by_cases he : h.kind = outer
      · have hself : outer.broader outer = false := by cases outer <;> rfl
        have hparent : h.parent.bind (b.document.lookup name) = b.document.passed? name outer n := by
          rw [(hb.headers n h hn).1, he]
          rfl
        simp [he, hself, hb.lookup_eq hn, hparent, h.get?_eq_last?]
      · by_cases hc : h.kind.broader outer = true
        · simp [he, hc]
        · simpa [he, hc] using ih

theorem Linked.lookup_eq_inEffect? {b : Builder} (hb : b.Linked) {id : Nat} {h : Header}
    (hid : b.document.headers[id]? = some h) (hkind : h.kind = .region) (name : String) :
    b.document.lookup name id = b.document.inEffect? name id := by
  have hparent : h.parent.bind (b.document.lookup name) = b.document.passed? name .region id := by
    rw [(hb.headers id h hid).1, hkind]
    rfl
  rw [hb.lookup_eq hid, hparent, hb.passed?_eq .group (fun k => by cases k <;> rfl),
    hb.passed?_eq .master (fun k => by cases k <;> rfl),
    hb.passed?_eq .global (fun k => by cases k <;> rfl),
    Document.passed?_global, Option.or_none, h.get?_eq_last?, Document.inEffect?, hid]
  rfl

end Builder

namespace Document

def rangeReport? (d : Document) (id : Nat) (ends : String × String) : Option Finding := do
  let h ← d.headers[id]?
  if h.kind = .region then
    (d.rangeProblem? id ends.1 ends.2).map (⟨·, h.position, none⟩)
  else none

def Inverts (d : Document) (id : Nat) (ends : String × String) (f : Finding) : Prop :=
  ∃ place lo hi l u, d.headers[id]?.map Header.head = some (.region, place) ∧
    d.inEffect? ends.1 id = some lo ∧ d.inEffect? ends.2 id = some hi ∧
    Note.key? lo.value.toList = some l ∧ Note.key? hi.value.toList = some u ∧ 0 ≤ u ∧ u < l ∧
    f = ⟨.invertedRange ends.1 lo.value ends.2 hi.value, place, none⟩

theorem checkRanges_eq (d : Document) :
    d.checkRanges = (List.range d.headers.size).flatMap (fun id =>
      [("lokey", "hikey"), ("lovel", "hivel")].filterMap (d.rangeReport? id)) := by
  have hrange : List.range d.headers.size = d.headers.toList.zipIdx.map Prod.snd := by
    rw [List.zipIdx_map_snd, Array.length_toList, List.range_eq_range']
  rw [hrange, List.flatMap_map]
  apply List.flatMap_congr
  intro x hx
  have hx : d.headers[x.2]? = some x.1 := by
    rw [← Array.getElem?_toList]
    exact List.mem_zipIdx_iff_getElem?.mp hx
  split
  next hkind =>
    apply List.filterMap_congr
    intro ends _
    simp [rangeReport?, hx, hkind]
  next hkind =>
    symm
    rw [List.filterMap_eq_nil_iff]
    intro ends _
    simp [rangeReport?, hx, hkind]

theorem rangeProblem?_eq_some_iff {d : Document} {id : Nat} {low high : String} {p : Problem} :
    d.rangeProblem? id low high = some p ↔ ∃ lo hi l u, d.lookup low id = some lo ∧
      d.lookup high id = some hi ∧ Note.key? lo.value.toList = some l ∧
      Note.key? hi.value.toList = some u ∧ 0 ≤ u ∧ u < l ∧ p = .invertedRange low lo.value high hi.value := by
  simp only [rangeProblem?, Option.bind_eq_bind, Option.bind_eq_some_iff, Option.ite_none_right_eq_some]
  constructor
  · rintro ⟨lo, hlo, hi, hhi, l, hl, u, hu, ⟨hpos, hlt⟩, hp⟩
    exact ⟨lo, hi, l, u, hlo, hhi, hl, hu, hpos, hlt, (Option.some.inj hp).symm⟩
  · rintro ⟨lo, hi, l, u, hlo, hhi, hl, hu, hpos, hlt, rfl⟩
    exact ⟨lo, hlo, hi, hhi, l, hl, u, hu, ⟨hpos, hlt⟩, rfl⟩

def PassesOn (d : Document) (j id : Nat) : Prop :=
  j < id ∧ ∃ g, d.headers[j]? = some g ∧ g.kind ∈ [.group, .master, .global] ∧
    ∀ m f, j < m → m < id → d.headers[m]? = some f → f.kind.closes g.kind = false

def SameHeads (d d' : Document) : Prop :=
  ∀ j : Nat, d.headers[j]?.map Header.head = d'.headers[j]?.map Header.head

theorem SameHeads.kindIs {d d' : Document} (h : d.SameHeads d') (p : HeaderKind → Bool) :
    d.kindIs p = d'.kindIs p := by
  funext j
  have hj := congrArg (Option.any (fun x : HeaderKind × Position => p x.1)) (h j)
  rw [Option.any_map, Option.any_map] at hj
  exact hj

theorem SameHeads.outside {d d' : Document} (h : d.SameHeads d') {j : Nat} (hj : d.headers[j]? = none) :
    d'.headers[j]? = none := by
  simpa [hj] using (h j).symm

theorem SameHeads.exists_header {d d' : Document} (h : d.SameHeads d') {j : Nat} {g : Header}
    (hj : d.headers[j]? = some g) :
    ∃ g', d'.headers[j]? = some g' ∧ g'.kind = g.kind ∧ g'.position = g.position := by
  have hmap := h j
  rw [hj] at hmap
  obtain ⟨g', hg', he⟩ := Option.map_eq_some_iff.mp hmap.symm
  exact ⟨g', hg', congrArg Prod.fst he, congrArg Prod.snd he⟩

def AgreeFor (d d' : Document) (id : Nat) : Prop :=
  ∀ j h h', d.headers[j]? = some h → d'.headers[j]? = some h' →
    h.settings = h'.settings ∨ j ≠ id ∧ ¬ d.PassesOn j id

theorem passesOn_of_lastBelow {d : Document} {kind : HeaderKind} (hk : kind ∈ [.group, .master, .global])
    {j id : Nat} {g : Header} (hlast : lastBelow (d.kindIs (·.closes kind)) id = some j)
    (hj : d.headers[j]? = some g) (hg : g.kind = kind) : d.PassesOn j id := by
  have h := isLast_lastBelow (d.kindIs (·.closes kind)) id
  rw [hlast] at h
  obtain ⟨⟨hlt, -⟩, hmax⟩ := h
  refine ⟨hlt, g, hj, hg ▸ hk, ?_⟩
  intro m f hjm hmid hf
  rw [hg, Bool.eq_false_iff]
  intro hclose
  have hle := hmax ⟨hmid, kindIs_iff.mpr ⟨f, hf, hclose⟩⟩
  omega

section Agree

variable {d d' : Document} {id : Nat} (hheads : d.SameHeads d') (hagree : d.AgreeFor d' id)
include hheads hagree

theorem inForce?_agree {kind : HeaderKind} (hk : kind ∈ [.group, .master, .global]) (name : String) :
    (d'.inForce? kind id).bind (·.last? name) = (d.inForce? kind id).bind (·.last? name) := by
  unfold inForce?
  rw [hheads.kindIs]
  cases hlast : lastBelow (d'.kindIs (·.closes kind)) id with
  | none => rfl
  | some j =>
    rw [Option.bind_some, Option.bind_some]
    cases hj : d.headers[j]? with
    | none => rw [hheads.outside hj]
    | some g =>
      obtain ⟨g', hj', hkind, -⟩ := hheads.exists_header hj
      rw [hj', Option.filter_some, Option.filter_some, hkind]
      by_cases hg : g.kind = kind
      · have hpass := passesOn_of_lastBelow hk (by rw [hheads.kindIs]; exact hlast) hj hg
        have hset := (hagree j g g' hj hj').resolve_right (fun h => h.2 hpass)
        simp [hg, Header.last?, hset]
      · simp [hg]

theorem inEffect?_agree (name : String) : d'.inEffect? name id = d.inEffect? name id := by
  have hown : d'.headers[id]?.bind (·.last? name) = d.headers[id]?.bind (·.last? name) := by
    cases hid : d.headers[id]? with
    | none => rw [hheads.outside hid]
    | some g =>
      obtain ⟨g', hid', -, -⟩ := hheads.exists_header hid
      have hset := (hagree id g g' hid hid').resolve_right (fun h => h.1 rfl)
      simp [hid', Header.last?, hset]
  unfold inEffect?
  rw [hown, inForce?_agree hheads hagree (by simp), inForce?_agree hheads hagree (by simp),
    inForce?_agree hheads hagree (by simp)]

theorem inverts_agree (ends : String × String) (f : Finding) :
    d'.Inverts id ends f ↔ d.Inverts id ends f := by
  unfold Inverts
  rw [← hheads id, inEffect?_agree hheads hagree, inEffect?_agree hheads hagree]

end Agree

theorem not_passesOn {d : Document} {id j : Nat} {g : Header} (hj : d.headers[j]? = some g)
    (h : g.kind ∈ [.control, .curve, .effect, .midi] ∨ ∃ m f, j < m ∧ m < id ∧ d.headers[m]? = some f ∧
      f.kind ∈ [.master, .global] ∧ f.kind.closes g.kind = true) : ¬ d.PassesOn j id := by
  rintro ⟨-, g', hj', hkind, hopen⟩
  obtain rfl : g = g' := Option.some.inj (hj.symm.trans hj')
  rcases h with halone | ⟨m, f, hjm, hmid, hf, -, hclose⟩
  · simp only [List.mem_cons, List.not_mem_nil, or_false] at halone hkind
    rcases halone with hk | hk | hk | hk <;> simp [hk] at hkind
  · simp [hopen m f hjm hmid hf] at hclose

end Document

namespace Builder

theorem Linked.rangeReport?_eq_some_iff {b : Builder} (hb : b.Linked) (id : Nat) (ends : String × String)
    (f : Finding) : b.document.rangeReport? id ends = some f ↔ b.document.Inverts id ends f := by
  unfold Document.rangeReport? Document.Inverts
  cases hid : b.document.headers[id]? with
  | none => simp
  | some h =>
    by_cases hkind : h.kind = .region
    · simp only [Option.bind_eq_bind, Option.bind_some, Option.map_some, Header.head, hkind, if_true,
        Option.map_eq_some_iff, Document.rangeProblem?_eq_some_iff, hb.lookup_eq_inEffect? hid hkind,
        Option.some.injEq, Prod.mk.injEq, true_and]
      constructor
      · rintro ⟨p, ⟨lo, hi, l, u, hlo, hhi, hl, hu, hpos, hlt, rfl⟩, rfl⟩
        exact ⟨h.position, lo, hi, l, u, rfl, hlo, hhi, hl, hu, hpos, hlt, rfl⟩
      · rintro ⟨place, lo, hi, l, u, rfl, hlo, hhi, hl, hu, hpos, hlt, rfl⟩
        exact ⟨_, ⟨lo, hi, l, u, hlo, hhi, hl, hu, hpos, hlt, rfl⟩, rfl⟩
    · simp [hkind, Header.head]

theorem ranges_judged_in_effect (root : Path) (ops : List Operation) :
    let d := (build root ops).document
    d.checkRanges = (List.range d.headers.size).flatMap (fun id =>
      [("lokey", "hikey"), ("lovel", "hivel")].filterMap (d.rangeReport? id)) ∧
    (∀ id ends f, d.rangeReport? id ends = some f ↔ d.Inverts id ends f) ∧
    (∀ f ∈ d.checkRanges, f.severity = .warning) ∧
    (∀ ops' id, d.SameHeads (build root ops').document → d.AgreeFor (build root ops').document id →
      ∀ ends, (build root ops').document.rangeReport? id ends = d.rangeReport? id ends) ∧
    ∀ id j g, d.headers[j]? = some g →
      (g.kind ∈ [.control, .curve, .effect, .midi] ∨ ∃ m f, j < m ∧ m < id ∧ d.headers[m]? = some f ∧
        f.kind ∈ [.master, .global] ∧ f.kind.closes g.kind = true) → ¬ d.PassesOn j id := by
  intro d
  have hb := linked_build root ops
  refine ⟨d.checkRanges_eq, hb.rangeReport?_eq_some_iff, ?_, ?_, fun _ _ _ => Document.not_passesOn⟩
  · intro f hf
    rw [d.checkRanges_eq] at hf
    obtain ⟨id, -, hf⟩ := List.mem_flatMap.mp hf
    obtain ⟨ends, -, hf⟩ := List.mem_filterMap.mp hf
    obtain ⟨place, lo, hi, l, u, -, -, -, -, -, -, -, rfl⟩ := (hb.rangeReport?_eq_some_iff id ends f).mp hf
    rfl
  · intro ops' id hheads hagree ends
    ext f
    rw [(linked_build root ops').rangeReport?_eq_some_iff, hb.rangeReport?_eq_some_iff]
    exact Document.inverts_agree hheads hagree ends f

def crossed (closed : Setting) : List Operation :=
  [.openHeader .global ⟨⟨"a"⟩, 1, 1⟩, .assign ⟨"lokey", "c4", ⟨⟨"a"⟩, 1, 10⟩⟩, .openHeader .group ⟨⟨"a"⟩, 2, 1⟩,
    .assign closed, .openHeader .master ⟨⟨"a"⟩, 3, 1⟩, .openHeader .control ⟨⟨"a"⟩, 4, 1⟩,
    .openHeader .region ⟨⟨"a"⟩, 5, 1⟩, .assign ⟨"hikey", "50", ⟨⟨"a"⟩, 5, 10⟩⟩]

theorem ranges_judged_in_effect_crossed :
    (build ⟨"a"⟩ (crossed ⟨"pan", "0", ⟨⟨"a"⟩, 2, 9⟩⟩)).document.rangeReport? 4 ("lokey", "hikey") =
      some ⟨.invertedRange "lokey" "c4" "hikey" "50", ⟨⟨"a"⟩, 5, 1⟩, none⟩ ∧
    (build ⟨"a"⟩ (crossed ⟨"lokey", "0", ⟨⟨"a"⟩, 2, 9⟩⟩)).document.rangeReport? 4 ("lokey", "hikey") =
      some ⟨.invertedRange "lokey" "c4" "hikey" "50", ⟨⟨"a"⟩, 5, 1⟩, none⟩ := by
  obtain ⟨-, hreport, -, hsame, hclosed⟩ :=
    ranges_judged_in_effect ⟨"a"⟩ (crossed ⟨"pan", "0", ⟨⟨"a"⟩, 2, 9⟩⟩)
  have hfirst := (hreport 4 ("lokey", "hikey") _).mpr ⟨⟨⟨"a"⟩, 5, 1⟩, ⟨"lokey", "c4", ⟨⟨"a"⟩, 1, 10⟩⟩,
    ⟨"hikey", "50", ⟨⟨"a"⟩, 5, 10⟩⟩, 60, 50, rfl, rfl, rfl, by decide +kernel, by decide +kernel, by decide,
    by decide, rfl⟩
  refine ⟨hfirst, (hsame _ 4 ?_ ?_ _).trans hfirst⟩
  · intro j
    match j with
    | 0 | 1 | 2 | 3 | 4 => rfl
    | _ + 5 => rfl
  · intro j h h' hj hj'
    match j with
    | 0 | 2 | 3 | 4 =>
      obtain rfl := Option.some.inj hj
      obtain rfl := Option.some.inj hj'
      exact .inl rfl
    | 1 =>
      refine .inr ⟨by decide, hclosed 4 1 h hj (.inr ⟨2, _, by decide, by decide, rfl, ?_, ?_⟩)⟩
      · decide
      · obtain rfl := Option.some.inj hj
        decide
    | _ + 5 => exact absurd hj (Option.some_ne_none h).symm

end Builder

end Sfz
