import Mathlib.Logic.Function.Basic
import Sfz.Proofs.ScopeLinks

namespace Sfz

open Builder

structure Defaults where
  global : String → Option Setting := fun _ => none
  master : String → Option Setting := fun _ => none
  group : String → Option Setting := fun _ => none
  latest : Option HeaderKind := none

namespace Defaults

def enter (m : Defaults) : HeaderKind → Defaults
  | .global => { latest := some .global }
  | .master => { global := m.global, latest := some .master }
  | .group => { global := m.global, master := m.master, latest := some .group }
  | kind => { m with latest := some kind }

def assign (m : Defaults) (s : Setting) : Defaults :=
  match m.latest with
  | some .global => { m with global := Function.update m.global s.name (some s) }
  | some .master => { m with master := Function.update m.master s.name (some s) }
  | some .group => { m with group := Function.update m.group s.name (some s) }
  | _ => m

def step (m : Defaults) : Operation → Defaults
  | .openHeader kind _ => m.enter kind
  | .assign s => m.assign s
  | .define _ => m

def scan (ops : List Operation) : Defaults :=
  ops.foldl step {}

def inherited (m : Defaults) (name : String) : HeaderKind → Option Setting
  | .region => (m.group name).or ((m.master name).or (m.global name))
  | .group => (m.master name).or (m.global name)
  | .master => m.global name
  | _ => none

def Cleared (m : Defaults) : Prop :=
  (m.latest = some .global → ∀ name, m.master name = none ∧ m.group name = none) ∧
    (m.latest = some .master → ∀ name, m.group name = none)

theorem cleared_enter (m : Defaults) (kind : HeaderKind) : (m.enter kind).Cleared := by
  cases kind <;> simp [Cleared, enter]

theorem Cleared.assign {m : Defaults} (hm : m.Cleared) (s : Setting) : (m.assign s).Cleared := by
  unfold Defaults.assign
  split
  next => exact ⟨hm.1, hm.2⟩
  next h => exact ⟨fun h' => absurd (h.symm.trans h') (by simp), hm.2⟩
  next h => exact ⟨fun h' => absurd (h.symm.trans h') (by simp), fun h' => absurd (h.symm.trans h') (by simp)⟩
  next => exact hm

theorem inherited_enter (m : Defaults) (kind k : HeaderKind) (name : String) :
    (m.enter kind).inherited name k =
      if kind.broader k then m.inherited name kind else m.inherited name k := by
  cases kind <;> cases k <;> rfl

theorem inherited_assign {m : Defaults} (hm : m.Cleared) {kind : HeaderKind} (hk : m.latest = some kind)
    (s : Setting) (k : HeaderKind) (name : String) :
    (m.assign s).inherited name k =
      if kind.broader k ∧ name = s.name then some s else m.inherited name k := by
  have hglobal := hm.1
  have hmaster := hm.2
  rw [hk] at hglobal hmaster
  unfold assign
  rw [hk]
  by_cases hn : name = s.name
  · subst hn
    revert hglobal hmaster
    cases kind <;> cases k <;> simp +contextual [inherited, HeaderKind.broader, HeaderKind.breadth?]
  · cases kind <;> simp [hn] <;> cases k <;> simp [inherited, hn]

end Defaults

namespace Document

inductive Walk (d : Document) (name : String) : Option Nat → Option Setting → Prop
  | stop : Walk d name none none
  | outside {id : Nat} (hid : d.headers[id]? = none) : Walk d name (some id) none
  | found {id : Nat} {h : Header} {s : Setting} (hid : d.headers[id]? = some h)
      (hs : h.get? name = some s) : Walk d name (some id) (some s)
  | up {id : Nat} {h : Header} {r : Option Setting} (hid : d.headers[id]? = some h)
      (hs : h.get? name = none) (hr : Walk d name h.parent r) : Walk d name (some id) r

theorem Walk.unique {d : Document} {name : String} {at? : Option Nat} {r r' : Option Setting}
    (h : d.Walk name at? r) (h' : d.Walk name at? r') : r = r' := by
  induction h generalizing r' with
  | stop => cases h'; rfl
  | outside hid =>
    cases h' with
    | outside => rfl
    | found hid' => exact absurd (hid.symm.trans hid') nofun
    | up hid' => exact absurd (hid.symm.trans hid') nofun
  | found hid hs =>
    cases h' with
    | outside hid' => exact absurd (hid.symm.trans hid') nofun
    | found hid' hs' =>
      obtain rfl := Option.some.inj (hid.symm.trans hid')
      exact hs.symm.trans hs'
    | up hid' hs' =>
      obtain rfl := Option.some.inj (hid.symm.trans hid')
      exact absurd (hs.symm.trans hs') nofun
  | up hid hs hr ih =>
    cases h' with
    | outside hid' => exact absurd (hid.symm.trans hid') nofun
    | found hid' hs' =>
      obtain rfl := Option.some.inj (hid.symm.trans hid')
      exact absurd (hs.symm.trans hs') nofun
    | up hid' hs' hr' =>
      obtain rfl := Option.some.inj (hid.symm.trans hid')
      exact ih hr'

theorem lookup_outside {d : Document} {id : Nat} (hid : d.headers[id]? = none) (name : String) :
    d.lookup name id = none := by
  rw [lookup, hid]

theorem lookup_eq {d : Document} {id : Nat} {h : Header} (hid : d.headers[id]? = some h)
    (hp : ∀ p, h.parent = some p → p < id) (name : String) :
    d.lookup name id = (h.get? name).or (h.parent.bind (d.lookup name)) := by
  rw [lookup, hid]
  dsimp only
  cases h.get? name with
  | some s => rfl
  | none =>
    cases hparent : h.parent with
    | none => rfl
    | some p =>
      dsimp only
      rw [if_pos (hp p hparent)]
      rfl

theorem lookup_congr {d d' : Document} {id : Nat} (h : ∀ j ≤ id, d.headers[j]? = d'.headers[j]?)
    (name : String) : d.lookup name id = d'.lookup name id := by
  induction id using Nat.strong_induction_on with
  | h id ih =>
    have hstep : ∀ p < id, d.lookup name p = d'.lookup name p :=
      fun p hp => ih p hp (fun j hj => h j (hj.trans hp.le))
    rw [lookup, lookup.eq_def d', h id le_rfl]
    cases d'.headers[id]? with
    | none => rfl
    | some g =>
      dsimp only
      cases g.get? name with
      | some s => rfl
      | none =>
        cases g.parent with
        | none => rfl
        | some p =>
          dsimp only
          split
          next hp => exact hstep p hp
          next => rfl

end Document

namespace Header

theorem get?_push (h : Header) (s : Setting) (name : String) :
    ({ h with settings := h.settings.push s } : Header).get? name =
      if name = s.name then some s else h.get? name := by
  unfold get?
  by_cases hn : s.name = name
  · simp [hn]
  · simp [hn, Ne.symm hn]

end Header

namespace Builder

theorem Linked.parent_lt {b : Builder} (hb : b.Linked) {id : Nat} {h : Header}
    (hid : b.document.headers[id]? = some h) {p : Nat} (hp : h.parent = some p) : p < id :=
  (hb.precedes ⟨h, hid, hp⟩).1

theorem Linked.lookup_eq {b : Builder} (hb : b.Linked) {id : Nat} {h : Header}
    (hid : b.document.headers[id]? = some h) (name : String) :
    b.document.lookup name id = (h.get? name).or (h.parent.bind (b.document.lookup name)) :=
  Document.lookup_eq hid (fun _ => hb.parent_lt hid) name

theorem Linked.scope_lt {b : Builder} (hb : b.Linked) {k : HeaderKind} {p : Nat}
    (hp : b.scope.parent k = some p) : p < b.document.headers.size := by
  have hlast := isLast_lastBelow (b.document.kindIs (·.broader k)) b.document.headers.size
  rw [← hb.parent k, hp] at hlast
  exact hlast.1.1

theorem Linked.walk {b : Builder} (hb : b.Linked) (name : String) (id : Nat) :
    b.document.Walk name (some id) (b.document.lookup name id) := by
  induction id using Nat.strong_induction_on with
  | h id ih =>
    cases hid : b.document.headers[id]? with
    | none =>
      rw [Document.lookup_outside hid]
      exact .outside hid
    | some h =>
      rw [hb.lookup_eq hid]
      cases hs : h.get? name with
      | some s => exact .found hid hs
      | none =>
        apply Document.Walk.up hid hs
        cases hp : h.parent with
        | none => exact .stop
        | some p => exact ih p (hb.parent_lt hid hp)

theorem lookup_openHeader (b : Builder) (kind : HeaderKind) (position : Position) (name : String) {id : Nat}
    (hid : id < b.document.headers.size) :
    (b.openHeader kind position).document.lookup name id = b.document.lookup name id := by
  apply Document.lookup_congr
  intro j hj
  have hlt : j < b.document.headers.size := by omega
  rw [headers_openHeader, Array.getElem?_push_lt hlt, Array.getElem?_eq_getElem hlt]

theorem lookup_assign (b : Builder) (s : Setting) (name : String) {id : Nat}
    (hid : id + 1 < b.document.headers.size) :
    (b.assign s).document.lookup name id = b.document.lookup name id := by
  apply Document.lookup_congr
  intro j hj
  rw [headers_assign, if_neg (by omega)]

theorem lookup_define (b : Builder) (m : Definition) (name : String) :
    (b.define m).document.lookup name = b.document.lookup name := by
  funext id
  apply Document.lookup_congr
  intro j _
  rfl

section Lookup

variable {b : Builder} (hb : b.Linked) (name : String)
include hb

theorem lookup_openHeader_self (kind : HeaderKind) (position : Position) :
    (b.openHeader kind position).document.lookup name b.document.headers.size =
      (b.scope.parent kind).bind (b.document.lookup name) := by
  have hid : (b.openHeader kind position).document.headers[b.document.headers.size]? = some ⟨kind, position,
      #[], b.scope.parent kind, (b.scope.enter b.document.headers.size kind).control⟩ := by
    rw [headers_openHeader, Array.getElem?_push_size]
  rw [(hb.openHeader kind position).lookup_eq hid]
  apply Option.bind_congr
  intro p hp
  exact lookup_openHeader b kind position name (hb.scope_lt hp)

theorem lookup_assign_self (s : Setting) {id : Nat} (hid : id + 1 = b.document.headers.size) :
    (b.assign s).document.lookup name id =
      if name = s.name then some s else b.document.lookup name id := by
  have hlt : id < b.document.headers.size := by omega
  have hold := Array.getElem?_eq_getElem hlt
  have hnew := headers_assign b s id
  rw [if_pos hid, hold] at hnew
  rw [(hb.assign s).lookup_eq hnew, hb.lookup_eq hold, Header.get?_push]
  by_cases hn : name = s.name
  · rw [if_pos hn, if_pos hn]
    rfl
  · rw [if_neg hn, if_neg hn]
    congr 1
    apply Option.bind_congr
    intro p hp
    have hpid := hb.parent_lt hold hp
    exact lookup_assign b s name (by omega)

end Lookup

structure Tracks (b : Builder) (m : Defaults) : Prop where
  linked : b.Linked
  cleared : m.Cleared
  latest : m.latest = b.document.headers.back?.map Header.kind
  inherited : ∀ name k, m.inherited name k = (b.scope.parent k).bind (b.document.lookup name)

theorem tracks_empty (root : Path) : (empty root).Tracks {} where
  linked := linked_empty root
  cleared := by simp [Defaults.Cleared]
  latest := rfl
  inherited name k := by cases k <;> rfl

theorem Tracks.openHeader {b : Builder} {m : Defaults} (h : b.Tracks m) (kind : HeaderKind)
    (position : Position) : (b.openHeader kind position).Tracks (m.enter kind) := by
  refine ⟨h.linked.openHeader kind position, m.cleared_enter kind, ?_, ?_⟩
  · rw [headers_openHeader, Array.back?_push]
    cases kind <;> rfl
  · intro name k
    have hscope : (b.openHeader kind position).scope = b.scope.enter b.document.headers.size kind := rfl
    rw [hscope, Scope.parent_enter, Defaults.inherited_enter]
    by_cases hk : kind.broader k = true
    · rw [if_pos hk, if_pos hk, h.inherited]
      exact (lookup_openHeader_self h.linked name kind position).symm
    · rw [if_neg hk, if_neg hk, h.inherited]
      apply Option.bind_congr
      intro p hp
      exact (lookup_openHeader b kind position name (h.linked.scope_lt hp)).symm

theorem Linked.parent_of_open {b : Builder} (hb : b.Linked) {id : Nat} {h : Header}
    (hid : id + 1 = b.document.headers.size) (hh : b.document.headers[id]? = some h) (k : HeaderKind) :
    b.scope.parent k =
      if h.kind.broader k then some id else lastBelow (b.document.kindIs (·.broader k)) id := by
  rw [hb.parent k, ← hid, lastBelow, Document.kindIs, hh]
  rfl

theorem Tracks.assign {b : Builder} {m : Defaults} (h : b.Tracks m) (s : Setting) :
    (b.assign s).Tracks (m.assign s) := by
  have hlatest : (m.assign s).latest = m.latest := by
    unfold Defaults.assign
    split <;> rfl
  have hback : (b.assign s).document.headers.back?.map Header.kind =
      b.document.headers.back?.map Header.kind := by
    rw [Array.back?_eq_getElem?, Array.back?_eq_getElem?, size_assign, headers_assign]
    split
    · rw [Option.map_map]
      rfl
    · rfl
  refine ⟨h.linked.assign s, h.cleared.assign s, ?_, ?_⟩
  · rw [hlatest, hback, h.latest]
  · intro name k
    have hscope : (b.assign s).scope = b.scope := rfl
    rw [hscope]
    rcases Nat.eq_zero_or_pos b.document.headers.size with hsize | hsize
    · -- no header is open, and nothing changes
      have hnone : m.latest = none := by
        rw [h.latest, Array.back?_eq_getElem?, Array.getElem?_eq_none (by omega)]
        rfl
      have hm : m.assign s = m := by
        unfold Defaults.assign
        rw [hnone]
      rw [hm, h.inherited]
      apply Option.bind_congr
      intro p hp
      exact absurd (h.linked.scope_lt hp) (by omega)
    · obtain ⟨id, hid⟩ : ∃ id, id + 1 = b.document.headers.size := ⟨_, Nat.sub_add_cancel hsize⟩
      have hlast := Array.getElem?_eq_getElem (show id < b.document.headers.size by omega)
      have hkind : m.latest = some b.document.headers[id].kind := by
        have hback : b.document.headers.size - 1 = id := by omega
        rw [h.latest, Array.back?_eq_getElem?, hback, hlast]
        rfl
      rw [Defaults.inherited_assign h.cleared hkind, h.inherited, h.linked.parent_of_open hid hlast]
      by_cases hk : b.document.headers[id].kind.broader k = true
      · rw [if_pos hk, Option.bind_some, Option.bind_some, lookup_assign_self h.linked name s hid]
        simp [hk]
      · rw [if_neg hk, if_neg (fun hc => hk hc.1)]
        apply Option.bind_congr
        intro p hp
        have hlast := isLast_lastBelow (b.document.kindIs (·.broader k)) id
        rw [hp] at hlast
        have hpid : p < id := hlast.1.1
        exact (lookup_assign b s name (by omega)).symm

theorem tracks_build (root : Path) (ops : List Operation) : (build root ops).Tracks (Defaults.scan ops) := by
  induction ops using List.reverseRecOn with
  | nil => exact tracks_empty root
  | append_singleton ops op ih =>
    have hscan : Defaults.scan (ops ++ [op]) = (Defaults.scan ops).step op := by simp [Defaults.scan]
    rw [build_concat, hscan]
    cases op with
    | openHeader kind position => exact ih.openHeader kind position
    | assign s => exact ih.assign s
    | define m =>
      refine ⟨ih.linked.apply (.define m), ih.cleared, ih.latest, ?_⟩
      intro name k
      rw [Builder.apply, lookup_define]
      exact ih.inherited name k

def Operation.isOpening : Operation → Bool
  | .openHeader .. => true
  | _ => false

def own : List Operation → List Setting
  | [] => []
  | .openHeader .. :: _ => []
  | .assign s :: ops => s :: own ops
  | .define _ :: ops => own ops

theorem own_append_nil (ops : List Operation) {later : List Operation} (h : own later = []) :
    own (ops ++ later) = own ops := by
  induction ops with
  | nil => exact h
  | cons op ops ih =>
    cases op with
    | openHeader kind position => rfl
    | assign s => exact congrArg (s :: ·) ih
    | define m => exact ih

theorem own_append_of_opening {ops : List Operation} (h : 0 < ops.countP Operation.isOpening)
    (later : List Operation) : own (ops ++ later) = own ops := by
  induction ops with
  | nil => simp at h
  | cons op ops ih =>
    cases op with
    | openHeader kind position => rfl
    | assign s => exact congrArg (s :: ·) (ih (by simpa [Operation.isOpening] using h))
    | define m => exact ih (by simpa [Operation.isOpening] using h)

theorem own_append {ops : List Operation} (h : ops.countP Operation.isOpening = 0)
    (later : List Operation) : own (ops ++ later) = own ops ++ own later := by
  induction ops with
  | nil => rfl
  | cons op ops ih =>
    cases op with
    | openHeader kind position => simp [Operation.isOpening] at h
    | assign s => exact congrArg (s :: ·) (ih (by simpa [Operation.isOpening] using h))
    | define m => exact ih (by simpa [Operation.isOpening] using h)

theorem size_build (root : Path) (ops : List Operation) :
    (build root ops).document.headers.size = ops.countP Operation.isOpening := by
  induction ops using List.reverseRecOn with
  | nil => rfl
  | append_singleton ops op ih =>
    rw [build_concat, List.countP_append, ← ih]
    cases op with
    | openHeader kind position => exact Array.size_push ..
    | assign s => exact size_assign _ s
    | define m => rfl

theorem exists_opening (root : Path) (ops : List Operation) {id : Nat} {h : Header}
    (hid : (build root ops).document.headers[id]? = some h) : ∃ before after,
      ops = before ++ .openHeader h.kind h.position :: after ∧
      before.countP Operation.isOpening = id ∧ h.settings.toList = own after := by
  induction ops using List.reverseRecOn generalizing h with
  | nil => simp [build, empty] at hid
  | append_singleton ops op ih =>
    have hsize := size_build root ops
    rw [build_concat] at hid
    cases op with
    | openHeader kind position =>
      rw [Builder.apply, headers_openHeader, Array.getElem?_push] at hid
      by_cases hlast : id = (build root ops).document.headers.size
      · rw [if_pos hlast] at hid
        obtain rfl := Option.some.inj hid
        exact ⟨ops, [], rfl, by omega, rfl⟩
      · rw [if_neg hlast] at hid
        obtain ⟨before, after, rfl, hbefore, hown⟩ := ih hid
        exact ⟨before, after ++ [.openHeader kind position], by simp, hbefore,
          by rw [own_append_nil after rfl, hown]⟩
    | assign s =>
      rw [Builder.apply, headers_assign] at hid
      by_cases hlast : id + 1 = (build root ops).document.headers.size
      · rw [if_pos hlast] at hid
        obtain ⟨g, hg, rfl⟩ := Option.map_eq_some_iff.mp hid
        obtain ⟨before, after, rfl, hbefore, hown⟩ := ih hg
        have hz : after.countP Operation.isOpening = 0 := by
          simp only [List.countP_append, List.countP_cons, Operation.isOpening, if_true] at hsize
          omega
        refine ⟨before, after ++ [.assign s], by simp, hbefore, ?_⟩
        rw [own_append hz, Array.toList_push, hown]
        rfl
      · rw [if_neg hlast] at hid
        obtain ⟨before, after, rfl, hbefore, hown⟩ := ih hid
        have hlt : id < (build root (before ++ .openHeader h.kind h.position :: after)).document.headers.size :=
          (Array.getElem?_eq_some_iff.mp hid).1
        have hpos : 0 < after.countP Operation.isOpening := by
          simp only [List.countP_append, List.countP_cons, Operation.isOpening, if_true] at hsize
          omega
        exact ⟨before, after ++ [.assign s], by simp, hbefore, by rw [own_append_of_opening hpos, hown]⟩
    | define m =>
      obtain ⟨before, after, rfl, hbefore, hown⟩ := ih hid
      exact ⟨before, after ++ [.define m], by simp, hbefore, by rw [own_append_nil after rfl, hown]⟩

theorem headers_later {b : Builder} {j : Nat} (hj : j < b.document.headers.size) {later : List Operation}
    (h : j + 1 = b.document.headers.size → own later = []) :
    (later.foldl Builder.apply b).document.headers[j]? = b.document.headers[j]? := by
  induction later generalizing b with
  | nil => rfl
  | cons op later ih =>
    rw [List.foldl_cons]
    cases op with
    | openHeader kind position =>
      have hsize : (b.openHeader kind position).document.headers.size = b.document.headers.size + 1 :=
        Array.size_push ..
      rw [Builder.apply, ih (by omega) (fun hlast => absurd hlast (by omega)), headers_openHeader,
        Array.getElem?_push_lt hj, Array.getElem?_eq_getElem hj]
    | assign s =>
      have hne : j + 1 ≠ b.document.headers.size := fun hlast => by simpa [own] using h hlast
      have hsize := size_assign b s
      rw [Builder.apply, ih (by omega) (fun hlast => absurd hlast (by omega)), headers_assign, if_neg hne]
    | define m => exact ih hj h

/-- Later operations add to the latest header only, so a header that has been left stays as it is. -/
theorem lookup_later (root : Path) (ops : List Operation) {id : Nat}
    (hid : id < (build root ops).document.headers.size) {later : List Operation}
    (h : id + 1 = (build root ops).document.headers.size → own later = []) (name : String) :
    (build root (ops ++ later)).document.lookup name id = (build root ops).document.lookup name id := by
  have hbuild : build root (ops ++ later) = later.foldl Builder.apply (build root ops) :=
    List.foldl_append ..
  rw [hbuild]
  apply Document.lookup_congr
  intro j hj
  apply headers_later (by omega)
  intro hlast
  exact h (by omega)

theorem lookup_eq_inherited {root : Path} {ops before after : List Operation} {id : Nat} {h : Header}
    (hid : (build root ops).document.headers[id]? = some h)
    (hops : ops = before ++ .openHeader h.kind h.position :: after)
    (hbefore : before.countP Operation.isOpening = id) (name : String) :
    (build root ops).document.lookup name id =
      (h.get? name).or ((Defaults.scan before).inherited name h.kind) := by
  have hb := linked_build root ops
  have hb' := linked_build root before
  have hsize : (build root before).document.headers.size = id := (size_build root before).trans hbefore
  -- the headers before this one are as they were when it was opened
  have hsame : ∀ j < id,
      (build root ops).document.headers[j]? = (build root before).document.headers[j]? := by
    intro j hj
    rw [hops, build, List.foldl_append]
    exact headers_later (by rw [← build]; omega) (fun _ => rfl)
  have hparent : h.parent = (build root before).scope.parent h.kind := by
    rw [(hb.headers id h hid).1, hb'.parent, hsize]
    apply lastBelow_congr
    intro j hj
    rw [Document.kindIs, Document.kindIs, hsame j hj]
  rw [hb.lookup_eq hid, (tracks_build root before).inherited, hparent]
  congr 1
  apply Option.bind_congr
  intro p hp
  have hpid := hb'.scope_lt hp
  apply Document.lookup_congr
  intro j hj
  exact hsame j (by omega)

theorem lookup_eq_defaults (root : Path) (ops : List Operation) :
    let d := (build root ops).document
    (∀ id h, d.headers[id]? = some h → ∃ before after,
      -- the header is opened after `before`, and its own settings are those up to the next header
      ops = before ++ .openHeader h.kind h.position :: after ∧
      before.countP Operation.isOpening = id ∧ h.settings.toList = own after ∧
      (∀ name, d.lookup name id = (h.get? name).or ((Defaults.scan before).inherited name h.kind)) ∧
      ∀ later, (id + 1 = d.headers.size → own later = []) →
        ∀ name, (build root (ops ++ later)).document.lookup name id = d.lookup name id) ∧
    (∀ id name, d.headers.size ≤ id → d.lookup name id = none) ∧
    ∀ id name r, d.Walk name (some id) r ↔ r = d.lookup name id := by
  intro d
  have hb := linked_build root ops
  refine ⟨?_, ?_, ?_⟩
  · intro id h hid
    obtain ⟨before, after, hops, hbefore, hown⟩ := exists_opening root ops hid
    have hlt : id < d.headers.size := (Array.getElem?_eq_some_iff.mp hid).1
    exact ⟨before, after, hops, hbefore, hown, lookup_eq_inherited hid hops hbefore,
      fun _ hlater => lookup_later root ops hlt hlater⟩
  · intro id name hid
    exact Document.lookup_outside (Array.getElem?_eq_none hid) name
  · intro id name r
    constructor
    · intro hr
      exact hr.unique (hb.walk name id)
    · rintro rfl
      exact hb.walk name id

def keyed : List Operation :=
  [.openHeader .global ⟨⟨"a"⟩, 1, 1⟩, .assign ⟨"lokey", "10", ⟨⟨"a"⟩, 1, 10⟩⟩,
    .assign ⟨"hikey", "20", ⟨⟨"a"⟩, 1, 19⟩⟩, .openHeader .group ⟨⟨"a"⟩, 2, 1⟩,
    .assign ⟨"hikey", "30", ⟨⟨"a"⟩, 2, 9⟩⟩, .openHeader .control ⟨⟨"a"⟩, 3, 1⟩,
    .assign ⟨"hikey", "40", ⟨⟨"a"⟩, 3, 11⟩⟩, .openHeader .region ⟨⟨"a"⟩, 4, 1⟩, .define ⟨"x", "1", ⟨⟨"a"⟩, 5, 1⟩⟩,
    .assign ⟨"pan", "0", ⟨⟨"a"⟩, 6, 1⟩⟩, .openHeader .group ⟨⟨"a"⟩, 7, 1⟩]

theorem lookup_keyed : (∃ before after, keyed = before ++ .openHeader .region ⟨⟨"a"⟩, 4, 1⟩ :: after ∧
      before.countP Operation.isOpening = 3 ∧ own after = [⟨"pan", "0", ⟨⟨"a"⟩, 6, 1⟩⟩]) ∧
    ∀ later, (build ⟨"a"⟩ (keyed ++ later)).document.lookup "hikey" 3 =
      some ⟨"hikey", "30", ⟨⟨"a"⟩, 2, 9⟩⟩ := by
  obtain ⟨hheaders, -, hwalk⟩ := lookup_eq_defaults ⟨"a"⟩ keyed
  obtain ⟨before, after, hops, hbefore, hown, -, hlater⟩ := hheaders 3 ⟨.region, ⟨⟨"a"⟩, 4, 1⟩,
    #[⟨"pan", "0", ⟨⟨"a"⟩, 6, 1⟩⟩], some 1, some 2⟩ rfl
  refine ⟨⟨before, after, hops, hbefore, hown.symm⟩, ?_⟩
  intro later
  rw [hlater later (fun hlast => absurd hlast (by decide))]
  exact ((hwalk 3 "hikey" _).mp (.up rfl rfl (.found rfl rfl))).symm

end Builder

end Sfz
