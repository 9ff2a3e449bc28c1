import Mathlib.Data.List.Nodup
import Sfz.Proofs.KeptListings

namespace Sfz

inductive FileObject.Reordered : FileObject → FileObject → Prop
  | file (text : Option String) : Reordered (.file text) (.file text)
  | link (target : Path) : Reordered (.link target) (.link target)
  | directory (parent : Location) {entries entries' : List (String × Location)}
      (h : entries.Perm entries') : Reordered (.directory ⟨parent, entries⟩) (.directory ⟨parent, entries'⟩)

namespace FileTree

structure Reordered (t t' : FileTree) : Prop where
  working : t.working = t'.working
  objects : ∀ l, Option.Rel FileObject.Reordered (t.object? l) (t'.object? l)

namespace Reordered

variable {t t' : FileTree} (h : t.Reordered t')

include h

theorem directory? (l : Location) :
    Option.Rel (fun d d' => d.parent = d'.parent ∧ d.entries.Perm d'.entries) (t.directory? l)
      (t'.directory? l) := by
  have ho := h.objects l
  unfold FileTree.directory?
  generalize t.object? l = o, t'.object? l = o' at ho
  cases ho with
  | none => exact .none
  | some ho =>
    cases ho with
    | file text => exact .none
    | link target => exact .none
    | directory parent hp => exact .some ⟨rfl, hp⟩

theorem leadsAlike : LeadsAlike t t' where
  no_directory := by
    intro l hd
    have hr := h.directory? l
    rw [hd] at hr
    generalize t'.directory? l = o at hr
    cases hr with
    | none => rfl
  directory := by
    intro l d hd
    have hr := h.directory? l
    rw [hd] at hr
    cases hd' : t'.directory? l with
    | none => simp [hd'] at hr
    | some d' =>
      obtain ⟨hp, he⟩ : d.parent = d'.parent ∧ d.entries.Perm d'.entries := by simpa [hd'] using hr
      refine ⟨d'.entries, by rw [hp], fun name => Option.ext fun k => ?_⟩
      rw [lookup_eq_some_iff_mem (nodup_names hd), lookup_eq_some_iff_mem (nodup_names hd'), he.mem_iff]
  link := by
    intro l target
    have ho := h.objects l
    generalize t.object? l = o, t'.object? l = o' at ho
    cases ho with
    | none => simp
    | some ho => cases ho <;> simp

theorem list? (p : Path) : Option.Rel List.Perm (t.list? p) (t'.list? p) := by
  unfold FileTree.list? FileTree.listComponents?
  simp only [h.leadsAlike.walk_eq, ← h.working]
  split
  next => exact .none
  next =>
    split
    next => exact .none
    next =>
      split
      next l _ =>
        have hr := h.directory? l
        generalize t.directory? l = o, t'.directory? l = o' at hr
        cases hr with
        | none => exact .none
        | some hr => exact .some (hr.2.map _)
      next => exact .none

end Reordered

def CaseDistinct (t : FileTree) : Prop :=
  ∀ names, t.Lists names → (names.map Text.lowercase).Nodup

end FileTree

namespace Sample

open Text

theorem mem_of_resolvePart? {names : List String} {part name : String}
    (h : resolvePart? names part = some name) : name ∈ names ∧ lowercase name = lowercase part := by
  unfold resolvePart? at h
  split at h
  next hm =>
    obtain rfl := Option.some.inj h
    exact ⟨by simpa using hm, rfl⟩
  next => exact ⟨List.mem_of_find?_eq_some h, by simpa using List.find?_some h⟩

theorem resolvePart?_isSome {names : List String} {part name : String} (hn : name ∈ names)
    (he : lowercase name = lowercase part) : (resolvePart? names part).isSome = true := by
  unfold resolvePart?
  split
  · rfl
  · rw [List.find?_isSome]
    exact ⟨name, hn, by simpa using he⟩

theorem resolvePart?_eq_some_iff {names : List String} (hd : (names.map lowercase).Nodup)
    (part name : String) :
    resolvePart? names part = some name ↔ name ∈ names ∧ lowercase name = lowercase part := by
  refine ⟨mem_of_resolvePart?, ?_⟩
  rintro ⟨hn, he⟩
  obtain ⟨other, ho⟩ := Option.isSome_iff_exists.mp (resolvePart?_isSome hn he)
  obtain ⟨hm, hl⟩ := mem_of_resolvePart? ho
  rw [ho, List.inj_on_of_nodup_map hd hm hn (hl.trans he.symm)]

theorem resolvePart?_perm {names names' : List String} (hp : names.Perm names')
    (hd : (names.map lowercase).Nodup) (part : String) :
    resolvePart? names' part = resolvePart? names part := by
  apply Option.ext
  intro name
  rw [resolvePart?_eq_some_iff hd, resolvePart?_eq_some_iff ((hp.map lowercase).nodup_iff.mp hd),
    hp.mem_iff]

def Listings.Reordered (c c' : Listings) : Prop :=
  ∀ k : List Path.Component, Option.Rel (Option.Rel List.Perm) c.known[k]? c'.known[k]?

theorem Listings.reordered_empty : empty.Reordered empty := by
  intro k
  simp only [empty, Std.HashMap.getElem?_empty]
  exact .none

section

open Listings

variable {t t' : FileTree} {c c' : Listings} (h : t.Reordered t')

include h

theorem Listings.Reordered.shown (hc : c.Reordered c') (dir : Path) :
    Option.Rel List.Perm (c.shown t dir) (c'.shown t' dir) := by
  have hk := hc dir.components
  unfold Listings.shown
  generalize c.known[dir.components]? = o, c'.known[dir.components]? = o' at hk
  cases hk with
  | none => exact h.list? dir
  | some hk => exact hk

theorem Listings.Reordered.list (hc : c.Reordered c') (dir : Path) :
    (c.list t dir).2.Reordered (c'.list t' dir).2 := by
  intro k
  rw [known_list, known_list]
  split
  · exact .some (hc.shown h dir)
  · exact hc k

variable (hd : t.CaseDistinct)

include hd

theorem entryFor?_reordered (hs : c.Sound t) (hc : c.Reordered c') (dir : Path) (part : String) :
    entryFor? (c'.shown t' dir) part = entryFor? (c.shown t dir) part := by
  have hr := hc.shown h dir
  cases hn : c.shown t dir with
  | none =>
    rw [hn] at hr
    generalize c'.shown t' dir = o at hr
    cases hr with
    | none => rfl
  | some names =>
    rw [hn] at hr
    generalize c'.shown t' dir = o at hr
    cases hr with
    | some hp => exact resolvePart?_perm hp (hd names (hs.lists hn)) part

theorem follow_reordered (hs : c.Sound t) (hc : c.Reordered c') (dir : Path) (ws : List String) :
    (follow t' c' dir ws).1 = (follow t c dir ws).1 ∧
      (follow t c dir ws).2.Reordered (follow t' c' dir ws).2 := by
  induction ws generalizing c c' dir with
  | nil => exact ⟨rfl, hc⟩
  | cons part rest ih =>
    by_cases hp : part = ".."
    · subst hp
      obtain ⟨hfst, hsnd⟩ := ih hs hc (dir.join ⟨".."⟩)
      rw [follow_up, follow_up, hfst]
      exact ⟨rfl, hsnd⟩
    · have he' := entryFor?_reordered h hd hs hc dir part
      cases he : entryFor? (c.shown t dir) part with
      | none =>
        rw [follow_stop hp rest he, follow_stop hp rest (he'.trans he)]
        exact ⟨rfl, hc.list h dir⟩
      | some actual =>
        obtain ⟨hfst, hsnd⟩ := ih (hs.list dir) (hc.list h dir) (dir.join ⟨actual⟩)
        rw [follow_enter hp rest he, follow_enter hp rest (he'.trans he), hfst]
        exact ⟨rfl, hsnd⟩

theorem check_reordered (hs : c.Sound t) (hc : c.Reordered c') (base : Path) (value : String) :
    (check t' c' base value).1 = (check t c base value).1 ∧
      (check t c base value).2.Reordered (check t' c' base value).2 := by
  cases hv : isGenerated value with
  | true =>
    rw [check_of_generated hv, check_of_generated hv]
    exact ⟨rfl, hc⟩
  | false =>
    obtain ⟨hfst, hsnd⟩ := follow_reordered h hd hs hc (startOf base value) (parts (normalize value))
    rw [check_eq hv, check_eq hv, hfst]
    dsimp only
    exact ⟨rfl, hsnd⟩

theorem Listings.reordered_after (history : List (Path × String)) :
    (after t history).Reordered (after t' history) := by
  induction history using List.reverseRecOn with
  | nil => exact reordered_empty
  | append_singleton history request ih =>
    rw [after_concat, after_concat]
    exact (check_reordered h hd (sound_after t history) ih _ _).2

end

end Sample

end Sfz
