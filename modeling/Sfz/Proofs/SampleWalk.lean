import Mathlib.Data.List.Forall2
import Sfz.Proofs.ReorderedTrees

/-!
Samples in a file tree. Main statement: a sample is found iff its parts are entries of the directories on
the way, letter for letter, as far as the paths of these directories can be followed; a mismatch names entries that
differ from the parts only in case; and where names of a directory differ in more than case, a sample is missing iff
no entries agree with its parts.
-/

namespace Sfz

namespace Text

theorem shift_beyond_backslash {r : CaseRun} (hr : r ∈ lowercaseRuns) : 92 < r.first + r.shift := by
  have h : lowercaseRuns.all (fun r => decide (92 < r.first + r.shift)) = true := by decide +kernel
  simpa using (Array.all_eq_true_iff_forall_mem.mp h) r hr

theorem ofNat_ne_backslash {n : Nat} (h : 92 < n) : Char.ofNat n ≠ '\\' := by
  intro he
  have hn : (Char.ofNat n).toNat = 92 := congrArg Char.toNat he
  by_cases hv : n.isValidChar
  · rw [Char.ofNat, dif_pos hv] at hn
    have hself : n = 92 := hn
    omega
  · rw [Char.ofNat, dif_neg hv] at hn
    exact absurd hn (by decide)

theorem mem_lowerChar_backslash (c : Char) : '\\' ∈ lowerChar c ↔ c = '\\' := by
  unfold lowerChar
  split
  next hc =>
    have h : ∀ n < 128, '\\' = (Char.ofNat n).toLower ↔ Char.ofNat n = '\\' := by decide
    simpa using h c.toNat hc
  next hc =>
    have hne : c ≠ '\\' := by
      rintro rfl
      exact hc (by decide)
    split
    next => simp [hne]
    next =>
      split
      next r hr =>
        have hf : r.first ≤ c.toNat := by
          have hholds := Array.find?_some hr
          simp only [CaseRun.holds, Bool.and_eq_true, decide_eq_true_eq] at hholds
          omega
        have hs := shift_beyond_backslash (Array.mem_of_find?_eq_some hr)
        simpa [hne] using (ofNat_ne_backslash (by omega)).symm
      next => simp [Ne.symm hne, hne]

theorem mem_lowerFrom_backslash (before cs : List Char) : '\\' ∈ lowerFrom before cs ↔ '\\' ∈ cs := by
  induction cs generalizing before with
  | nil => rfl
  | cons c cs ih =>
    rw [lowerFrom, List.mem_append, ih, List.mem_cons]
    refine or_congr ?_ Iff.rfl
    split
    next hc =>
      subst hc
      unfold lowerSigma
      split <;> decide
    next => rw [mem_lowerChar_backslash, eq_comm]

theorem mem_lowercase_backslash (s : String) : '\\' ∈ (lowercase s).toList ↔ '\\' ∈ s.toList := by
  rw [lowercase, String.toList_ofList, mem_lowerFrom_backslash]

end Text

namespace Sample

open Text Listings

structure SameName (name part : String) : Prop where
  up : name = ".." ↔ part = ".."
  lower : lowercase name = lowercase part

def Entered (t : FileTree) : Path → List String → Prop
  | _, [] => True
  | dir, n :: ns =>
    (n = ".." ∨ ∃ l d, t.locate dir = .ok l ∧ t.directory? l = some d ∧ n ∈ d.entries.map Prod.fst) ∧
      Entered t (dir.join ⟨n⟩) ns

def Listed (names? : Path → Option (List String)) : Path → List String → Prop
  | _, [] => True
  | dir, n :: ns =>
    (n = ".." ∨ ∃ names, names? dir = some names ∧ n ∈ names) ∧ Listed names? (dir.join ⟨n⟩) ns

theorem listed_iff_entered {t : FileTree} {dir : Path} {ns : List String} :
    Listed t.list? dir ns ↔ Entered t dir ns := by
  induction ns generalizing dir with
  | nil => exact Iff.rfl
  | cons n ns ih =>
    have hentry : (∃ names, t.list? dir = some names ∧ n ∈ names) ↔
        ∃ l d, t.locate dir = .ok l ∧ t.directory? l = some d ∧ n ∈ d.entries.map Prod.fst := by
      constructor
      · rintro ⟨names, hlist, hn⟩
        obtain ⟨l, d, hl, hd, rfl⟩ := FileTree.list?_eq_some.mp hlist
        exact ⟨l, d, hl, hd, hn⟩
      · rintro ⟨l, d, hl, hd, hn⟩
        exact ⟨_, FileTree.list?_eq_some.mpr ⟨l, d, hl, hd, rfl⟩, hn⟩
    rw [Listed, Entered, hentry, ih]

def route? (names? : Path → Option (List String)) : Path → List String → Option (List String)
  | _, [] => some []
  | dir, part :: rest =>
    if part = ".." then (route? names? (dir.join ⟨".."⟩) rest).map (".." :: ·)
    else (entryFor? (names? dir) part).bind
      (fun name => (route? names? (dir.join ⟨name⟩) rest).map (name :: ·))

section route

variable {names? names'? : Path → Option (List String)} {dir : Path} {part : String} {ns ws : List String}

theorem route?_up (names? : Path → Option (List String)) (dir : Path) (rest : List String) :
    route? names? dir (".." :: rest) = (route? names? (dir.join ⟨".."⟩) rest).map (".." :: ·) :=
  if_pos rfl

theorem route?_part (hp : part ≠ "..") (names? : Path → Option (List String)) (dir : Path)
    (rest : List String) : route? names? dir (part :: rest) = (entryFor? (names? dir) part).bind
      (fun name => (route? names? (dir.join ⟨name⟩) rest).map (name :: ·)) :=
  if_neg hp

def Named (names? : Path → Option (List String)) : Prop :=
  ∀ dir names, names? dir = some names → ∀ n ∈ names, isFileName n = true

theorem entryFor?_eq_some {shown : Option (List String)} {name : String}
    (h : entryFor? shown part = some name) :
    ∃ names, shown = some names ∧ name ∈ names ∧ lowercase name = lowercase part := by
  obtain ⟨names, rfl, hr⟩ := Option.bind_eq_some_iff.mp h
  exact ⟨names, rfl, mem_of_resolvePart? hr⟩

theorem entryFor?_eq_self_iff (shown : Option (List String)) (part : String) :
    entryFor? shown part = some part ↔ ∃ names, shown = some names ∧ part ∈ names := by
  constructor
  · intro h
    obtain ⟨names, hs, hm, -⟩ := entryFor?_eq_some h
    exact ⟨names, hs, hm⟩
  · rintro ⟨names, rfl, hm⟩
    simp [entryFor?, resolvePart?, hm]

theorem length_join_lt {name : String} (h : name = ".." ∨ isFileName name = true) (dir : Path) :
    dir.components.length < (dir.join ⟨name⟩).components.length := by
  have hname : '/' ∉ name.toList ∧ Path.isIdle name = false := by
    rcases h with rfl | h
    · decide
    · exact ⟨Path.not_mem_of_isFileName h, Path.isIdle_of_isFileName h⟩
  rw [Path.components_join hname.1 hname.2, List.length_append]
  exact Nat.lt_succ_self _

theorem route?_congr (hn : Named names?)
    (h : ∀ p : Path, dir.components.length ≤ p.components.length → names? p = names'? p) (ws : List String) :
    route? names? dir ws = route? names'? dir ws := by
  -- a joined name makes a path longer, so that no path is met twice
  induction ws generalizing dir with
  | nil => rfl
  | cons part rest ih =>
    by_cases hp : part = ".."
    · subst hp
      have hlt := length_join_lt (.inl (rfl : ".." = "..")) dir
      rw [route?_up, route?_up, ih (fun p hle => h p (by omega))]
    · rw [route?_part hp, route?_part hp, ← h dir le_rfl]
      cases he : entryFor? (names? dir) part with
      | none => rfl
      | some name =>
        obtain ⟨names, hs, hm, -⟩ := entryFor?_eq_some he
        have hlt := length_join_lt (.inr (hn dir names hs name hm)) dir
        rw [Option.bind_some, Option.bind_some, ih (fun p hle => h p (by omega))]

theorem route?_eq_self_iff (names? : Path → Option (List String)) (dir : Path) (ws : List String) :
    route? names? dir ws = some ws ↔ Listed names? dir ws := by
  induction ws generalizing dir with
  | nil => exact iff_of_true rfl trivial
  | cons part rest ih =>
    rw [Listed, ← ih]
    by_cases hp : part = ".."
    · subst hp
      simp [route?_up]
    · rw [← entryFor?_eq_self_iff, route?_part hp]
      simp only [hp, false_or]
      cases entryFor? (names? dir) part with
      | none => simp
      | some name =>
        simp only [Option.bind_some, Option.map_eq_some_iff, List.cons.injEq, Option.some.injEq]
        constructor
        · rintro ⟨ns, hr, rfl, rfl⟩
          exact ⟨rfl, hr⟩
        · rintro ⟨rfl, hr⟩
          exact ⟨rest, hr, rfl, rfl⟩

theorem listed_of_route? (hn : Named names?) (h : route? names? dir ws = some ns) :
    Listed names? dir ns ∧ List.Forall₂ SameName ns ws := by
  induction ws generalizing dir ns with
  | nil =>
    obtain rfl := Option.some.inj h
    exact ⟨trivial, .nil⟩
  | cons part rest ih =>
    by_cases hp : part = ".."
    · subst hp
      rw [route?_up] at h
      obtain ⟨ns, hr, rfl⟩ := Option.map_eq_some_iff.mp h
      obtain ⟨hl, hs⟩ := ih hr
      exact ⟨⟨.inl rfl, hl⟩, .cons ⟨Iff.rfl, rfl⟩ hs⟩
    · rw [route?_part hp] at h
      obtain ⟨name, he, h⟩ := Option.bind_eq_some_iff.mp h
      obtain ⟨ns, hr, rfl⟩ := Option.map_eq_some_iff.mp h
      obtain ⟨names, hd, hm, hlow⟩ := entryFor?_eq_some he
      obtain ⟨hl, hs⟩ := ih hr
      have hup : name ≠ ".." := by
        rintro rfl
        exact absurd (hn dir names hd _ hm) (by decide)
      exact ⟨⟨.inr ⟨names, hd, hm⟩, hl⟩, .cons ⟨iff_of_false hup hp, hlow⟩ hs⟩

theorem route?_of_listed (hd : ∀ dir names, names? dir = some names → (names.map lowercase).Nodup)
    (hl : Listed names? dir ns) (hs : List.Forall₂ SameName ns ws) : route? names? dir ws = some ns := by
  induction hs generalizing dir with
  | nil => rfl
  | @cons name part ns rest hname _ ih =>
    obtain ⟨hentry, hl⟩ := hl
    by_cases hp : part = ".."
    · obtain rfl := hname.up.mpr hp
      subst hp
      rw [route?_up, ih hl]
      rfl
    · obtain ⟨names, hshown, hm⟩ := hentry.resolve_left (fun h => hp (hname.up.mp h))
      have he : entryFor? (names? dir) part = some name := by
        rw [hshown]
        exact (resolvePart?_eq_some_iff (hd dir names hshown) part name).mpr ⟨hm, hname.lower⟩
      rw [route?_part hp, he, Option.bind_some, ih hl]
      rfl

end route

section follow

variable {t : FileTree} {c : Listings} {dir : Path} {ns ws : List String}

theorem Listings.Sound.named (hc : c.Sound t) : Named (c.shown t) :=
  fun _ _ hd _ hm => (hc.lists hd).isFileName hm

theorem follow_fst (hc : c.Sound t) (dir : Path) (ws : List String) :
    (follow t c dir ws).1 = route? (c.shown t) dir ws := by
  induction ws generalizing c dir with
  | nil => rfl
  | cons part rest ih =>
    by_cases hp : part = ".."
    · subst hp
      rw [follow_up, route?_up, ih hc]
    · rw [route?_part hp]
      cases he : entryFor? (c.shown t dir) part with
      | none =>
        rw [follow_stop hp rest he]
        rfl
      | some name =>
        obtain ⟨names, hs, hm, -⟩ := entryFor?_eq_some he
        have hlt := length_join_lt (.inr (hc.named dir names hs name hm)) dir
        -- the listing that is now kept is of a shorter path than those that are asked for from here on
        have hkept (p : Path) (hle : (dir.join ⟨name⟩).components.length ≤ p.components.length) :
            (c.list t dir).2.shown t p = c.shown t p := by
          apply shown_list
          intro heq
          rw [heq] at hle
          omega
        rw [follow_enter hp rest he, Option.bind_some, ih (hc.list dir),
          route?_congr (hc.list dir).named hkept]

theorem listed_of_extends (h : (follow t c dir ws).1 = some ns) {c' : Listings}
    (hc' : (follow t c dir ws).2.Extends c') : Listed (c'.shown t) dir ns := by
  induction ws generalizing c dir ns with
  | nil =>
    obtain rfl := Option.some.inj h
    trivial
  | cons part rest ih =>
    by_cases hp : part = ".."
    · subst hp
      rw [follow_up] at h hc'
      obtain ⟨ns, hr, rfl⟩ := Option.map_eq_some_iff.mp h
      exact ⟨.inl rfl, ih hr hc'⟩
    · cases he : entryFor? (c.shown t dir) part with
      | none => simp [follow_stop hp rest he] at h
      | some name =>
        obtain ⟨names, hs, hm, -⟩ := entryFor?_eq_some he
        rw [follow_enter hp rest he] at h hc'
        obtain ⟨ns, hr, rfl⟩ := Option.map_eq_some_iff.mp h
        have hext : (c.list t dir).2.Extends c' :=
          (follow_induction (P := (c.list t dir).2.Extends) (fun c dir h => h.trans (extends_list t c dir))
            (fun _ _ hk => hk) _ _).trans hc'
        exact ⟨.inr ⟨names, hext.shown_eq.trans hs, hm⟩, ih hr hc'⟩

end follow

section written

variable {value : String} {ns ps ws : List String}

theorem not_mem_normalize (value : String) : '\\' ∉ (normalize value).toList := by
  simp only [normalize, normalizeChars, String.toList_ofList, List.mem_map, not_exists, not_and]
  intro c _ he
  split at he
  · exact absurd he (by decide)
  · contradiction

theorem normalize_of_not_mem (h : '\\' ∉ value.toList) : normalize value = value := by
  have hid (c : Char) (hc : c ∈ value.toList) : (if c = '\\' then '/' else c) = id c := by
    rw [if_neg]
    · rfl
    · rintro rfl
      exact h hc
  rw [normalize, normalizeChars, List.map_congr_left hid, List.map_id, String.ofList_toList]

theorem not_mem_part (value : String) {part : String} (h : part ∈ parts (normalize value)) :
    '\\' ∉ part.toList := by
  obtain ⟨cs, hcs, rfl⟩ := List.mem_map.mp (List.mem_of_mem_filter h)
  rw [String.toList_ofList]
  exact fun hm => not_mem_normalize value (Path.mem_of_mem_split hcs hm)

theorem not_mem_intercalate (h : ∀ p ∈ ps, '\\' ∉ p.toList) : '\\' ∉ ("/".intercalate ps).toList := by
  induction ps with
  | nil => simp
  | cons p ps ih =>
    have hp := h p (List.mem_cons_self ..)
    cases ps with
    | nil => rwa [String.intercalate_singleton]
    | cons q qs =>
      rw [String.intercalate_cons_cons]
      simpa [hp] using ih (fun r hr => h r (List.mem_cons_of_mem p hr))

theorem parts_intercalate (hne : ps ≠ []) (hs : ∀ p ∈ ps, '/' ∉ p.toList)
    (hb : ∀ p ∈ ps, '\\' ∉ p.toList) :
    parts (normalize ("/".intercalate ps)) = ps.filter (fun p => !Path.isIdle p) := by
  rw [normalize_of_not_mem (not_mem_intercalate hb), parts, Path.pieces_intercalate hne hs]

def Writable (ns : List String) : Prop :=
  ∀ n ∈ ns, '/' ∉ n.toList ∧ '\\' ∉ n.toList ∧ Path.isIdle n = false

theorem Writable.filter (h : Writable ns) : ns.filter (fun p => !Path.isIdle p) = ns := by
  rw [List.filter_eq_self]
  intro n hn
  rw [(h n hn).2.2]
  rfl

theorem Writable.parts (h : Writable ns) (hne : ns ≠ []) : parts (normalize ("/".intercalate ns)) = ns := by
  rw [parts_intercalate hne (fun n hn => (h n hn).1) (fun n hn => (h n hn).2.1), h.filter]

theorem Writable.parts_here (h : Writable ns) (hne : ns ≠ []) :
    Sample.parts (normalize ("./" ++ "/".intercalate ns)) = ns := by
  obtain ⟨n, ns, rfl⟩ := List.exists_cons_of_ne_nil hne
  have hdot : "./" ++ "/".intercalate (n :: ns) = "/".intercalate ("." :: n :: ns) := by
    rw [String.intercalate_cons_cons]
    rfl
  rw [hdot, parts_intercalate (by simp), List.filter_cons_of_neg (by decide), h.filter]
  · exact List.forall_mem_cons.mpr ⟨by decide, fun n hn => (h n hn).1⟩
  · exact List.forall_mem_cons.mpr ⟨by decide, fun n hn => (h n hn).2.1⟩

theorem Listed.name {names? : Path → Option (List String)} (hn : Named names?) {dir : Path}
    (h : Listed names? dir ns) {n : String} (hm : n ∈ ns) : n = ".." ∨ isFileName n = true := by
  induction ns generalizing dir with
  | nil => simp at hm
  | cons m ns ih =>
    obtain ⟨hentry, h⟩ := h
    rcases List.mem_cons.mp hm with rfl | hm
    · exact hentry.imp_right (fun ⟨names, hd, hmem⟩ => hn dir names hd n hmem)
    · exact ih h hm

theorem not_mem_of_sameName (hs : List.Forall₂ SameName ns ws) (h : ∀ w ∈ ws, '\\' ∉ w.toList) :
    ∀ n ∈ ns, '\\' ∉ n.toList := by
  induction hs with
  | nil => simp
  | cons hname _ ih =>
    rw [List.forall_mem_cons] at h ⊢
    refine ⟨?_, ih h.2⟩
    rw [← mem_lowercase_backslash, hname.lower, mem_lowercase_backslash]
    exact h.1

theorem writable_of_route? {names? : Path → Option (List String)} (hn : Named names?) {dir : Path}
    (h : route? names? dir (parts (normalize value)) = some ns) : Writable ns := by
  obtain ⟨hl, hs⟩ := listed_of_route? hn h
  intro n hm
  have hslash := not_mem_of_sameName hs (fun _ => not_mem_part value) n hm
  rcases hl.name hn hm with rfl | hfile
  · decide
  · exact ⟨Path.not_mem_of_isFileName hfile, hslash, Path.isIdle_of_isFileName hfile⟩

theorem startOf_relative (hs : value.toList.head? ≠ some '/') (hb : value.toList.head? ≠ some '\\')
    (base : Path) : startOf base value = base := by
  unfold startOf
  rw [if_neg]
  unfold Path.isAbsolute normalize normalizeChars
  cases hv : value.toList with
  | nil => simp
  | cons c cs =>
    rw [hv] at hs hb
    have hc : c ≠ '/' := by simpa using hs
    have hc' : c ≠ '\\' := by simpa using hb
    simp [hc, hc']

theorem startOf_here (base : Path) (rest : String) : startOf base ("./" ++ rest) = base :=
  startOf_relative (by simp) (by simp) base

end written

section status

variable {t : FileTree} {c : Listings} {base : Path} {value : String} {ns ws : List String}
  {names : Option (List String)}

theorem statusOf_eq_found_iff : statusOf ws names = .found ↔ ws ≠ [] ∧ names = some ws := by
  rcases names with _ | _ | ⟨n, ns⟩
  · simp [statusOf]
  · simp [statusOf]
  · rw [statusOf]
    split
    next he => simp [← he]
    next hne => simp [hne]

theorem statusOf_eq_missing_iff : statusOf ws names = .missing ↔ names = none ∨ names = some [] := by
  rcases names with _ | _ | ⟨n, ns⟩
  · simp [statusOf]
  · simp [statusOf]
  · rw [statusOf]
    split <;> simp

theorem eq_intercalate_of_mismatch {p : String} (h : statusOf ws names = .caseMismatch p) :
    ∃ ns, ns ≠ [] ∧ names = some ns ∧ ns ≠ ws ∧ p = "/".intercalate ns := by
  rcases names with _ | _ | ⟨n, ns⟩
  · simp [statusOf] at h
  · simp [statusOf] at h
  · rw [statusOf] at h
    split at h
    next => simp at h
    next hne => exact ⟨n :: ns, by simp, rfl, hne, (Status.caseMismatch.inj h).symm⟩

theorem check_fst (hv : isGenerated value = false) (hc : c.Sound t) (base : Path) :
    (check t c base value).1 = statusOf (parts (normalize value))
      (route? (c.shown t) (startOf base value) (parts (normalize value))) := by
  rw [check_eq hv, ← follow_fst hc]

theorem check_eq_found_iff (hv : isGenerated value = false) (hc : c.Sound t) (base : Path) :
    (check t c base value).1 = .found ↔
      parts (normalize value) ≠ [] ∧ Listed (c.shown t) (startOf base value) (parts (normalize value)) := by
  rw [check_fst hv hc, statusOf_eq_found_iff, route?_eq_self_iff]

theorem check_written (hc : c.Sound t) (hw : Writable ns) (hne : ns ≠ [])
    (hl : Listed (c.shown t) base ns) : (check t c base ("./" ++ "/".intercalate ns)).1 = .found := by
  have hv : isGenerated ("./" ++ "/".intercalate ns) = false := by simp [isGenerated]
  rw [check_eq_found_iff hv hc, hw.parts_here hne, startOf_here]
  exact ⟨hne, hl⟩

theorem check_eq_missing_iff (hv : isGenerated value = false) (hc : c.Sound t) (hd : t.CaseDistinct)
    (base : Path) : (check t c base value).1 = .missing ↔ parts (normalize value) = [] ∨
      ¬∃ ns, List.Forall₂ SameName ns (parts (normalize value)) ∧
        Listed (c.shown t) (startOf base value) ns := by
  rw [check_fst hv hc, statusOf_eq_missing_iff]
  have hroute (ns : List String) : route? (c.shown t) (startOf base value) (parts (normalize value)) = some ns ↔
      List.Forall₂ SameName ns (parts (normalize value)) ∧ Listed (c.shown t) (startOf base value) ns :=
    ⟨fun h => (listed_of_route? hc.named h).symm,
      fun h => route?_of_listed (fun _ names hn => hd names (hc.lists hn)) h.2 h.1⟩
  simp only [← hroute, ← Option.ne_none_iff_exists', not_not]
  rw [or_comm]
  refine or_congr_left' fun hsome => ?_
  rw [hroute]
  constructor
  · rintro ⟨hs, -⟩
    exact List.forall₂_nil_left_iff.mp hs
  · intro hws
    rw [hws]
    exact ⟨.nil, trivial⟩

/-- A mismatch is a path of entries with the same names up to case, which is found from then on. A value is found
iff its parts are entries on the way, letter for letter. Where no two names of a directory differ only in case, a
value is missing iff no entries agree with its parts, in whatever order they are. -/
theorem check_walks_directories (t : FileTree) (history : List (Path × String)) (base : Path)
    (hv : isGenerated value = false) :
    let c := Listings.after t history
    let ws := parts (normalize value)
    let start := startOf base value
    let status := (check t c base value).1
    (∀ p, status = .caseMismatch p →
      List.Forall₂ SameName (parts (normalize p)) ws ∧ parts (normalize p) ≠ ws ∧
        (value.toList.head? ≠ some '/' → value.toList.head? ≠ some '\\' →
          (check t c base ("./" ++ p)).1 = .found ∧
          ∀ more, (check t (.after t (history ++ (base, value) :: more)) base ("./" ++ p)).1 = .found)) ∧
    -- no directory on the way is kept from a path too long to be followed, or is to be followed by one
    (ListedAlike t history base value → (status = .found ↔ ws ≠ [] ∧ Entered t start ws)) ∧
    (t.CaseDistinct →
      (ListedAlike t history base value →
        (status = .missing ↔ ws = [] ∨ ¬∃ ns, List.Forall₂ SameName ns ws ∧ Entered t start ns)) ∧
      ∀ t', t.Reordered t' → (check t' (.after t' history) base value).1 = status) := by
  intro c ws start status
  have hc : c.Sound t := sound_after t history
  have hshown : empty.shown t = t.list? := funext (shown_empty t)
  refine ⟨?_, fun h => ?_, fun hd => ⟨fun h => ?_, ?_⟩⟩
  · intro p hp
    obtain ⟨ns, hne, hr, hdiffer, rfl⟩ := eq_intercalate_of_mismatch ((check_fst hv hc base).symm.trans hp)
    have hw := writable_of_route? hc.named hr
    obtain ⟨hl, hs⟩ := listed_of_route? hc.named hr
    rw [hw.parts hne]
    refine ⟨hs, hdiffer, fun hslash hback => ?_⟩
    rw [startOf_relative hslash hback] at hl hr
    refine ⟨check_written hc hw hne hl, fun more => ?_⟩
    -- the listings made on the way to the names are still kept
    have hext : (follow t c base ws).2.Extends (.after t (history ++ (base, value) :: more)) := by
      have h := extends_after t (history ++ [(base, value)]) more
      rw [after_concat, check_eq hv, startOf_relative hslash hback] at h
      simpa using h
    exact check_written (sound_after t _) hw hne (listed_of_extends ((follow_fst hc base ws).trans hr) hext)
  · rw [show status = _ from check_after h, check_eq_found_iff hv (sound_empty t), hshown, listed_iff_entered]
  · rw [show status = _ from check_after h, check_eq_missing_iff hv (sound_empty t) hd, hshown]
    simp only [listed_iff_entered]
    rfl
  · intro t' ht
    exact (check_reordered ht hd hc (reordered_after ht hd history) base value).1

end status

end Sample

namespace FileTree

def kit (drums : List (String × Location)) (h : (FileObject.directory ⟨0, drums⟩).Fits 4 1) :
    FileTree where
  objects := #[.directory ⟨0, [("Drums", 1)]⟩, .directory ⟨0, drums⟩, .file none, .file none]
  working := 0
  fits := by
    have hroot : (FileObject.directory ⟨0, [("Drums", 1)]⟩).Fits 4 0 := by
      constructor <;> decide
    intro l o ho
    match l, ho with
    | 0, ho => exact Option.some.inj ho ▸ hroot
    | 1, ho => exact Option.some.inj ho ▸ h
    | 2, ho => exact Option.some.inj ho ▸ .of_entries_eq_nil rfl
    | 3, ho => exact Option.some.inj ho ▸ .of_entries_eq_nil rfl

def kickFirst : FileTree :=
  kit [("Kick.wav", 2), ("Snare.wav", 3)] (by constructor <;> decide)

def snareFirst : FileTree :=
  kit [("Snare.wav", 3), ("Kick.wav", 2)] (by constructor <;> decide)

section Walk

variable (links : Nat) (pieces : List String)

theorem walk_drums : kickFirst.walk links 0 ("Drums" :: pieces) = kickFirst.walk links 1 pieces := by
  have hobject : kickFirst.object? 1 = some (.directory ⟨0, [("Kick.wav", 2), ("Snare.wav", 3)]⟩) := rfl
  exact walk_entry (show kickFirst.directory? 0 = some _ from rfl) (by decide) (by decide) (by decide) rfl
    (by simp [hobject]) links pieces

theorem walk_drums_up : kickFirst.walk links 1 (".." :: pieces) = kickFirst.walk links 0 pieces :=
  walk_up (show kickFirst.directory? 1 = some ⟨0, _⟩ from rfl) (by decide) (by decide) links pieces

theorem walk_drums_kick : kickFirst.walk links 1 ["Kick.wav"] = .ok 2 := by
  have hobject : kickFirst.object? 2 = some (.file none) := rfl
  rw [walk_entry (show kickFirst.directory? 1 = some _ from rfl) (by decide) (by decide) (by decide) rfl
    (by simp [hobject]), walk]

end Walk

theorem locate_kickFirst : kickFirst.locate ⟨"/"⟩ = .ok 0 ∧ kickFirst.locate ⟨"/Drums"⟩ = .ok 1 := by
  have hroot : Path.pieces ⟨"/"⟩ = ["", ""] := by decide
  have hdrums : Path.pieces ⟨"/Drums"⟩ = ["", "Drums"] := by decide
  have hdir : kickFirst.directory? 0 = some ⟨0, [("Drums", 1)]⟩ := rfl
  constructor
  · refine locate_eq_ok.mpr ⟨by decide, by decide, by decide, ?_⟩
    rw [hroot, show kickFirst.startOf ⟨"/"⟩ = 0 from rfl, walk_idle hdir (by decide), walk_idle hdir (by decide), walk]
  · refine locate_eq_ok.mpr ⟨by decide, by decide, by decide, ?_⟩
    rw [hdrums, show kickFirst.startOf ⟨"/Drums"⟩ = 0 from rfl, walk_idle hdir (by decide), walk_drums, walk]

theorem list?_kickFirst : kickFirst.list? ⟨"/"⟩ = some ["Drums"] ∧
    kickFirst.list? ⟨"/Drums"⟩ = some ["Kick.wav", "Snare.wav"] :=
  ⟨list?_eq_some.mpr ⟨0, _, locate_kickFirst.1, rfl, rfl⟩, list?_eq_some.mpr ⟨1, _, locate_kickFirst.2, rfl, rfl⟩⟩

theorem names_kickFirst {l : Location} {d : Directory} (h : kickFirst.directory? l = some d) :
    d.entries.map Prod.fst = ["Drums"] ∨ d.entries.map Prod.fst = ["Kick.wav", "Snare.wav"] := by
  match l, h with
  | 0, h => exact .inl (Option.some.inj h ▸ rfl)
  | 1, h => exact .inr (Option.some.inj h ▸ rfl)
  | 2, h => exact absurd h (Option.some_ne_none d).symm
  | 3, h => exact absurd h (Option.some_ne_none d).symm
  | _ + 4, h => exact absurd h (Option.some_ne_none d).symm

theorem caseDistinct_kickFirst : kickFirst.CaseDistinct := by
  rintro names ⟨l, d, hd, rfl⟩
  rcases names_kickFirst hd with hnames | hnames
  · rw [hnames]
    decide +kernel
  · rw [hnames]
    decide +kernel

theorem reordered_kickFirst : kickFirst.Reordered snareFirst where
  working := rfl
  objects
    | 0 => .some (.directory 0 (.refl _))
    | 1 => .some (.directory 0 (.swap ..))
    | 2 => .some (.file none)
    | 3 => .some (.file none)
    | _ + 4 => .none

end FileTree

namespace Sample

open FileTree Listings

def wayBack : Nat → List String
  | 0 => ["Drums", "Kick.wav"]
  | n + 1 => "Drums" :: ".." :: wayBack n

theorem writable_wayBack (n : Nat) : Writable (wayBack n) := by
  induction n with
  | zero =>
    unfold Writable
    decide
  | succ n ih => exact List.forall_mem_cons.mpr ⟨by decide, List.forall_mem_cons.mpr ⟨by decide, ih⟩⟩

theorem walk_wayBack (n : Nat) : kickFirst.walk maxLinks 0 (wayBack n) = .ok 2 := by
  induction n with
  | zero => rw [wayBack, walk_drums, walk_drums_kick]
  | succ n ih => rw [wayBack, walk_drums, walk_drums_up, ih]

theorem entryFor?_drums {dir : Path} {name : String} (h : entryFor? (kickFirst.list? dir) "Drums" = some name) :
    name = "Drums" := by
  obtain ⟨names, hlist, hmem, hlow⟩ := entryFor?_eq_some h
  obtain ⟨l, d, hd, rfl⟩ := lists_of_list? hlist
  have hnames : ∀ name ∈ ["Drums", "Kick.wav", "Snare.wav"],
      Text.lowercase name = Text.lowercase "Drums" → name = "Drums" := by decide +kernel
  refine hnames name ?_ hlow
  rcases names_kickFirst hd with heq | heq
  · rw [heq] at hmem
    exact List.mem_cons.mpr (.inl (List.mem_singleton.mp hmem))
  · rw [heq] at hmem
    exact List.mem_cons_of_mem _ hmem

theorem route?_wayBack {n : Nat} {dir : Path} (h : maxPathBytes < dir.text.utf8ByteSize + 7 * n) :
    route? kickFirst.list? dir (wayBack n) = none := by
  induction n generalizing dir with
  | zero =>
    have hlist : kickFirst.list? dir = none := if_pos h
    rw [wayBack, route?_part (by decide), hlist]
    rfl
  | succ n ih =>
    rw [wayBack, route?_part (by decide)]
    cases he : entryFor? (kickFirst.list? dir) "Drums" with
    | none => rfl
    | some name =>
      obtain rfl := entryFor?_drums he
      have hdrums := Path.size_join_le dir (show (⟨"Drums"⟩ : Path).isAbsolute = false by decide)
      have hup := Path.size_join_le (dir.join ⟨"Drums"⟩) (show (⟨".."⟩ : Path).isAbsolute = false by decide)
      rw [show "Drums".utf8ByteSize = 5 by decide] at hdrums
      rw [show "..".utf8ByteSize = 2 by decide] at hup
      rw [Option.bind_some, route?_up, ih (by omega)]
      rfl

theorem head?_wayBack (n : Nat) : ("/".intercalate (wayBack n)).toList.head? = some 'D' := by
  cases n <;> simp [wayBack, String.intercalate_cons_cons]

/-- The parts of a value lead to a file, but the path of a directory on the way is too long to be followed. -/
theorem missing_by_long_way : ∃ value, isGenerated value = false ∧
    kickFirst.walk maxLinks 0 (parts (normalize value)) = .ok 2 ∧
    (check kickFirst .empty ⟨"/"⟩ value).1 = .missing := by
  have hv : isGenerated ("/".intercalate (wayBack 585)) = false := by
    rw [isGenerated, head?_wayBack]
    decide
  have hparts : parts (normalize ("/".intercalate (wayBack 585))) = wayBack 585 :=
    (writable_wayBack 585).parts (List.cons_ne_nil _ _)
  have hstart : startOf ⟨"/"⟩ ("/".intercalate (wayBack 585)) = ⟨"/"⟩ :=
    startOf_relative (by rw [head?_wayBack]; decide) (by rw [head?_wayBack]; decide) _
  refine ⟨_, hv, by rw [hparts, walk_wayBack], ?_⟩
  rw [check_fst hv (sound_empty _), hparts, hstart, funext (shown_empty kickFirst), route?_wayBack (by decide)]
  rfl

theorem check_kickFirst :
    (check kickFirst .empty ⟨"/"⟩ "drums\\KICK.wav").1 = .caseMismatch "Drums/Kick.wav" := by
  obtain ⟨hroot, hdrums⟩ := list?_kickFirst
  have hparts : parts (normalize "drums\\KICK.wav") = ["drums", "KICK.wav"] := by decide +kernel
  have hjoin : Path.join ⟨"/"⟩ ⟨"Drums"⟩ = ⟨"/Drums"⟩ := by decide +kernel
  have hfirst : entryFor? (some ["Drums"]) "drums" = some "Drums" := by decide +kernel
  have hsecond : entryFor? (some ["Kick.wav", "Snare.wav"]) "KICK.wav" = some "Kick.wav" := by
    decide +kernel
  have hstart : startOf ⟨"/"⟩ "drums\\KICK.wav" = ⟨"/"⟩ := by decide +kernel
  rw [check_fst (by decide) (sound_empty _), hparts, hstart, route?_part (by decide), shown_empty, hroot,
    hfirst, Option.bind_some, hjoin, route?_part (by decide), shown_empty, hdrums, hsecond]
  rfl

theorem asked_kickFirst (value part part' : String)
    (h : isGenerated value = false ∧ parts (normalize value) = [part, part'] ∧ startOf ⟨"/"⟩ value = ⟨"/"⟩ ∧
      part ≠ ".." ∧ part' ≠ ".." ∧ entryFor? (some ["Drums"]) part = some "Drums") :
    asked kickFirst .empty ⟨"/"⟩ value = [⟨"/"⟩, ⟨"/Drums"⟩] := by
  obtain ⟨hv, hparts, hstart, hpart, hpart', he⟩ := h
  have hjoin : Path.join ⟨"/"⟩ ⟨"Drums"⟩ = ⟨"/Drums"⟩ := by decide +kernel
  rw [asked, hv, if_neg Bool.false_ne_true, hstart, hparts, stations, if_neg hpart, shown_empty, list?_kickFirst.1, he,
    Option.elim_some, hjoin, stations, if_neg hpart']
  cases entryFor? (Listings.shown _ kickFirst ⟨"/Drums"⟩) part' <;> rfl

theorem listedAlike_kickFirst {value : String} (ha : asked kickFirst .empty ⟨"/"⟩ value = [⟨"/"⟩, ⟨"/Drums"⟩]) :
    ListedAlike kickFirst [(⟨"/"⟩, "Drums/Snare.wav")] ⟨"/"⟩ value := by
  have hbefore : askedBy kickFirst .empty [(⟨"/"⟩, "Drums/Snare.wav")] = [⟨"/"⟩, ⟨"/Drums"⟩] := by
    rw [askedBy, asked_kickFirst "Drums/Snare.wav" "Drums" "Snare.wav" (by decide +kernel)]
    rfl
  have hshort : ∀ p ∈ ([⟨"/"⟩, ⟨"/Drums"⟩] : List Path), ¬maxPathBytes < p.text.utf8ByteSize := by decide
  intro q hq p hp
  rw [ha] at hq
  rw [hbefore] at hp
  exact iff_of_false (hshort p (List.mem_of_find?_eq_some hp)) (hshort q hq)

theorem check_walks_directories_kickFirst :
    let history : List (Path × String) := [(⟨"/"⟩, "Drums/Snare.wav")]
    kickFirst.CaseDistinct ∧ kickFirst.Reordered snareFirst ∧
      (check kickFirst (.after kickFirst history) ⟨"/"⟩ "Drums/Kick.wav").1 = .found ∧
      (check kickFirst (.after kickFirst history) ⟨"/"⟩ "drums\\KICK.wav").1 = .caseMismatch "Drums/Kick.wav" ∧
      (check snareFirst (.after snareFirst history) ⟨"/"⟩ "drums\\KICK.wav").1 = .caseMismatch "Drums/Kick.wav" ∧
      (check kickFirst (.after kickFirst history) ⟨"/"⟩ "./Drums/Kick.wav").1 = .found := by
  intro history
  have halike : ListedAlike kickFirst history ⟨"/"⟩ "Drums/Kick.wav" :=
    listedAlike_kickFirst (asked_kickFirst _ "Drums" "Kick.wav" (by decide +kernel))
  have halike' : ListedAlike kickFirst history ⟨"/"⟩ "drums\\KICK.wav" :=
    listedAlike_kickFirst (asked_kickFirst _ "drums" "KICK.wav" (by decide +kernel))
  have hmismatched := (check_after halike').trans check_kickFirst
  obtain ⟨-, hfound, -⟩ :=
    check_walks_directories kickFirst history ⟨"/"⟩ (show isGenerated "Drums/Kick.wav" = false by decide)
  obtain ⟨hmismatch, -, hdistinct⟩ :=
    check_walks_directories kickFirst history ⟨"/"⟩ (show isGenerated "drums\\KICK.wav" = false by decide)
  refine ⟨caseDistinct_kickFirst, reordered_kickFirst, ?_, hmismatched, ?_, ?_⟩
  · have hparts : parts (normalize "Drums/Kick.wav") = ["Drums", "Kick.wav"] := by decide +kernel
    have hstart : startOf ⟨"/"⟩ "Drums/Kick.wav" = ⟨"/"⟩ := by decide +kernel
    have hjoin : Path.join ⟨"/"⟩ ⟨"Drums"⟩ = ⟨"/Drums"⟩ := by decide +kernel
    refine (hfound halike).mpr ⟨by rw [hparts]; simp, ?_⟩
    rw [hparts, hstart]
    refine ⟨.inr ⟨0, _, locate_kickFirst.1, rfl, by decide⟩, ?_, trivial⟩
    rw [hjoin]
    exact .inr ⟨1, _, locate_kickFirst.2, rfl, by decide⟩
  · exact ((hdistinct caseDistinct_kickFirst).2 snareFirst reordered_kickFirst).trans hmismatched
  · exact ((hmismatch _ hmismatched).2.2 (by decide) (by decide)).1

end Sample

end Sfz
