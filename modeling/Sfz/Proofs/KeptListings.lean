import Sfz.Check.Sample
import Sfz.Proofs.PathComponents

/-!
The listings that are kept of directories on the way of a path. What is kept for a directory is the listing of the
first text under which it was asked for, and it stays known. A value is answered as if nothing were kept, unless one
of its directories was first asked for under a text on the other side of the greatest length of paths.
-/

namespace Sfz

namespace FileTree

variable {t : FileTree} {names : List String}

def Lists (t : FileTree) (names : List String) : Prop :=
  ∃ l d, t.directory? l = some d ∧ d.entries.map Prod.fst = names

theorem lists_of_list? {p : Path} (h : t.list? p = some names) : t.Lists names := by
  obtain ⟨l, d, -, hd, hnames⟩ := list?_eq_some.mp h
  exact ⟨l, d, hd, hnames⟩

theorem Lists.isFileName (h : t.Lists names) {n : String} (hn : n ∈ names) : isFileName n = true := by
  obtain ⟨l, d, hd, rfl⟩ := h
  obtain ⟨e, he, rfl⟩ := List.mem_map.mp hn
  exact (t.fits l _ (object?_of_directory? hd)).named e he

end FileTree

namespace Sample.Listings

variable {t : FileTree} {c : Listings} {dir : Path}

def shown (c : Listings) (t : FileTree) (dir : Path) : Option (List String) :=
  c.known[dir.components]?.getD (t.list? dir)

theorem list_fst (t : FileTree) (c : Listings) (dir : Path) : (c.list t dir).1 = c.shown t dir := by
  unfold list shown
  cases c.known[dir.components]? <;> rfl

theorem known_list (t : FileTree) (c : Listings) (dir : Path) (k : List Path.Component) :
    (c.list t dir).2.known[k]? = if k = dir.components then some (c.shown t dir) else c.known[k]? := by
  unfold list shown
  cases h : c.known[dir.components]? with
  | none =>
    rw [Std.HashMap.getElem?_insert]
    by_cases hk : k = dir.components
    · simp [hk]
    · simp [hk, Ne.symm hk]
  | some names =>
    by_cases hk : k = dir.components
    · simp [hk, h]
    · simp [hk]

theorem shown_empty (t : FileTree) (dir : Path) : empty.shown t dir = t.list? dir := by
  simp [shown, empty]

theorem shown_list {p : Path} (h : p.components ≠ dir.components) :
    (c.list t dir).2.shown t p = c.shown t p := by
  rw [shown, known_list, if_neg h, shown]

def Sound (c : Listings) (t : FileTree) : Prop :=
  ∀ (k : List Path.Component) kept, c.known[k]? = some kept → ∃ p : Path, p.components = k ∧ t.list? p = kept

theorem sound_empty (t : FileTree) : empty.Sound t := by
  intro k kept h
  simp [empty] at h

theorem Sound.shown_eq (hc : c.Sound t) (dir : Path) :
    ∃ p : Path, p.components = dir.components ∧ c.shown t dir = t.list? p := by
  unfold shown
  cases hk : c.known[dir.components]? with
  | none => exact ⟨dir, rfl, rfl⟩
  | some kept =>
    obtain ⟨p, hp, hkept⟩ := hc _ _ hk
    exact ⟨p, hp, hkept.symm⟩

theorem Sound.lists (hc : c.Sound t) {names : List String} (h : c.shown t dir = some names) :
    t.Lists names := by
  obtain ⟨p, -, hp⟩ := hc.shown_eq dir
  exact FileTree.lists_of_list? (hp.symm.trans h)

theorem Sound.list (hc : c.Sound t) (dir : Path) : (c.list t dir).2.Sound t := by
  intro k kept h
  rw [known_list] at h
  split at h
  next hk =>
    obtain ⟨p, hp, hshown⟩ := hc.shown_eq dir
    exact ⟨p, hp.trans hk.symm, hshown.symm.trans (Option.some.inj h)⟩
  next => exact hc k kept h

def Extends (c c' : Listings) : Prop :=
  ∀ (k : List Path.Component) kept, c.known[k]? = some kept → c'.known[k]? = some kept

theorem Extends.trans {c c' c'' : Listings} (h : c.Extends c') (h' : c'.Extends c'') : c.Extends c'' :=
  fun k kept hk => h' k kept (h k kept hk)

theorem extends_list (t : FileTree) (c : Listings) (dir : Path) : c.Extends (c.list t dir).2 := by
  intro k kept hk
  rw [known_list]
  split
  next he =>
    rw [shown, ← he, hk]
    rfl
  next => exact hk

theorem Extends.shown_eq {c' : Listings} (h : (c.list t dir).2.Extends c') :
    c'.shown t dir = c.shown t dir := by
  have hk := h dir.components (c.shown t dir) (by rw [known_list, if_pos rfl])
  rw [shown, hk]
  rfl

end Sample.Listings

namespace Sample

open Listings

variable {t : FileTree} {c : Listings}

theorem follow_up (t : FileTree) (c : Listings) (dir : Path) (rest : List String) :
    follow t c dir (".." :: rest) = ((follow t c (dir.join ⟨".."⟩) rest).1.map (".." :: ·),
      (follow t c (dir.join ⟨".."⟩) rest).2) :=
  rfl

def entryFor? (shown : Option (List String)) (part : String) : Option String :=
  shown.bind (fun names => resolvePart? names part)

theorem follow_stop {dir : Path} {part : String} (hp : part ≠ "..") (rest : List String)
    (h : entryFor? (c.shown t dir) part = none) :
    follow t c dir (part :: rest) = (none, (c.list t dir).2) := by
  rw [← list_fst] at h
  rcases hl : c.list t dir with ⟨shown, c'⟩
  rw [hl] at h
  rw [follow, if_neg (by simpa using hp), hl]
  cases shown with
  | none => rfl
  | some names =>
    have hn : resolvePart? names part = none := h
    simp only [hn]

theorem follow_enter {dir : Path} {part actual : String} (hp : part ≠ "..") (rest : List String)
    (h : entryFor? (c.shown t dir) part = some actual) :
    follow t c dir (part :: rest) =
      ((follow t (c.list t dir).2 (dir.join ⟨actual⟩) rest).1.map (actual :: ·),
        (follow t (c.list t dir).2 (dir.join ⟨actual⟩) rest).2) := by
  rw [← list_fst] at h
  rcases hl : c.list t dir with ⟨shown, c'⟩
  rw [hl] at h
  rw [follow, if_neg (by simpa using hp), hl]
  cases shown with
  | none => simp [entryFor?] at h
  | some names =>
    have hn : resolvePart? names part = some actual := h
    simp only [hn]

theorem follow_induction {P : Listings → Prop} (hlist : ∀ c dir, P c → P (c.list t dir).2) (hc : P c)
    (dir : Path) (ws : List String) : P (follow t c dir ws).2 := by
  induction ws generalizing c dir with
  | nil => exact hc
  | cons part rest ih =>
    by_cases hp : part = ".."
    · subst hp
      rw [follow_up]
      exact ih hc _
    · cases he : entryFor? (c.shown t dir) part with
      | none =>
        rw [follow_stop hp rest he]
        exact hlist c dir hc
      | some actual =>
        rw [follow_enter hp rest he]
        exact ih (hlist c dir hc) _

def startOf (base : Path) (value : String) : Path :=
  if (Path.mk (normalize value)).isAbsolute then ⟨"/"⟩ else base

def statusOf (ws : List String) : Option (List String) → Status
  | none => .missing
  | some [] => .missing
  | some (n :: ns) => if n :: ns = ws then .found else .caseMismatch ("/".intercalate (n :: ns))

theorem check_of_generated {value : String} (h : isGenerated value = true) (t : FileTree) (c : Listings)
    (base : Path) : check t c base value = (.generated, c) := by
  rw [check, if_pos h]

theorem check_eq {value : String} (h : isGenerated value = false) (t : FileTree) (c : Listings)
    (base : Path) : check t c base value =
      (statusOf (parts (normalize value)) (follow t c (startOf base value) (parts (normalize value))).1,
        (follow t c (startOf base value) (parts (normalize value))).2) := by
  unfold check startOf
  rw [if_neg (Bool.eq_false_iff.mp h)]
  dsimp only
  split
  next he =>
    rw [he]
    rfl
  next he =>
    rw [he]
    rfl
  next names c' hne he =>
    rw [he]
    cases names with
    | nil => exact absurd rfl hne
    | cons n ns => rfl

theorem check_induction {P : Listings → Prop} (hlist : ∀ c dir, P c → P (c.list t dir).2) (hc : P c)
    (base : Path) (value : String) : P (check t c base value).2 := by
  cases hv : isGenerated value with
  | true =>
    rw [check_of_generated hv]
    exact hc
  | false =>
    rw [check_eq hv]
    dsimp only
    exact follow_induction hlist hc _ _

def Listings.after (t : FileTree) (history : List (Path × String)) : Listings :=
  history.foldl (fun c request => (check t c request.1 request.2).2) .empty

theorem Listings.after_concat (t : FileTree) (history : List (Path × String)) (base : Path)
    (value : String) : after t (history ++ [(base, value)]) = (check t (after t history) base value).2 := by
  rw [after, List.foldl_append]
  rfl

theorem Listings.sound_after (t : FileTree) (history : List (Path × String)) : (after t history).Sound t := by
  induction history using List.reverseRecOn with
  | nil => exact sound_empty t
  | append_singleton history request ih =>
    rw [after_concat]
    exact check_induction (P := (Listings.Sound · t)) (fun _ dir hc => hc.list dir) ih _ _

theorem Listings.extends_after (t : FileTree) (history more : List (Path × String)) :
    (after t history).Extends (after t (history ++ more)) := by
  induction more using List.reverseRecOn with
  | nil =>
    rw [List.append_nil]
    exact fun _ _ hk => hk
  | append_singleton more request ih =>
    rw [← List.append_assoc, after_concat]
    exact check_induction (P := (after t history).Extends)
      (fun c dir hc => hc.trans (extends_list t c dir)) ih _ _

section Recalls

variable {log : List Path} {dir base : Path} {value : String}

def stations (t : FileTree) : Listings → Path → List String → List Path
  | _, _, [] => []
  | c, dir, part :: rest =>
    if part = ".." then stations t c (dir.join ⟨".."⟩) rest
    else dir :: (entryFor? (c.shown t dir) part).elim []
      (fun name => stations t (c.list t dir).2 (dir.join ⟨name⟩) rest)

def asked (t : FileTree) (c : Listings) (base : Path) (value : String) : List Path :=
  if isGenerated value then [] else stations t c (startOf base value) (parts (normalize value))

def askedBy (t : FileTree) : Listings → List (Path × String) → List Path
  | _, [] => []
  | c, (base, value) :: rest => asked t c base value ++ askedBy t (check t c base value).2 rest

def firstOf? (log : List Path) (k : List Path.Component) : Option Path :=
  log.find? (fun p => decide (p.components = k))

theorem firstOf?_append (log log' : List Path) (k : List Path.Component) :
    firstOf? (log ++ log') k = (firstOf? log k).or (firstOf? log' k) :=
  List.find?_append

theorem components_firstOf? {k : List Path.Component} {p : Path} (h : firstOf? log k = some p) :
    p.components = k := by
  unfold firstOf? at h
  simpa using List.find?_some h

/-- What is kept is what was listed under the first text of each directory. -/
def Listings.Recalls (c : Listings) (t : FileTree) (log : List Path) : Prop :=
  ∀ k : List Path.Component, c.known[k]? = (firstOf? log k).map t.list?

theorem recalls_empty (t : FileTree) : empty.Recalls t [] := by
  intro k
  simp [empty, firstOf?]

theorem Listings.Recalls.shown (h : c.Recalls t log) (dir : Path) :
    c.shown t dir = t.list? ((firstOf? log dir.components).getD dir) := by
  rw [Listings.shown, h]
  cases firstOf? log dir.components <;> rfl

theorem Listings.Recalls.list (h : c.Recalls t log) (dir : Path) : (c.list t dir).2.Recalls t (log ++ [dir]) := by
  intro k
  rw [known_list, firstOf?_append]
  split
  next hk =>
    subst hk
    rw [h.shown]
    cases hf : firstOf? log dir.components with
    | none => simp [firstOf?]
    | some p => rfl
  next hk =>
    rw [h]
    simp [firstOf?, Ne.symm hk]

theorem Listings.Recalls.follow (h : c.Recalls t log) (dir : Path) (ws : List String) :
    (follow t c dir ws).2.Recalls t (log ++ stations t c dir ws) := by
  induction ws generalizing c log dir with
  | nil =>
    rw [stations, List.append_nil]
    exact h
  | cons part rest ih =>
    by_cases hp : part = ".."
    · subst hp
      rw [follow_up, stations, if_pos rfl]
      exact ih h _
    · rw [stations, if_neg hp]
      cases he : entryFor? (c.shown t dir) part with
      | none =>
        rw [follow_stop hp rest he]
        exact h.list dir
      | some name =>
        rw [follow_enter hp rest he]
        simpa using ih (h.list dir) (dir.join ⟨name⟩)

theorem Listings.Recalls.check (h : c.Recalls t log) (base : Path) (value : String) :
    (check t c base value).2.Recalls t (log ++ asked t c base value) := by
  unfold asked
  cases hv : isGenerated value with
  | true =>
    rw [check_of_generated hv]
    simpa using h
  | false =>
    rw [check_eq hv, if_neg Bool.false_ne_true]
    dsimp only
    exact h.follow (startOf base value) (parts (normalize value))

theorem Listings.Recalls.foldl (h : c.Recalls t log) (history : List (Path × String)) :
    (history.foldl (fun c request => (Sample.check t c request.1 request.2).2) c).Recalls t
      (log ++ askedBy t c history) := by
  induction history generalizing c log with
  | nil => simpa [askedBy] using h
  | cons request rest ih =>
    rw [List.foldl_cons, askedBy, ← List.append_assoc]
    exact ih (h.check _ _)

theorem recalls_after (t : FileTree) (history : List (Path × String)) :
    (after t history).Recalls t (askedBy t .empty history) :=
  (recalls_empty t).foldl history

theorem follow_agree {c' : Listings} {ws : List String}
    (h : ∀ q ∈ stations t c' dir ws, c.shown t q = c'.shown t q) :
    (follow t c dir ws).1 = (follow t c' dir ws).1 := by
  induction ws generalizing c c' dir with
  | nil => rfl
  | cons part rest ih =>
    rw [stations] at h
    by_cases hp : part = ".."
    · subst hp
      rw [if_pos rfl] at h
      rw [follow_up, follow_up, ih h]
    · rw [if_neg hp, List.forall_mem_cons] at h
      obtain ⟨hdir, h⟩ := h
      cases he : entryFor? (c'.shown t dir) part with
      | none => rw [follow_stop hp rest he, follow_stop hp rest (hdir ▸ he)]
      | some name =>
        rw [he] at h
        rw [follow_enter hp rest he, follow_enter hp rest (hdir ▸ he)]
        dsimp only
        rw [ih]
        -- the listing that both have just kept is the same
        intro q hq
        rw [Listings.shown, Listings.shown, known_list, known_list, hdir]
        split
        · rfl
        · exact h q hq

theorem check_agree {c' : Listings} (h : ∀ q ∈ asked t c' base value, c.shown t q = c'.shown t q) :
    (check t c base value).1 = (check t c' base value).1 := by
  cases hv : isGenerated value with
  | true => rw [check_of_generated hv, check_of_generated hv]
  | false =>
    rw [asked, hv, if_neg Bool.false_ne_true] at h
    rw [check_eq hv, check_eq hv]
    dsimp only
    rw [follow_agree h]

/-- Where a directory that a value alone asks for was asked for before, its text and the first one are both
too long for a path or both short enough. -/
def ListedAlike (t : FileTree) (history : List (Path × String)) (base : Path) (value : String) : Prop :=
  ∀ q ∈ asked t .empty base value, ∀ p, firstOf? (askedBy t .empty history) q.components = some p →
    (FileTree.maxPathBytes < p.text.utf8ByteSize ↔ FileTree.maxPathBytes < q.text.utf8ByteSize)

theorem list?_congr {p q : Path} (hc : p.components = q.components)
    (hl : FileTree.maxPathBytes < p.text.utf8ByteSize ↔ FileTree.maxPathBytes < q.text.utf8ByteSize) :
    t.list? p = t.list? q := by
  unfold FileTree.list?
  rw [hc]
  simp only [hl]

theorem check_after {history : List (Path × String)} (h : ListedAlike t history base value) :
    (check t (.after t history) base value).1 = (check t .empty base value).1 := by
  apply check_agree
  intro q hq
  rw [(recalls_after t history).shown, shown_empty]
  cases hf : firstOf? (askedBy t .empty history) q.components with
  | none => rfl
  | some p =>
    exact list?_congr (components_firstOf? hf) (h q hq p hf)

end Recalls

end Sample

end Sfz
