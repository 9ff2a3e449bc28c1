import Sfz.CommandLine
import Sfz.Proofs.KeptListings
import Sfz.Proofs.ReportOrder

/-!
The search for instrument files. A search goes down through directories but not through links to them, and finds
each file once, in the order of paths. It fails only if the path of a directory below is too long.
-/

namespace Sfz

namespace Path

def below (p : Path) (names : List String) : Path :=
  names.foldl (fun q name => q.join ⟨name⟩) p

theorem components_below {names : List String} (h : ∀ name ∈ names, isFileName name = true) (p : Path) :
    (p.below names).components = p.components ++ names.map .name := by
  induction names generalizing p with
  | nil => simp [below]
  | cons name names ih =>
    obtain ⟨hname, hnames⟩ := List.forall_mem_cons.mp h
    change ((p.join ⟨name⟩).below names).components = _
    rw [ih hnames, components_join_name hname, List.append_assoc]
    rfl

theorem below_injective {as bs : List String} (ha : ∀ name ∈ as, isFileName name = true)
    (hb : ∀ name ∈ bs, isFileName name = true) {p : Path} (h : p.below as = p.below bs) : as = bs := by
  have hcomponents := congrArg components h
  rw [components_below ha, components_below hb] at hcomponents
  have hnames := List.append_cancel_left hcomponents
  exact List.map_injective_iff.mpr (fun _ _ => Component.name.inj) hnames

theorem fileName?_join {name : String} (h : isFileName name = true) (p : Path) :
    (p.join ⟨name⟩).fileName? = some name := by
  rw [fileName?, components_join_name h, List.getLast?_concat]

theorem size_le_join {name : String} (h : isFileName name = true) (p : Path) :
    p.text.utf8ByteSize + name.utf8ByteSize ≤ (p.join ⟨name⟩).text.utf8ByteSize := by
  rw [join, isAbsolute_of_isFileName h]
  simp only [Bool.false_eq_true, if_false]
  split
  · rw [String.utf8ByteSize_append]
  · rw [String.utf8ByteSize_append, String.utf8ByteSize_append]
    omega

def NamesInstrument (p : Path) : Prop :=
  ∃ stem extension, p.fileName? = some (stem ++ "." ++ extension) ∧ stem ≠ "" ∧
    extension.map Char.toLower = "sfz"

theorem extension?_eq_some_iff {p : Path} {e : String} (he : '.' ∉ e.toList) :
    p.extension? = some e ↔ ∃ stem, p.fileName? = some (stem ++ "." ++ e) ∧ stem ≠ "" := by
  unfold extension?
  cases p.fileName? with
  | none => simp
  | some name =>
    rw [Option.bind_eq_bind, Option.bind_some]
    constructor
    · intro h
      have hback := List.takeWhile_append_dropWhile (p := (· ≠ '.')) (l := name.toList.reverse)
      dsimp only at h
      split at h
      next c cs hdrop =>
        rw [hdrop] at hback
        generalize name.toList.reverse.takeWhile (· ≠ '.') = run at h hback
        obtain rfl := Option.some.inj h
        refine ⟨String.ofList (cs.reverse ++ [c]), ?_, by simp⟩
        rw [Option.some.injEq, ← String.toList_inj, ← List.reverse_inj, ← hback]
        simp
      next => simp at h
    · rintro ⟨stem, hname, hstem⟩
      obtain ⟨c, cs, hcs⟩ := List.exists_cons_of_ne_nil (l := stem.toList.reverse) (by simpa using hstem)
      have hback : name.toList.reverse = e.toList.reverse ++ '.' :: (c :: cs) := by
        rw [Option.some.inj hname, ← hcs]
        simp
      have hall : ∀ x ∈ e.toList.reverse, decide (x ≠ '.') = true := by
        intro x hx
        rw [decide_eq_true_eq]
        rintro rfl
        exact he (List.mem_reverse.mp hx)
      dsimp only
      rw [hback, List.dropWhile_append_of_pos hall, List.takeWhile_append_of_pos hall]
      simp

theorem dot_not_mem {e : String} (h : e.map Char.toLower = "sfz") : '.' ∉ e.toList := by
  intro hdot
  have hlower : (Char.toLower '.') ∈ (e.map Char.toLower).toList := by
    rw [String.toList_map]
    exact List.mem_map_of_mem hdot
  rw [h] at hlower
  revert hlower
  decide

end Path

namespace FileTree

open Sfz.Path

variable {t : FileTree}

theorem isInstrument_iff {p : Path} : isInstrument p = true ↔ p.NamesInstrument := by
  simp only [isInstrument, Option.any_eq_true, beq_iff_eq, NamesInstrument]
  constructor
  · rintro ⟨e, he, hlower⟩
    obtain ⟨stem, hname, hstem⟩ := (extension?_eq_some_iff (dot_not_mem hlower)).mp he
    exact ⟨stem, e, hname, hstem, hlower⟩
  · rintro ⟨stem, e, hname, hstem, hlower⟩
    exact ⟨e, (extension?_eq_some_iff (dot_not_mem hlower)).mpr ⟨stem, hname, hstem⟩, hlower⟩

/-- The last directory on the way and the object are given by their locations. -/
inductive Lies (t : FileTree) : Location → List String → Location → Location → Prop
  | entry {l k : Location} {d : Directory} {name : String} (hd : t.directory? l = some d)
      (he : (name, k) ∈ d.entries) : Lies t l [name] l k
  | enter {l m dir k : Location} {d : Directory} {name : String} {names : List String}
      (hd : t.directory? l = some d) (he : (name, m) ∈ d.entries) (h : Lies t m names dir k) :
      Lies t l (name :: names) dir k

theorem entry_fits {l : Location} {d : Directory} (hd : t.directory? l = some d) {e : String × Location}
    (he : e ∈ d.entries) : isFileName e.1 = true ∧ l < e.2 := by
  have hfits := t.fits l _ (object?_of_directory? hd)
  exact ⟨hfits.named e he, (hfits.behind e he).1⟩

theorem Lies.isFileName {l dir k : Location} {names : List String} (h : t.Lies l names dir k) :
    ∀ name ∈ names, isFileName name = true := by
  induction h with
  | entry hd he => simpa using (entry_fits hd he).1
  | enter hd he h ih => exact List.forall_mem_cons.mpr ⟨(entry_fits hd he).1, ih⟩

def Finds (t : FileTree) (counts : Location → Path → Path → Prop) (l : Location) (p q : Path) : Prop :=
  ∃ names dir k, t.Lies l names dir k ∧ q = p.below names ∧ q.NamesInstrument ∧
    ((∃ text, t.object? k = some (.file text)) ∨ ∃ target, t.object? k = some (.link target) ∧ counts dir target q)

variable {counts counts' : Location → Path → Path → Prop} {l : Location} {d : Directory} {p q : Path}

theorem Finds.imp (h : t.Finds counts l p q) (himp : ∀ {names dir k target}, t.Lies l names dir k →
    counts dir target (p.below names) → counts' dir target (p.below names)) : t.Finds counts' l p q := by
  obtain ⟨names, dir, k, hlies, rfl, hname, hk⟩ := h
  refine ⟨names, dir, k, hlies, rfl, hname, hk.imp_right ?_⟩
  rintro ⟨target, hlink, hcounts⟩
  exact ⟨target, hlink, himp hlies hcounts⟩

theorem finds_iff (hd : t.directory? l = some d) : t.Finds counts l p q ↔
    ∃ e ∈ d.entries, (q = p.join ⟨e.1⟩ ∧ q.NamesInstrument ∧ ((∃ text, t.object? e.2 = some (.file text)) ∨
        ∃ target, t.object? e.2 = some (.link target) ∧ counts l target q)) ∨
      t.Finds counts e.2 (p.join ⟨e.1⟩) q := by
  constructor
  · rintro ⟨names, dir, k, hlies, hq, hname, hk⟩
    cases hlies with
    | @entry _ _ d' name hd' he =>
      obtain rfl : d' = d := Option.some.inj (hd'.symm.trans hd)
      exact ⟨_, he, .inl ⟨hq, hname, hk⟩⟩
    | @enter _ m _ _ d' name names hd' he h =>
      obtain rfl : d' = d := Option.some.inj (hd'.symm.trans hd)
      exact ⟨_, he, .inr ⟨names, dir, k, h, hq, hname, hk⟩⟩
  · rintro ⟨e, he, ⟨hq, hname, hk⟩ | ⟨names, dir, k, hlies, hq, hname, hk⟩⟩
    · exact ⟨[e.1], l, e.2, .entry hd he, hq, hname, hk⟩
    · exact ⟨e.1 :: names, dir, k, .enter hd he hlies, hq, hname, hk⟩

theorem not_lies {dir k : Location} {names : List String} (h : t.directory? l = none) : ¬t.Lies l names dir k := by
  intro hlies
  cases hlies with
  | entry hd he => exact absurd (h.symm.trans hd) (by simp)
  | enter hd he hlies => exact absurd (h.symm.trans hd) (by simp)

theorem not_finds (h : t.directory? l = none) : ¬t.Finds counts l p q := by
  rintro ⟨names, dir, k, hlies, -⟩
  exact not_lies h hlies

def searchEntry (t : FileTree) (n : Nat) (p : Path) (e : String × Location) : List Path :=
  match t.object? e.2 with
  | some (.file _) => if isInstrument (p.join ⟨e.1⟩) then [p.join ⟨e.1⟩] else []
  | some (.link _) => if isInstrument (p.join ⟨e.1⟩) && t.isFile (p.join ⟨e.1⟩) then [p.join ⟨e.1⟩] else []
  | some (.directory inner) => t.instrumentsBelow n (p.join ⟨e.1⟩) inner
  | none => []

theorem instrumentsBelow_succ (n : Nat) (p : Path) (d : Directory) :
    t.instrumentsBelow (n + 1) p d = d.entries.flatMap (t.searchEntry n p) :=
  rfl

theorem mem_searchEntry {n : Nat} {e : String × Location}
    (hbelow : ∀ inner, t.directory? e.2 = some inner → (q ∈ t.instrumentsBelow n (p.join ⟨e.1⟩) inner ↔
      t.Finds (fun _ _ q => t.isFile q = true) e.2 (p.join ⟨e.1⟩) q)) :
    q ∈ t.searchEntry n p e ↔ (q = p.join ⟨e.1⟩ ∧ q.NamesInstrument ∧
        ((∃ text, t.object? e.2 = some (.file text)) ∨
          ∃ target, t.object? e.2 = some (.link target) ∧ t.isFile q = true)) ∨
      t.Finds (fun _ _ q => t.isFile q = true) e.2 (p.join ⟨e.1⟩) q := by
  unfold searchEntry
  cases ho : t.object? e.2 with
  | none =>
    have hnone : t.directory? e.2 = none := by rw [directory?, ho]
    simp [not_finds hnone]
  | some o =>
    cases o with
    | file text =>
      have hnone : t.directory? e.2 = none := by rw [directory?, ho]
      rw [or_iff_left (not_finds hnone)]
      simp only [List.mem_ite_nil_right, List.mem_singleton, isInstrument_iff]
      constructor
      · rintro ⟨hname, rfl⟩
        exact ⟨rfl, hname, .inl ⟨text, rfl⟩⟩
      · rintro ⟨rfl, hname, -⟩
        exact ⟨hname, rfl⟩
    | link target =>
      have hnone : t.directory? e.2 = none := by rw [directory?, ho]
      rw [or_iff_left (not_finds hnone)]
      simp only [List.mem_ite_nil_right, List.mem_singleton, Bool.and_eq_true, isInstrument_iff]
      constructor
      · rintro ⟨⟨hname, hfile⟩, rfl⟩
        exact ⟨rfl, hname, .inr ⟨target, rfl, hfile⟩⟩
      · rintro ⟨rfl, hname, ⟨text, hk⟩ | ⟨-, -, hfile⟩⟩
        · cases hk
        · exact ⟨⟨hname, hfile⟩, rfl⟩
    | directory inner =>
      have hinner : t.directory? e.2 = some inner := by rw [directory?, ho]
      simp [hbelow inner hinner]

theorem size_le_next {n : Nat} (hd : t.directory? l = some d) {e : String × Location} (he : e ∈ d.entries)
    (hn : t.objects.size ≤ n + 1 + l) : t.objects.size ≤ n + e.2 :=
  calc t.objects.size ≤ n + 1 + l := hn
    _ = n + (l + 1) := by rw [Nat.add_assoc, Nat.add_comm 1 l]
    _ ≤ n + e.2 := Nat.add_le_add_left (entry_fits hd he).2 n

theorem mem_instrumentsBelow {n : Nat} (hd : t.directory? l = some d) (hn : t.objects.size ≤ n + l) :
    q ∈ t.instrumentsBelow n p d ↔ t.Finds (fun _ _ q => t.isFile q = true) l p q := by
  induction n generalizing l d p with
  | zero =>
    have hlt := (Array.getElem?_eq_some_iff.mp (object?_of_directory? hd)).1
    omega
  | succ n ih =>
    rw [instrumentsBelow_succ, List.mem_flatMap, finds_iff hd]
    apply exists_congr
    intro e
    rw [and_congr_right_iff]
    intro he
    exact mem_searchEntry (fun inner hinner => ih hinner (size_le_next hd he hn))

theorem components_of_finds (h : t.Finds counts l p q) : ∃ names, q.components = p.components ++ names := by
  obtain ⟨names, dir, k, hlies, rfl, -⟩ := h
  exact ⟨_, components_below hlies.isFileName p⟩

theorem components_of_mem_searchEntry {n : Nat} (hd : t.directory? l = some d) {e : String × Location}
    (he : e ∈ d.entries) (hn : t.objects.size ≤ n + 1 + l) (hq : q ∈ t.searchEntry n p e) :
    ∃ names, q.components = p.components ++ .name e.1 :: names := by
  have hjoin := components_join_name (entry_fits hd he).1 p
  rcases (mem_searchEntry (fun inner hinner => mem_instrumentsBelow hinner (size_le_next hd he hn))).mp hq with
    ⟨rfl, -⟩ | hfinds
  · exact ⟨[], hjoin⟩
  · obtain ⟨names, hnames⟩ := components_of_finds hfinds
    rw [hjoin] at hnames
    exact ⟨names, by simpa using hnames⟩

theorem pairwise_instrumentsBelow {n : Nat} (hd : t.directory? l = some d) (hn : t.objects.size ≤ n + l) :
    (t.instrumentsBelow n p d).Pairwise (fun a b => a.components ≠ b.components) := by
  induction n generalizing l d p with
  | zero => exact .nil
  | succ n ih =>
    rw [instrumentsBelow_succ, List.pairwise_flatMap]
    constructor
    · intro e he
      unfold searchEntry
      cases ho : t.object? e.2 with
      | none => exact .nil
      | some o =>
        cases o with
        | file text =>
          dsimp only
          split <;> simp
        | link target =>
          dsimp only
          split <;> simp
        | directory inner =>
          have hinner : t.directory? e.2 = some inner := by rw [directory?, ho]
          exact ih hinner (size_le_next hd he hn)
    · have hdistinct := List.pairwise_map.mp (t.fits l _ (object?_of_directory? hd)).distinct
      apply hdistinct.imp_of_mem
      intro a b ha hb hne x hx y hy hsame
      obtain ⟨xs, hxs⟩ := components_of_mem_searchEntry hd ha hn hx
      obtain ⟨ys, hys⟩ := components_of_mem_searchEntry hd hb hn hy
      rw [hxs, hys] at hsame
      have hnames := List.append_cancel_left hsame
      simp only [List.cons.injEq, Component.name.injEq] at hnames
      exact hne hnames.1

theorem directoryAt?_of_locate {l : Location} (hp : t.locate p = .ok l) : t.directoryAt? p = t.directory? l := by
  rw [directoryAt?, hp]

theorem mem_instruments (hp : t.locate p = .ok l) (hd : t.directory? l = some d) :
    q ∈ t.instruments p ↔ t.Finds (fun _ _ q => t.isFile q = true) l p q := by
  rw [instruments, directoryAt?_of_locate hp, hd]
  dsimp only
  rw [List.mem_mergeSort, mem_instrumentsBelow hd (Nat.le_add_right _ _)]

theorem pairwise_instruments (hp : t.locate p = .ok l) (hd : t.directory? l = some d) :
    (t.instruments p).Pairwise (fun a b => List.Lex Component.Before a.components b.components) := by
  have hdistinct := pairwise_instrumentsBelow (p := p) hd (Nat.le_add_right t.objects.size l)
  rw [instruments, directoryAt?_of_locate hp, hd]
  dsimp only
  generalize t.instrumentsBelow t.objects.size p d = found at hdistinct
  have hsorted : (found.mergeSort (fun a b => (a.cmp b).isLE)).Pairwise (fun a b => (a.cmp b).isLE = true) :=
    List.pairwise_mergeSort (fun _ _ _ => Std.TransCmp.isLE_trans) (fun a b => by simpa using isLE_total a b) found
  have hdistinct := (List.mergeSort_perm found (fun a b => (a.cmp b).isLE)).symm.pairwise hdistinct Ne.symm
  refine (hsorted.and hdistinct).imp ?_
  rintro a b ⟨hle, hne⟩
  rcases Ordering.isLE_iff_eq_lt_or_eq_eq.mp hle with hlt | heq
  · exact cmpComponents_eq_lt_iff.mp hlt
  · exact absurd (cmp_eq_eq_iff.mp heq) hne

section Links

def FollowedToFile (t : FileTree) (q : Path) : Prop :=
  q.text.utf8ByteSize ≤ maxPathBytes ∧
    ∃ k text, t.walk maxLinks (t.startOf q) q.pieces = .ok k ∧ t.object? k = some (.file text)

def TargetIsFile (t : FileTree) (dir : Location) (target : Path) : Prop :=
  ∃ k text, t.walk maxLinks (if target.isAbsolute then 0 else dir) target.pieces = .ok k ∧
    t.object? k = some (.file text)

theorem isFile_eq_true : t.isFile q = true ↔ ∃ k text, t.locate q = .ok k ∧ t.object? k = some (.file text) := by
  rw [isFile, Option.isSome_iff_exists]
  simp only [locateFile?_eq_some, mem_files_iff, exists_and_left]

def Askable (p : Path) : Prop :=
  p.text ≠ "" ∧ Char.ofNat 0 ∉ p.text.toList

theorem askable_of_locate (hp : t.locate p = .ok l) : Askable p := by
  rw [locate] at hp
  constructor
  · rintro hempty
    simp [hempty] at hp
  · intro hnul
    split at hp
    · cases hp
    · rw [if_pos (by simpa using hnul)] at hp
      cases hp

theorem Askable.join {name : String} (h : Askable p) (hname : isFileName name = true) : Askable (p.join ⟨name⟩) := by
  obtain ⟨hne, hnul⟩ := h
  have hnul' := nul_not_mem_of_isFileName hname
  rw [Path.join, isAbsolute_of_isFileName hname]
  simp only [Bool.false_eq_true, if_false]
  split
  · exact ⟨by simp [hne], by simp [hnul, hnul']⟩
  · refine ⟨by simp, ?_⟩
    simp [hnul, hnul']

theorem Askable.below {names : List String} (h : Askable p) (hnames : ∀ name ∈ names, isFileName name = true) :
    Askable (p.below names) := by
  induction names generalizing p with
  | nil => exact h
  | cons name names ih =>
    obtain ⟨hname, hnames⟩ := List.forall_mem_cons.mp hnames
    exact ih (h.join hname) hnames

theorem Askable.isFile_iff (h : Askable q) : t.isFile q = true ↔ t.FollowedToFile q := by
  have hempty : q.text.isEmpty = false := by simpa using h.1
  have hnul : q.text.toList.contains (Char.ofNat 0) = false := by simpa using h.2
  rw [isFile_eq_true, FollowedToFile, locate, hempty, hnul]
  by_cases hsize : maxPathBytes < q.text.utf8ByteSize
  · simp [hsize, Nat.not_le_of_lt hsize]
  · simp [hsize, Nat.le_of_not_lt hsize]

end Links

theorem mem_instruments_iff_followed (hp : t.locate p = .ok l) (hd : t.directory? l = some d) :
    q ∈ t.instruments p ↔ t.Finds (fun _ _ q => t.FollowedToFile q) l p q := by
  have hfile {names : List String} {dir k : Location} (hlies : t.Lies l names dir k) :
      t.isFile (p.below names) = true ↔ t.FollowedToFile (p.below names) :=
    ((askable_of_locate hp).below hlies.isFileName).isFile_iff
  rw [mem_instruments hp hd]
  constructor
  · exact fun h => h.imp (fun hlies => (hfile hlies).mp)
  · exact fun h => h.imp (fun hlies => (hfile hlies).mpr)

section Failure

def Searchable (t : FileTree) (l : Location) (p : Path) : Prop :=
  ∀ names dir k inner, t.Lies l names dir k → t.directory? k = some inner →
    (p.below names).text.utf8ByteSize ≤ maxPathBytes

theorem searchable_iff (hd : t.directory? l = some d) : t.Searchable l p ↔
    ∀ e ∈ d.entries, ∀ inner, t.directory? e.2 = some inner →
      (p.join ⟨e.1⟩).text.utf8ByteSize ≤ maxPathBytes ∧ t.Searchable e.2 (p.join ⟨e.1⟩) := by
  constructor
  · intro h e he inner hinner
    refine ⟨h [e.1] l e.2 inner (.entry hd he) hinner, ?_⟩
    intro names dir k inner' hlies hk
    exact h (e.1 :: names) dir k inner' (.enter hd he hlies) hk
  · intro h names dir k inner hlies hk
    cases hlies with
    | @entry _ _ d' name hd' he =>
      obtain rfl : d' = d := Option.some.inj (hd'.symm.trans hd)
      exact (h _ he inner hk).1
    | @enter _ m _ _ d' name names hd' he hlies =>
      obtain rfl : d' = d := Option.some.inj (hd'.symm.trans hd)
      cases hm : t.directory? m with
      | none => exact absurd hlies (not_lies hm)
      | some inner' => exact (h _ he inner' hm).2 names dir k inner hlies hk

theorem overlongBelow?_eq_none_iff {n : Nat} (hd : t.directory? l = some d) (hn : t.objects.size ≤ n + l) :
    t.overlongBelow? n p d = none ↔ t.Searchable l p := by
  induction n generalizing l d p with
  | zero =>
    have hlt := (Array.getElem?_eq_some_iff.mp (object?_of_directory? hd)).1
    omega
  | succ n ih =>
    rw [overlongBelow?, List.findSome?_eq_none_iff, searchable_iff hd]
    apply forall₂_congr
    intro e he
    cases hinner : t.directory? e.2 with
    | none => simp
    | some inner =>
      by_cases hsize : maxPathBytes < (p.join ⟨e.1⟩).text.utf8ByteSize
      · simp [hsize, Nat.not_le_of_lt hsize]
      · simp [hsize, Nat.le_of_not_lt hsize, ih hinner (size_le_next hd he hn)]

theorem instruments_eq_ok_iff {files : List Path} (hp : t.locate p = .ok l) (hd : t.directory? l = some d) :
    CommandLine.instruments t p = .ok files ↔ t.Searchable l p ∧ t.instruments p = files := by
  have hoverlong : t.overlong? p = none ↔ t.Searchable l p := by
    rw [overlong?, directoryAt?_of_locate hp, hd, Option.bind_some]
    exact overlongBelow?_eq_none_iff hd (Nat.le_add_right _ _)
  rw [CommandLine.instruments, ← hoverlong]
  cases t.overlong? p with
  | none => simp
  | some q => simp

theorem instruments_of_other (h : ∀ l, t.locate p = .ok l → t.directory? l = none) :
    CommandLine.instruments t p = .ok [p] := by
  have hnone : t.directoryAt? p = none := by
    cases hp : t.locate p with
    | ok l => rw [directoryAt?_of_locate hp, h l hp]
    | error e => rw [directoryAt?, hp]
  rw [CommandLine.instruments, overlong?, hnone, Option.bind_none, instruments, hnone]

end Failure

/-- A search gives the instrument files below a directory in the order of paths, each once. It passes no link to a
directory, and a link to a file counts if its path can be followed. Any other path is given back. -/
theorem search_finds_each_once (t : FileTree) (p : Path) :
    (∀ l d, t.locate p = .ok l → t.directory? l = some d →
      ((∃ files, CommandLine.instruments t p = .ok files) ↔ t.Searchable l p) ∧
      ∀ files, CommandLine.instruments t p = .ok files →
        files.Pairwise (fun a b => List.Lex Component.Before a.components b.components) ∧
        ∀ q, q ∈ files ↔ t.Finds (fun _ _ q => t.FollowedToFile q) l p q) ∧
    ((∀ l, t.locate p = .ok l → t.directory? l = none) → CommandLine.instruments t p = .ok [p]) := by
  refine ⟨?_, instruments_of_other⟩
  intro l d hp hd
  simp only [instruments_eq_ok_iff hp hd]
  constructor
  · simp
  · rintro files ⟨-, rfl⟩
    exact ⟨pairwise_instruments hp hd, fun q => mem_instruments_iff_followed hp hd⟩

def strings : FileTree where
  objects := #[.directory ⟨0, [("s", 1)]⟩, .directory ⟨0, [("x.sfz", 2), ("l.sfz", 3), ("s.sfz", 4)]⟩, .file (some ""),
    .link ⟨"x.sfz"⟩, .link ⟨"."⟩]
  working := 0
  fits := by
    have hroot : (FileObject.directory ⟨0, [("s", 1)]⟩).Fits 5 0 := by
      constructor <;> decide
    have hstrings : (FileObject.directory ⟨0, [("x.sfz", 2), ("l.sfz", 3), ("s.sfz", 4)]⟩).Fits 5 1 := by
      constructor <;> decide
    intro l o ho
    match l, ho with
    | 0, ho => exact Option.some.inj ho ▸ hroot
    | 1, ho => exact Option.some.inj ho ▸ hstrings
    | 2, ho => exact Option.some.inj ho ▸ .of_entries_eq_nil rfl
    | 3, ho => exact Option.some.inj ho ▸ .of_entries_eq_nil rfl
    | 4, ho => exact Option.some.inj ho ▸ .of_entries_eq_nil rfl

def stringsPath (n : Nat) : Path :=
  ⟨String.ofList ('s' :: List.replicate n '/')⟩

theorem pieces_stringsPath (n : Nat) : (stringsPath n).pieces = "s" :: List.replicate n "" := by
  have hsplit : Path.split ('s' :: List.replicate n '/') = ['s'] :: List.replicate n [] := by
    induction n with
    | zero => rfl
    | succ n ih => rw [List.replicate_succ', ← List.cons_append, split_slash, ih, List.replicate_succ']; rfl
  rw [Path.pieces, stringsPath, String.toList_ofList, hsplit, List.map_cons, List.map_replicate]

theorem size_stringsPath (n : Nat) : (stringsPath n).text.utf8ByteSize = n + 1 := by
  have hs : 's'.utf8Size = 1 := rfl
  have hslash : '/'.utf8Size = 1 := rfl
  rw [stringsPath, String.ofList_cons, String.utf8ByteSize_append, String.utf8ByteSize_singleton,
    utf8ByteSize_replicate, hs, hslash]
  omega

section Strings

theorem directory_strings : strings.directory? 0 = some ⟨0, [("s", 1)]⟩ ∧
    strings.directory? 1 = some ⟨0, [("x.sfz", 2), ("l.sfz", 3), ("s.sfz", 4)]⟩ :=
  ⟨rfl, rfl⟩

theorem walk_strings (links : Nat) (pieces : List String) :
    strings.walk links 0 ("s" :: pieces) = strings.walk links 1 pieces := by
  have hobject : strings.object? 1 = some (.directory ⟨0, [("x.sfz", 2), ("l.sfz", 3), ("s.sfz", 4)]⟩) := rfl
  exact walk_entry directory_strings.1 (by decide) (by decide) (by decide) rfl (by simp [hobject]) links pieces

theorem walk_slashes (links n : Nat) : strings.walk links 1 (List.replicate n "") = .ok 1 := by
  induction n with
  | zero => rw [List.replicate_zero, walk]
  | succ n ih => rw [List.replicate_succ, walk_idle directory_strings.2 (by decide), ih]

theorem walk_strings_file (links : Nat) : strings.walk links 1 ["x.sfz"] = .ok 2 := by
  have hobject : strings.object? 2 = some (.file (some "")) := rfl
  rw [walk_entry directory_strings.2 (by decide) (by decide) (by decide) rfl (by simp [hobject]), walk]

theorem walk_strings_link : strings.walk maxLinks 1 ["l.sfz"] = .ok 2 := by
  have hlink : strings.object? 3 = some (.link ⟨"x.sfz"⟩) := rfl
  have hpieces : Path.pieces ⟨"x.sfz"⟩ = ["x.sfz"] := by decide
  rw [maxLinks, walk_link directory_strings.2 (by decide) (by decide) (by decide) rfl hlink, if_neg (by decide),
    hpieces, List.append_nil, walk_strings_file]

theorem walk_strings_loop : strings.walk maxLinks 1 ["s.sfz"] = .ok 1 := by
  have hlink : strings.object? 4 = some (.link ⟨"."⟩) := rfl
  have hpieces : Path.pieces ⟨"."⟩ = ["."] := by decide
  rw [maxLinks, walk_link directory_strings.2 (by decide) (by decide) (by decide) rfl hlink, if_neg (by decide),
    hpieces, List.append_nil, walk_idle directory_strings.2 (by decide), walk]

theorem locate_stringsPath {n : Nat} (h : n < 4095) : strings.locate (stringsPath n) = .ok 1 := by
  have hempty : (stringsPath n).text.isEmpty = false := by simp [stringsPath]
  have hnul : (stringsPath n).text.toList.contains (Char.ofNat 0) = false := by simp [stringsPath]
  have hstart : strings.startOf (stringsPath n) = 0 := by simp [startOf, strings]
  rw [locate, hempty, hnul, size_stringsPath, pieces_stringsPath, hstart, maxPathBytes, if_neg (by simp),
    if_neg (by simp), if_neg (by omega), walk_strings, walk_slashes]

theorem walk_below {name : String} (hpieces : Path.pieces ⟨"s/" ++ name⟩ = ["s", name]) :
    strings.walk maxLinks (strings.startOf ⟨"s/" ++ name⟩) (Path.pieces ⟨"s/" ++ name⟩) =
      strings.walk maxLinks 1 [name] := by
  have hstart : strings.startOf ⟨"s/" ++ name⟩ = 0 := by simp [startOf, strings]
  rw [hpieces, hstart, walk_strings]

theorem locate_link : strings.locate ⟨"s/l.sfz"⟩ = .ok 2 := by
  have hpieces : Path.pieces ⟨"s/" ++ "l.sfz"⟩ = ["s", "l.sfz"] := by decide
  rw [locate, if_neg (by decide), if_neg (by decide), if_neg (by decide)]
  exact (walk_below hpieces).trans walk_strings_link

theorem followed_link : strings.FollowedToFile ⟨"s/l.sfz"⟩ := by
  have hpieces : Path.pieces ⟨"s/" ++ "l.sfz"⟩ = ["s", "l.sfz"] := by decide
  exact ⟨by decide, 2, some "", (walk_below hpieces).trans walk_strings_link, rfl⟩

theorem not_followed_loop : ¬strings.FollowedToFile ⟨"s/s.sfz"⟩ := by
  have hpieces : Path.pieces ⟨"s/" ++ "s.sfz"⟩ = ["s", "s.sfz"] := by decide
  rintro ⟨-, k, text, hk, hfile⟩
  obtain rfl : 1 = k := Except.ok.inj (((walk_below hpieces).trans walk_strings_loop).symm.trans hk)
  cases hfile

theorem lies_strings {name : String} {dir k : Location} (h : strings.Lies 1 [name] dir k) :
    (name, k) ∈ [("x.sfz", 2), ("l.sfz", 3), ("s.sfz", 4)] := by
  cases h with
  | entry hd he =>
    obtain rfl := Option.some.inj (directory_strings.2.symm.trans hd)
    exact he
  | enter hd he h => cases h

theorem searchable_strings (p : Path) : strings.Searchable 1 p := by
  apply (searchable_iff directory_strings.2).mpr
  intro e he inner hinner
  simp only [List.mem_cons, List.not_mem_nil, or_false] at he
  rcases he with rfl | rfl | rfl <;> cases hinner

/-- A link to a file is passed over where its path is too long to be followed. -/
theorem link_at_long_path_not_found :
    ¬∀ (t : FileTree) (p : Path) (l : Location) (d : Directory), t.locate p = .ok l → t.directory? l = some d →
      t.Searchable l p → ∃ files, CommandLine.instruments t p = .ok files ∧
        ∀ q, q ∈ files ↔ t.Finds (fun dir target _ => t.TargetIsFile dir target) l p q := by
  intro h
  obtain ⟨p, hp, hp'⟩ : ∃ p : Path, strings.locate p = .ok 1 ∧ p.text.utf8ByteSize = 4091 :=
    ⟨stringsPath 4090, locate_stringsPath (by decide), size_stringsPath 4090⟩
  have hname : isFileName "l.sfz" = true := by decide
  have hlong := size_le_join hname p
  have htarget : strings.TargetIsFile 1 ⟨"x.sfz"⟩ := ⟨2, some "", walk_strings_file maxLinks, rfl⟩
  have hlies : strings.Lies 1 ["l.sfz"] 1 3 := .entry directory_strings.2 (by decide)
  have hinstrument : (p.below ["l.sfz"]).NamesInstrument :=
    ⟨"l", "sfz", fileName?_join hname p, by decide, by decide +kernel⟩
  obtain ⟨files, hfiles, hmem⟩ := h _ _ _ _ hp directory_strings.2 (searchable_strings p)
  obtain ⟨-, rfl⟩ := (instruments_eq_ok_iff hp directory_strings.2).mp hfiles
  have hfound := (hmem _).mpr ⟨["l.sfz"], 1, 3, hlies, rfl, hinstrument, .inr ⟨⟨"x.sfz"⟩, rfl, htarget⟩⟩
  rw [mem_instruments_iff_followed hp directory_strings.2] at hfound
  obtain ⟨names, dir, k, hlies', hq, -, hk⟩ := hfound
  obtain rfl := below_injective hlies.isFileName hlies'.isFileName hq
  obtain rfl : k = 3 := by simpa using lies_strings hlies'
  rcases hk with ⟨text, hk⟩ | ⟨target, -, hsize, -⟩
  · cases hk
  · have hfive : "l.sfz".utf8ByteSize = 5 := by decide
    rw [hp', hfive] at hlong
    exact absurd (hlong.trans hsize) (by decide)

theorem search_finds_each_once_strings :
    (∃ files, CommandLine.instruments strings ⟨"s"⟩ = .ok files ∧ ⟨"s/l.sfz"⟩ ∈ files ∧ ⟨"s/s.sfz"⟩ ∉ files) ∧
      CommandLine.instruments strings ⟨"s/l.sfz"⟩ = .ok [⟨"s/l.sfz"⟩] := by
  have hp : strings.locate ⟨"s"⟩ = .ok 1 := locate_stringsPath (n := 0) (by decide)
  obtain ⟨hdirectory, -⟩ := search_finds_each_once strings ⟨"s"⟩
  obtain ⟨hok, hfiles⟩ := hdirectory 1 _ hp directory_strings.2
  obtain ⟨files, hsearch⟩ := hok.mpr (searchable_strings _)
  obtain ⟨-, hfound⟩ := hfiles files hsearch
  refine ⟨⟨files, hsearch, (hfound _).mpr ?_, fun hq => ?_⟩, (search_finds_each_once strings ⟨"s/l.sfz"⟩).2 ?_⟩
  · have hpath : (⟨"s/l.sfz"⟩ : Path) = Path.below ⟨"s"⟩ ["l.sfz"] := by decide +kernel
    refine ⟨["l.sfz"], 1, 3, .entry directory_strings.2 (by decide), hpath, ?_, .inr ⟨_, rfl, followed_link⟩⟩
    exact ⟨"l", "sfz", by decide +kernel, by decide, by decide +kernel⟩
  · obtain ⟨names, dir, k, hlies, hpath, -, hk⟩ := (hfound _).mp hq
    have hpath' : Path.below ⟨"s"⟩ ["s.sfz"] = ⟨"s/s.sfz"⟩ := by decide +kernel
    obtain rfl := below_injective (by decide) hlies.isFileName (hpath'.trans hpath)
    obtain rfl : k = 4 := by simpa using lies_strings hlies
    rcases hk with ⟨text, hk⟩ | ⟨target, -, hfollowed⟩
    · cases hk
    · exact not_followed_loop hfollowed
  · intro l hl
    rw [locate_link] at hl
    cases hl
    rfl

end Strings

end FileTree

end Sfz
