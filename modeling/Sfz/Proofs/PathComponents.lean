import Mathlib.Data.List.Nodup
import Sfz.Proofs.FilePaths

namespace Sfz

theorem utf8ByteSize_replicate (c : Char) (n : Nat) :
    (String.ofList (List.replicate n c)).utf8ByteSize = n * c.utf8Size := by
  induction n with
  | zero => rw [Nat.zero_mul]; rfl
  | succ n ih =>
    rw [List.replicate_succ, String.ofList_cons, String.utf8ByteSize_append, String.utf8ByteSize_singleton, ih,
      Nat.succ_mul, Nat.add_comm]

namespace Path

theorem split_slash (as bs : List Char) : split (as ++ '/' :: bs) = split as ++ split bs := by
  induction as with
  | nil => simp [split]
  | cons c as ih =>
    rw [List.cons_append, split, split, ih]
    split
    · rfl
    · obtain ⟨p, ps, hp⟩ := List.exists_cons_of_ne_nil (split_ne_nil as)
      rw [hp]
      rfl

theorem isAbsolute_of_not_mem {part : String} (h : '/' ∉ part.toList) : (⟨part⟩ : Path).isAbsolute = false := by
  unfold isAbsolute
  cases hl : part.toList with
  | nil => rfl
  | cons c cs =>
    rw [hl] at h
    simpa using Ne.symm (List.ne_and_not_mem_of_not_mem_cons h).1

theorem pieces_join_part {part : String} (h : '/' ∉ part.toList) (dir : Path) :
    ∃ ps last, dir.pieces = ps ++ last ∧ (last = [] ∨ last = [""]) ∧
      (dir.join ⟨part⟩).pieces = ps ++ [part] ∧ (dir.join ⟨part⟩).isAbsolute = dir.isAbsolute := by
  have hpart := isAbsolute_of_not_mem h
  have hsplit : (split part.toList).map String.ofList = [part] := by
    rw [split_of_not_mem h, List.map_singleton, String.ofList_toList]
  obtain ⟨text⟩ := dir
  rcases List.eq_nil_or_concat' text.toList with ht | ⟨front, c, ht⟩
  · obtain rfl := String.toList_eq_nil_iff.mp ht
    have hjoin : join ⟨""⟩ ⟨part⟩ = ⟨part⟩ := by
      simp [join, hpart]
    refine ⟨[], [""], rfl, .inr rfl, ?_, ?_⟩
    · rw [hjoin]
      exact pieces_of_not_mem h
    · rw [hjoin]
      exact hpart
  · have hne : text.isEmpty = false := by
      rw [Bool.eq_false_iff]
      intro he
      rw [String.isEmpty_iff.mp he] at ht
      simp at ht
    by_cases hc : c = '/'
    · subst hc
      have hjoin : (join ⟨text⟩ ⟨part⟩).text.toList = front ++ '/' :: part.toList := by
        simp [join, hpart, ht]
      refine ⟨(split front).map String.ofList, [""], ?_, .inr rfl, ?_, ?_⟩
      · rw [pieces, ht, split_slash, List.map_append]
        rfl
      · rw [pieces, hjoin, split_slash, List.map_append, hsplit]
      · rw [isAbsolute, isAbsolute, hjoin, ht]
        cases front <;> rfl
    · have hjoin : (join ⟨text⟩ ⟨part⟩).text.toList = text.toList ++ '/' :: part.toList := by
        simp [join, hpart, hne, ht, hc]
      refine ⟨(split text.toList).map String.ofList, [], ?_, .inl rfl, ?_, ?_⟩
      · rw [pieces, List.append_nil]
      · rw [pieces, hjoin, split_slash, List.map_append, hsplit]
      · rw [isAbsolute, isAbsolute, hjoin, ht]
        cases front <;> rfl

theorem size_join_le (p : Path) {q : Path} (h : q.isAbsolute = false) :
    p.text.utf8ByteSize + q.text.utf8ByteSize ≤ (p.join q).text.utf8ByteSize := by
  rw [join, h, if_neg Bool.false_ne_true]
  split
  next => exact String.utf8ByteSize_append.ge
  next =>
    rw [String.utf8ByteSize_append, String.utf8ByteSize_append]
    omega

theorem componentsOf_append (ps qs : List String) :
    componentsOf (ps ++ qs) = componentsOf ps ++ componentsOf qs := by
  simp [componentsOf]

theorem components_of_absolute {p : Path} (h : p.isAbsolute = true) :
    p.components = .root :: componentsOf p.pieces :=
  if_pos h

theorem components_of_here {p : Path} {ps : List String} (h : p.isAbsolute = false)
    (hp : p.pieces = "." :: ps) : p.components = .here :: componentsOf ps := by
  simp [components, h, hp]

theorem components_of_plain {p : Path} (h : p.isAbsolute = false) (hp : p.pieces.head? ≠ some ".") :
    p.components = componentsOf p.pieces := by
  simp only [components, h, Bool.false_eq_true, if_false]
  split
  next hd => simp [hd] at hp
  next => rfl

theorem components_join {part : String} (h : '/' ∉ part.toList) (hidle : isIdle part = false) (dir : Path) :
    (dir.join ⟨part⟩).components = dir.components ++ [componentOf part] := by
  obtain ⟨ps, last, hdir, hlast, hjoin, habs⟩ := pieces_join_part h dir
  have hempty : componentsOf last = [] := by
    rcases hlast with rfl | rfl <;> decide
  have hone : componentsOf [part] = [componentOf part] := by
    simp [componentsOf, hidle]
  have hdot : part ≠ "." := by
    rintro rfl
    simp [isIdle] at hidle
  cases ha : dir.isAbsolute with
  | true =>
    rw [components_of_absolute ha, components_of_absolute (habs.trans ha), hdir, hjoin]
    simp [componentsOf_append, hempty, hone]
  | false =>
    cases ps with
    | nil =>
      have hlastne : last.head? ≠ some "." := by
        rcases hlast with rfl | rfl <;> decide
      rw [components_of_plain ha (by simpa [hdir] using hlastne),
        components_of_plain (habs.trans ha) (by simpa [hjoin] using hdot), hdir, hjoin]
      simp [hempty, hone]
    | cons q qs =>
      by_cases hq : q = "."
      · subst hq
        rw [components_of_here ha hdir, components_of_here (habs.trans ha) hjoin]
        simp [componentsOf_append, hempty, hone]
      · rw [components_of_plain ha (by simpa [hdir] using hq),
          components_of_plain (habs.trans ha) (by simpa [hjoin] using hq), hdir, hjoin]
        rw [componentsOf_append, componentsOf_append, hempty, hone, List.append_nil]

theorem componentOf_of_isFileName {name : String} (h : isFileName name = true) : componentOf name = .name name := by
  rw [componentOf, if_neg (by simpa using ne_up_of_isFileName h)]

theorem components_join_name {name : String} (h : isFileName name = true) (p : Path) :
    (p.join ⟨name⟩).components = p.components ++ [.name name] := by
  rw [components_join (not_mem_of_isFileName h) (isIdle_of_isFileName h), componentOf_of_isFileName h]

theorem componentsOf_names {names : List String} (h : ∀ name ∈ names, isFileName name = true) :
    componentsOf names = names.map .name := by
  have hidle : names.filter (fun p => !isIdle p) = names :=
    List.filter_eq_self.mpr (fun name hname => by rw [isIdle_of_isFileName (h name hname)]; rfl)
  rw [componentsOf, hidle]
  exact List.map_congr_left (fun name hname => componentOf_of_isFileName (h name hname))

theorem components_ofNames {names : List String} (h : ∀ name ∈ names, isFileName name = true) :
    (ofNames names).components = .root :: names.map .name := by
  have hpieces : (ofNames names).pieces = "" :: (⟨"/".intercalate names⟩ : Path).pieces := by
    have htext : "/" ++ "/".intercalate names = "" ++ "/" ++ "/".intercalate names := by simp
    rw [ofNames, htext, pieces_cons (by simp)]
  have habs : (ofNames names).isAbsolute = true := by simp [ofNames, isAbsolute]
  rw [components_of_absolute habs, hpieces]
  cases names with
  | nil => decide
  | cons name names =>
    rw [pieces_intercalate (by simp) (fun n hn => not_mem_of_isFileName (h n hn))]
    exact congrArg (.root :: ·) (componentsOf_names h)

inductive Trims : List String → List String → Prop
  | nil : Trims [] []
  | keep (piece : String) {ps qs : List String} (h : Trims ps qs) : Trims (piece :: ps) (piece :: qs)
  | drop {piece : String} (hi : isIdle piece = true) {ps qs : List String} (h : Trims ps qs) :
      Trims (piece :: ps) qs

namespace Trims

theorem refl (ps : List String) : Trims ps ps := by
  induction ps with
  | nil => exact .nil
  | cons p ps ih => exact .keep p ih

theorem append_left {ps qs : List String} (h : Trims ps qs) (rs : List String) :
    Trims (rs ++ ps) (rs ++ qs) := by
  induction rs with
  | nil => exact h
  | cons r rs ih => exact .keep r ih

theorem filter (ps : List String) : Trims ps (ps.filter (fun p => !isIdle p)) := by
  induction ps with
  | nil => exact .nil
  | cons p ps ih =>
    cases hp : isIdle p with
    | true => simpa [hp] using Trims.drop hp ih
    | false => simpa [hp] using Trims.keep p ih

theorem of_nil {ps : List String} (h : Trims ps []) : ∀ p ∈ ps, isIdle p = true := by
  generalize hq : ([] : List String) = qs at h
  induction h with
  | nil => simp
  | keep piece h ih => cases hq
  | drop hi h ih => exact List.forall_mem_cons.mpr ⟨hi, ih hq⟩

theorem of_cons {ps qs : List String} {q : String} (h : Trims ps (q :: qs)) :
    ∃ idle ps', ps = idle ++ q :: ps' ∧ (∀ p ∈ idle, isIdle p = true) ∧ Trims ps' qs := by
  generalize hq : q :: qs = rs at h
  induction h with
  | nil => cases hq
  | @keep piece ps rs h ih =>
    obtain ⟨rfl, rfl⟩ := List.cons.inj hq
    exact ⟨[], ps, rfl, by simp, h⟩
  | @drop piece hi ps rs h ih =>
    obtain ⟨idle, ps', rfl, hidle, hps⟩ := ih hq
    exact ⟨piece :: idle, ps', rfl, List.forall_mem_cons.mpr ⟨hi, hidle⟩, hps⟩

end Trims

theorem map_piece_componentsOf (ps : List String) :
    (componentsOf ps).map Component.piece = ps.filter (fun p => !isIdle p) := by
  rw [componentsOf, List.map_map]
  refine (List.map_congr_left fun p _ => ?_).trans (List.map_id _)
  by_cases hp : p = ".."
  · subst hp
    rfl
  · simp [componentOf, hp, Component.piece]

theorem trims_components (p : Path) : Trims p.pieces (p.components.map Component.piece) := by
  cases ha : p.isAbsolute with
  | true =>
    obtain ⟨q, qs, hp⟩ := (isAbsolute_iff p).mp ha
    rw [components_of_absolute ha, List.map_cons, map_piece_componentsOf, hp]
    exact .keep "" (.filter (q :: qs))
  | false =>
    by_cases hh : p.pieces.head? = some "."
    · obtain ⟨qs, hp⟩ := List.head?_eq_some_iff.mp hh
      rw [components_of_here ha hp, List.map_cons, map_piece_componentsOf, hp]
      exact .keep "." (.filter qs)
    · rw [components_of_plain ha hh, map_piece_componentsOf]
      exact .filter p.pieces

theorem components_ne_nil {p : Path} (h : p.text.isEmpty = false) : p.components ≠ [] := by
  cases ha : p.isAbsolute with
  | true => simp [components_of_absolute ha]
  | false =>
    by_cases hh : p.pieces.head? = some "."
    · obtain ⟨qs, hp⟩ := List.head?_eq_some_iff.mp hh
      simp [components_of_here ha hp]
    · -- the first piece begins with the first character of the text
      obtain ⟨c, cs, hc⟩ : ∃ c cs, p.text.toList = c :: cs := by
        apply List.exists_cons_of_ne_nil
        rw [← Bool.not_eq_true, String.isEmpty_iff] at h
        simpa using h
      have hslash : c ≠ '/' := by
        rintro rfl
        simp [isAbsolute, hc] at ha
      obtain ⟨q, qs, hq⟩ := List.exists_cons_of_ne_nil (split_ne_nil cs)
      have hp : p.pieces = String.ofList (c :: q) :: qs.map String.ofList := by
        rw [pieces, hc, split, if_neg hslash, hq]
        rfl
      have hidle : isIdle (String.ofList (c :: q)) = false := by
        rw [hp] at hh
        simpa [isIdle] using hh
      rw [components_of_plain ha hh, hp, componentsOf, List.filter_cons_of_pos (by rw [hidle]; rfl)]
      exact List.cons_ne_nil _ _

theorem head?_components (p : Path) : p.components.head? = some .root ↔ p.isAbsolute = true := by
  cases ha : p.isAbsolute with
  | true => simp [components_of_absolute ha]
  | false =>
    simp only [Bool.false_eq_true, iff_false]
    by_cases hh : p.pieces.head? = some "."
    · obtain ⟨qs, hp⟩ := List.head?_eq_some_iff.mp hh
      simp [components_of_here ha hp]
    · rw [components_of_plain ha hh, componentsOf, List.head?_map]
      intro h
      obtain ⟨piece, -, hroot⟩ := Option.map_eq_some_iff.mp h
      unfold componentOf at hroot
      split at hroot <;> simp at hroot

end Path

namespace FileTree

open Sfz.Path

variable {t : FileTree}

theorem walk_trims {links : Nat} {l k : Location} {ps qs : List String} (h : t.walk links l ps = .ok k)
    (hq : Trims ps qs) : t.walk links l qs = .ok k := by
  fun_induction walk t links l ps generalizing qs with
  | case1 links l =>
    cases hq
    rwa [walk]
  | case3 links l piece rest d hd hi ih =>
    cases hq with
    | keep _ hq => rw [walk_idle hd hi, ih h hq]
    | drop _ hq => exact ih h hq
  | case4 links l piece rest d hd hi hu ih =>
    cases hq with
    | keep _ hq => rw [walk_up hd hi hu, ih h hq]
    | drop hi' => exact absurd hi' hi
  | case8 l piece rest d hd hi hu hn k he target ho links ih =>
    cases hq with
    | keep _ hq =>
      rw [walk_link hd hi hu hn he ho]
      exact ih h (hq.append_left _)
    | drop hi' => exact absurd hi' hi
  | case9 links l piece rest d hd hi hu hn k he ho ih =>
    cases hq with
    | keep _ hq => rw [walk_entry hd hi hu hn he ho, ih h hq]
    | drop hi' => exact absurd hi' hi
  | _ => simp at h

theorem walk_idles {l : Location} {d : Directory} (hd : t.directory? l = some d) {idle : List String}
    (h : ∀ p ∈ idle, isIdle p = true) (links : Nat) (ps : List String) :
    t.walk links l (idle ++ ps) = t.walk links l ps := by
  induction idle with
  | nil => rfl
  | cons p idle ih =>
    obtain ⟨hp, hidle⟩ := List.forall_mem_cons.mp h
    rw [List.cons_append, walk_idle hd hp, ih hidle]

theorem walk_of_trims {links : Nat} {l k : Location} {ps qs : List String} (h : t.walk links l qs = .ok k)
    {d : Directory} (hk : t.directory? k = some d) (hq : Trims ps qs) : t.walk links l ps = .ok k := by
  fun_induction walk t links l qs generalizing ps with
  | case1 links l =>
    obtain rfl := Except.ok.inj h
    rw [← List.append_nil ps, walk_idles hk hq.of_nil, walk]
  | case3 links l piece rest d hd hi ih =>
    obtain ⟨idle, ps', rfl, hidle, hps⟩ := hq.of_cons
    rw [walk_idles hd hidle, walk_idle hd hi, ih h hps]
  | case4 links l piece rest d hd hi hu ih =>
    obtain ⟨idle, ps', rfl, hidle, hps⟩ := hq.of_cons
    rw [walk_idles hd hidle, walk_up hd hi hu, ih h hps]
  | case8 l piece rest d hd hi hu hn k he target ho links ih =>
    obtain ⟨idle, ps', rfl, hidle, hps⟩ := hq.of_cons
    rw [walk_idles hd hidle, walk_link hd hi hu hn he ho]
    exact ih h (hps.append_left _)
  | case9 links l piece rest d hd hi hu hn k he ho ih =>
    obtain ⟨idle, ps', rfl, hidle, hps⟩ := hq.of_cons
    rw [walk_idles hd hidle, walk_entry hd hi hu hn he ho, ih h hps]
  | _ => simp at h

theorem nul_not_mem_of_walk {links : Nat} {l k : Location} {ps : List String} (h : t.walk links l ps = .ok k) :
    ∀ p ∈ ps, Char.ofNat 0 ∉ p.toList := by
  fun_induction walk t links l ps with
  | case1 => simp
  | case3 links l piece rest d hd hi ih =>
    refine List.forall_mem_cons.mpr ⟨?_, ih h⟩
    simp only [isIdle, Bool.or_eq_true, String.isEmpty_iff, beq_iff_eq] at hi
    rcases hi with rfl | rfl <;> decide
  | case4 links l piece rest d hd hi hu ih =>
    refine List.forall_mem_cons.mpr ⟨?_, ih h⟩
    obtain rfl := beq_iff_eq.mp hu
    decide
  | case8 l piece rest d hd hi hu hn k he target ho links ih =>
    have hmem := (lookup_eq_some_iff_mem (nodup_names hd) _ _).mp he
    have hname := (t.fits l _ (object?_of_directory? hd)).named _ hmem
    refine List.forall_mem_cons.mpr ⟨nul_not_mem_of_isFileName hname, fun p hp => ?_⟩
    exact ih h p (List.mem_append_right _ hp)
  | case9 links l piece rest d hd hi hu hn k he ho ih =>
    have hmem := (lookup_eq_some_iff_mem (nodup_names hd) _ _).mp he
    have hname := (t.fits l _ (object?_of_directory? hd)).named _ hmem
    exact List.forall_mem_cons.mpr ⟨nul_not_mem_of_isFileName hname, ih h⟩
  | _ => simp at h

theorem locate_components {p : Path} {l : Location} (h : t.locate p = .ok l) :
    t.walk maxLinks (if p.components.head? = some .root then 0 else t.working)
      (p.components.map Component.piece) = .ok l := by
  obtain ⟨-, -, -, hw⟩ := locate_eq_ok.mp h
  simp only [head?_components]
  exact walk_trims hw p.trims_components

theorem list?_eq_some {p : Path} {names : List String} : t.list? p = some names ↔
    ∃ l d, t.locate p = .ok l ∧ t.directory? l = some d ∧ d.entries.map Prod.fst = names := by
  unfold list?
  constructor
  · intro h
    obtain ⟨hsize, h⟩ := Option.ite_none_left_eq_some.mp h
    obtain ⟨hempty, h⟩ := Option.ite_none_left_eq_some.mp h
    split at h
    next l hw =>
      obtain ⟨d, hd, hnames⟩ := Option.map_eq_some_iff.mp h
      simp only [head?_components] at hw
      have hraw := walk_of_trims hw hd p.trims_components
      refine ⟨l, d, locate_eq_ok.mpr ⟨?_, ?_, Nat.not_lt.mp hsize, hraw⟩, hd, hnames⟩
      · rw [← Bool.not_eq_true, String.isEmpty_iff]
        intro htext
        apply hempty
        rw [show p = ⟨""⟩ from congrArg Path.mk htext]
        decide
      · rw [List.contains_eq_mem, decide_eq_false_iff_not]
        intro hnul
        obtain ⟨piece, hpiece, hmem⟩ := exists_mem_split hnul (by decide)
        exact nul_not_mem_of_walk hraw _ (List.mem_map_of_mem hpiece) (by rwa [String.toList_ofList])
    next => simp at h
  · rintro ⟨l, d, hl, hd, hnames⟩
    obtain ⟨htext, -, hsize, -⟩ := locate_eq_ok.mp hl
    have hempty : ¬p.components.isEmpty = true := by
      rw [List.isEmpty_iff]
      exact components_ne_nil htext
    rw [if_neg (Nat.not_lt.mpr hsize), listComponents?, if_neg hempty, locate_components hl]
    simp [hd, hnames]

theorem At.isFileName {names : List String} {l : Location} (h : t.At names l) :
    ∀ name ∈ names, isFileName name = true := by
  induction h with
  | root => simp
  | entry _ hd he ih =>
    intro n hn
    rcases List.mem_append.mp hn with hn | hn
    · exact ih n hn
    · obtain rfl := List.mem_singleton.mp hn
      have hmem := (lookup_eq_some_iff_mem (nodup_names hd) _ _).mp he
      exact (t.fits _ _ (object?_of_directory? hd)).named _ hmem

theorem At.unique {names : List String} {l l' : Location} (h : t.At names l) (h' : t.At names l') : l = l' := by
  induction h generalizing l' with
  | root =>
    generalize hn : ([] : List String) = names at h'
    cases h' with
    | root => rfl
    | entry => simp at hn
  | @entry names l k d name _ hd he ih =>
    generalize hn : names ++ [name] = names' at h'
    cases h' with
    | root => simp at hn
    | entry h' hd' he' =>
      obtain ⟨rfl, hname⟩ := List.append_inj' hn rfl
      obtain rfl := List.singleton_inj.mp hname
      obtain rfl := ih h'
      obtain rfl := Option.some.inj (hd.symm.trans hd')
      exact Option.some.inj (he.symm.trans he')

theorem At.eq_nil {names : List String} (h : t.At names 0) : names = [] := by
  generalize hl : (0 : Location) = l at h
  cases h with
  | root => rfl
  | entry _ hd he =>
    have hmem := (lookup_eq_some_iff_mem (nodup_names hd) _ _).mp he
    have hlt := ((t.fits _ _ (object?_of_directory? hd)).behind _ hmem).1
    exact absurd (hl ▸ hlt) (Nat.not_lt_zero _)

theorem At.walk {names : List String} {l k : Location} (h : t.At names l)
    (ho : ∀ target, t.object? l ≠ some (.link target)) {links : Nat} {rest : List String}
    (hw : t.walk links 0 (names ++ rest) = .ok k) : t.walk links l rest = .ok k := by
  induction h generalizing rest with
  | root => exact hw
  | @entry names l k' d name hat hd he ih =>
    rw [List.append_assoc] at hw
    have hw := ih (by simp [object?_of_directory? hd, object?]) hw
    have hname := (hat.entry hd he).isFileName name (by simp)
    have hi : ¬isIdle name = true := by simp [isIdle_of_isFileName hname]
    have hu : ¬(name == "..") = true := by simpa using ne_up_of_isFileName hname
    by_cases hb : maxNameBytes < name.utf8ByteSize
    · rw [List.singleton_append, FileTree.walk, hd] at hw
      simp [hi, hu, hb] at hw
    · rwa [List.singleton_append, walk_entry hd hi hu hb he ho] at hw

theorem key_of_canonical? {p q : Path} {l : Location} (hl : t.locate p = .ok l) (h : t.canonical? p = some q) :
    ∃ names, t.At names l ∧ t.key p = .root :: names.map .name := by
  obtain ⟨names, rfl, hat, -⟩ := canonical?_eq_some hl h
  exact ⟨names, hat, by rw [key, h, Option.getD_some, components_ofNames hat.isFileName]⟩

theorem key_of_canonical?_none {p : Path} (h : t.canonical? p = none) : t.key p = p.components := by
  rw [key, h, Option.getD_none]

theorem names_of_key_eq {names names' : List String}
    (h : (.root :: names.map .name : FileKey) = .root :: names'.map .name) : names = names' :=
  List.map_injective_iff.mpr (fun _ _ => Component.name.inj) (List.cons.inj h).2

theorem location_of_key_eq_names {p : Path} {l k : Location} {names : List String} (hl : t.At names l)
    (ho : ∀ target, t.object? l ≠ some (.link target)) (hp : t.locate p = .ok k)
    (hc : p.components = .root :: names.map .name) : l = k := by
  have hw := locate_components hp
  have hpieces : (names.map Component.name).map Component.piece = names := by
    rw [List.map_map]
    exact List.map_id names
  rw [hc, List.map_cons, hpieces, List.head?_cons, if_pos rfl] at hw
  have hw := walk_trims hw (.drop (by decide) (.refl names))
  rw [← List.append_nil names] at hw
  have hw := hl.walk ho hw
  rw [FileTree.walk] at hw
  exact Except.ok.inj hw

theorem location_of_key_eq {p q : Path} {l k : Location} (hl : t.locateFile? p = some l)
    (hk : t.locateFile? q = some k) (h : t.key p = t.key q) : l = k := by
  obtain ⟨hp, hlf⟩ := locateFile?_eq_some.mp hl
  obtain ⟨hq, hkf⟩ := locateFile?_eq_some.mp hk
  have not_link {j : Location} (hj : j ∈ t.files) : ∀ target, t.object? j ≠ some (.link target) := by
    obtain ⟨text, ho⟩ := mem_files_iff.mp hj
    simp [ho]
  cases hcp : t.canonical? p with
  | some p' =>
    obtain ⟨names, hat, hkey⟩ := key_of_canonical? hp hcp
    cases hcq : t.canonical? q with
    | some q' =>
      obtain ⟨names', hat', hkey'⟩ := key_of_canonical? hq hcq
      obtain rfl := names_of_key_eq (hkey.symm.trans (h.trans hkey'))
      exact hat.unique hat'
    | none =>
      exact location_of_key_eq_names hat (not_link hlf) hq
        ((key_of_canonical?_none hcq).symm.trans (h.symm.trans hkey))
  | none =>
    have hkey := key_of_canonical?_none hcp
    cases hcq : t.canonical? q with
    | some q' =>
      obtain ⟨names', hat', hkey'⟩ := key_of_canonical? hq hcq
      exact (location_of_key_eq_names hat' (not_link hkf) hp (hkey.symm.trans (h.trans hkey'))).symm
    | none =>
      have hw := locate_components hp
      rw [← hkey, h, key_of_canonical?_none hcq] at hw
      exact Except.ok.inj (hw.symm.trans (locate_components hq))

def HasOnePath (t : FileTree) (l : Location) : Prop :=
  ∀ names names', t.At names l → t.At names' l → names = names'

theorem hasOnePath_ofTexts {entries : List (String × Location)} {texts : List String}
    (h : (FileObject.directory ⟨0, entries⟩).Fits (texts.length + 1) 0) (hd : (entries.map Prod.snd).Nodup)
    (l : Location) : (ofTexts entries texts h).HasOnePath l := by
  have hentry {names : List String} (hat : (ofTexts entries texts h).At names l) :
      names = [] ∧ l = 0 ∨ ∃ name, names = [name] ∧ (name, l) ∈ entries := by
    cases hat with
    | root => exact .inl ⟨rfl, rfl⟩
    | @entry names k _ d name hat hdir he =>
      have hroot : k = 0 := by
        cases k with
        | zero => rfl
        | succ k =>
          have ho := object?_of_directory? hdir
          simp [ofTexts] at ho
      subst hroot
      obtain rfl := hat.eq_nil
      obtain rfl := Option.some.inj ((show (ofTexts entries texts h).directory? 0 = some ⟨0, entries⟩ from rfl).symm.trans
        hdir)
      exact .inr ⟨name, rfl, (lookup_eq_some_iff_mem h.distinct _ _).mp he⟩
  intro names names' hat hat'
  rcases hentry hat with ⟨rfl, rfl⟩ | ⟨name, rfl, hmem⟩
  · exact hat'.eq_nil.symm
  · rcases hentry hat' with ⟨rfl, rfl⟩ | ⟨name', rfl, hmem'⟩
    · exact absurd (h.behind _ hmem).1 (Nat.lt_irrefl 0)
    · have hsame := List.inj_on_of_nodup_map hd hmem hmem' rfl
      rw [(Prod.mk.inj hsame).1]

end FileTree

end Sfz
