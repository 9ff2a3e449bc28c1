import Mathlib.Data.List.Infix
import Sfz.Inclusion
import Sfz.Proofs.Outcome

namespace Sfz.Path

theorem split_ne_nil (cs : List Char) : split cs ≠ [] := by
  cases cs with
  | nil => simp [split]
  | cons c cs =>
    rw [split]
    split
    · simp
    · split <;> simp

theorem split_of_not_mem {cs : List Char} (h : '/' ∉ cs) : split cs = [cs] := by
  induction cs with
  | nil => rfl
  | cons c cs ih =>
    obtain ⟨hc, hcs⟩ := List.ne_and_not_mem_of_not_mem_cons h
    rw [split, if_neg (Ne.symm hc), ih hcs]

theorem split_append {as : List Char} (h : '/' ∉ as) (bs : List Char) :
    split (as ++ '/' :: bs) = as :: split bs := by
  induction as with
  | nil => simp [split]
  | cons c as ih =>
    obtain ⟨hc, has⟩ := List.ne_and_not_mem_of_not_mem_cons h
    rw [List.cons_append, split, if_neg (Ne.symm hc), ih has]

theorem not_mem_of_mem_split {cs p : List Char} (h : p ∈ split cs) : '/' ∉ p := by
  induction cs generalizing p with
  | nil =>
    obtain rfl : p = [] := by simpa [split] using h
    simp
  | cons c cs ih =>
    rw [split] at h
    split at h
    next hc =>
      rcases List.mem_cons.mp h with rfl | h
      · simp
      · exact ih h
    next hc =>
      split at h
      next hq =>
        obtain rfl : p = [c] := by simpa using h
        simpa using Ne.symm hc
      next q qs hq =>
        rcases List.mem_cons.mp h with rfl | h
        · have hq' : '/' ∉ q := ih (hq ▸ List.mem_cons_self ..)
          simpa using ⟨Ne.symm hc, hq'⟩
        · exact ih (hq ▸ List.mem_cons_of_mem q h)

theorem mem_of_mem_split {cs p : List Char} (h : p ∈ split cs) {c : Char} (hc : c ∈ p) : c ∈ cs := by
  induction cs generalizing p with
  | nil =>
    obtain rfl : p = [] := by simpa [split] using h
    exact hc
  | cons d cs ih =>
    rw [split] at h
    split at h
    next =>
      rcases List.mem_cons.mp h with rfl | h
      · simp at hc
      · exact List.mem_cons_of_mem d (ih h hc)
    next =>
      split at h
      next =>
        obtain rfl : p = [d] := by simpa using h
        exact List.mem_cons.mpr (.inl (by simpa using hc))
      next q qs hq =>
        rcases List.mem_cons.mp h with rfl | h
        · rcases List.mem_cons.mp hc with rfl | hc
          · exact List.mem_cons_self ..
          · exact List.mem_cons_of_mem d (ih (hq ▸ List.mem_cons_self ..) hc)
        · exact List.mem_cons_of_mem d (ih (hq ▸ List.mem_cons_of_mem q h) hc)

theorem exists_mem_split {cs : List Char} {c : Char} (hc : c ∈ cs) (hs : c ≠ '/') : ∃ p ∈ split cs, c ∈ p := by
  induction cs with
  | nil => simp at hc
  | cons d cs ih =>
    rw [split]
    split
    next hd =>
      rcases List.mem_cons.mp hc with rfl | hc
      · exact absurd hd hs
      · obtain ⟨p, hp, hcp⟩ := ih hc
        exact ⟨p, List.mem_cons_of_mem _ hp, hcp⟩
    next =>
      split
      next hq => exact absurd hq (split_ne_nil cs)
      next q qs hq =>
        rw [hq] at ih
        rcases List.mem_cons.mp hc with rfl | hc
        · exact ⟨c :: q, List.mem_cons_self .., List.mem_cons_self ..⟩
        · obtain ⟨p, hp, hcp⟩ := ih hc
          rcases List.mem_cons.mp hp with rfl | hp
          · exact ⟨d :: p, List.mem_cons_self .., List.mem_cons_of_mem d hcp⟩
          · exact ⟨p, List.mem_cons_of_mem _ hp, hcp⟩

theorem not_mem_of_mem_pieces {p : Path} {piece : String} (h : piece ∈ p.pieces) :
    '/' ∉ piece.toList := by
  obtain ⟨cs, hcs, rfl⟩ := List.mem_map.mp h
  rw [String.toList_ofList]
  exact not_mem_of_mem_split hcs

theorem pieces_of_not_mem {name : String} (h : '/' ∉ name.toList) :
    (⟨name⟩ : Path).pieces = [name] := by
  rw [pieces, split_of_not_mem h, List.map_singleton, String.ofList_toList]

theorem pieces_cons {name : String} (h : '/' ∉ name.toList) (rest : String) :
    (⟨name ++ "/" ++ rest⟩ : Path).pieces = name :: (⟨rest⟩ : Path).pieces := by
  have hl : (name ++ "/" ++ rest).toList = name.toList ++ '/' :: rest.toList := by simp
  rw [pieces, hl, split_append h, List.map_cons, String.ofList_toList, pieces]

theorem pieces_intercalate {ps : List String} (hne : ps ≠ []) (h : ∀ p ∈ ps, '/' ∉ p.toList) :
    (⟨"/".intercalate ps⟩ : Path).pieces = ps := by
  induction ps with
  | nil => exact absurd rfl hne
  | cons p ps ih =>
    have hp := h p (List.mem_cons_self ..)
    cases ps with
    | nil => rw [String.intercalate_singleton, pieces_of_not_mem hp]
    | cons q qs =>
      rw [String.intercalate_cons_cons, pieces_cons hp,
        ih (by simp) (fun r hr => h r (List.mem_cons_of_mem p hr))]

theorem dropIdle_cases (ps : List String) :
    dropIdle ps = [] ∨ ∃ qs q, dropIdle ps = qs ++ [q] ∧ isIdle q = false := by
  unfold dropIdle
  cases h : ps.reverse.dropWhile isIdle with
  | nil => exact .inl rfl
  | cons q qs =>
    refine .inr ⟨qs.reverse, q, by simp, ?_⟩
    have hq := List.head_dropWhile_not isIdle (l := ps.reverse) (by simp [h])
    simpa [h] using hq

theorem dropIdle_concat {q : String} (hq : isIdle q = false) (ps : List String) :
    dropIdle (ps ++ [q]) = ps ++ [q] := by
  simp [dropIdle, hq]

theorem dropIdle_dropIdle (ps : List String) : dropIdle (dropIdle ps) = dropIdle ps := by
  rcases dropIdle_cases ps with h | ⟨qs, q, h, hq⟩
  · rw [h]
    rfl
  · rw [h, dropIdle_concat hq]

theorem dropIdle_prefix_self (ps : List String) : dropIdle ps <+: ps := by
  have h := (List.dropWhile_suffix isIdle (l := ps.reverse)).reverse
  rwa [List.reverse_reverse] at h

theorem dropLastPiece?_concat {q : String} (hq : isIdle q = false) (ps : List String) :
    dropLastPiece? (ps ++ [q]) = some (dropIdle ps) := by
  unfold dropLastPiece?
  rw [dropIdle_concat hq]
  split
  next h => simp at h
  next => rw [List.dropLast_concat]

theorem dropLastPiece?_eq_some {ps qs : List String} (h : dropLastPiece? ps = some qs) :
    dropIdle qs = qs ∧ qs <+: ps := by
  unfold dropLastPiece? at h
  split at h
  · simp at h
  · obtain rfl := Option.some.inj h
    refine ⟨dropIdle_dropIdle _, (dropIdle_prefix_self _).trans ?_⟩
    exact (List.dropLast_prefix _).trans (dropIdle_prefix_self ps)

def Settled (d : Path) : Prop :=
  ∀ name, isFileName name = true → (d.join ⟨name⟩).directory = d

section Settled

variable {name : String} (hn : isFileName name = true)

include hn

theorem not_mem_of_isFileName : '/' ∉ name.toList := by
  simp only [isFileName, Bool.and_eq_true, Bool.not_eq_true', List.contains_eq_mem, decide_eq_false_iff_not] at hn
  exact hn.1.2

theorem nul_not_mem_of_isFileName : Char.ofNat 0 ∉ name.toList := by
  simp only [isFileName, Bool.and_eq_true, Bool.not_eq_true', List.contains_eq_mem, decide_eq_false_iff_not] at hn
  exact hn.2

theorem isIdle_of_isFileName : isIdle name = false := by
  simp only [isFileName, Bool.and_eq_true, Bool.not_eq_true'] at hn
  exact hn.1.1.1

theorem ne_up_of_isFileName : name ≠ ".." := by
  simp only [isFileName, Bool.and_eq_true, bne_iff_ne] at hn
  exact hn.1.1.2

theorem isAbsolute_of_isFileName : (⟨name⟩ : Path).isAbsolute = false := by
  have h := not_mem_of_isFileName hn
  unfold isAbsolute
  cases hl : name.toList with
  | nil => rfl
  | cons c cs =>
    rw [hl] at h
    simpa using Ne.symm (List.ne_and_not_mem_of_not_mem_cons h).1

theorem join_of_getLast? {d : Path} {c : Char} (hd : d.text.toList.getLast? = some c) (hc : c ≠ '/') :
    d.join ⟨name⟩ = ⟨d.text ++ "/" ++ name⟩ := by
  have he : d.text.isEmpty = false := by
    rw [Bool.eq_false_iff]
    intro h
    rw [String.isEmpty_iff.mp h] at hd
    simp at hd
  rw [join, isAbsolute_of_isFileName hn, hd, he]
  simp [hc]

theorem pieces_join (ps : List String) {q : String} (hs : ∀ p ∈ ps ++ [q], '/' ∉ p.toList)
    (hq : q ≠ "") : ((⟨"/".intercalate (ps ++ [q])⟩ : Path).join ⟨name⟩).pieces = ps ++ [q] ++ [name] := by
  have hqs := hs q (by simp)
  have hlast : ∃ c, ("/".intercalate (ps ++ [q])).toList.getLast? = some c ∧ c ≠ '/' := by
    cases h : q.toList.getLast? with
    | none => exact absurd (String.toList_eq_nil_iff.mp (List.getLast?_eq_none_iff.mp h)) hq
    | some c =>
      refine ⟨c, ?_, ?_⟩
      · cases ps with
        | nil => simpa using h
        | cons p ps =>
          rw [String.intercalate_append_of_ne_nil (by simp) (by simp)]
          simp [List.getLast?_append, List.getLast?_cons, h]
      · rintro rfl
        exact hqs (List.mem_of_getLast? h)
  obtain ⟨c, hc, hne⟩ := hlast
  have he : "/".intercalate (ps ++ [q]) ++ "/" ++ name = "/".intercalate (ps ++ [q] ++ [name]) := by
    rw [String.intercalate_append_of_ne_nil (l := ps ++ [q]) (by simp) (by simp),
      String.intercalate_singleton]
  rw [join_of_getLast? hn (d := ⟨"/".intercalate (ps ++ [q])⟩) hc hne, he]
  apply pieces_intercalate (by simp)
  intro p hp
  rcases List.mem_append.mp hp with hp | hp
  · exact hs p hp
  · rw [List.mem_singleton.mp hp]
    exact not_mem_of_isFileName hn

end Settled

theorem isAbsolute_iff (p : Path) : p.isAbsolute = true ↔ ∃ q qs, p.pieces = "" :: q :: qs := by
  unfold isAbsolute pieces
  cases p.text.toList with
  | nil => simp [split]
  | cons c cs =>
    obtain ⟨q, qs, hq⟩ := List.exists_cons_of_ne_nil (split_ne_nil cs)
    by_cases hc : c = '/'
    · simp [split, hc, hq]
    · simp [split, hc, hq]

section Directory

variable {p : Path} {ps : List String} {q : String} (hq : isIdle q = false)

include hq

theorem directory_of_absolute (hp : p.pieces = "" :: (ps ++ [q])) :
    p.directory = ⟨"/" ++ "/".intercalate (dropIdle ps)⟩ := by
  have ha : p.isAbsolute = true := by
    rw [isAbsolute_iff, hp]
    cases ps <;> simp
  rw [directory, parent?, if_pos ha, hp, List.tail_cons, dropLastPiece?_concat hq]
  rfl

theorem directory_of_here (hp : p.pieces = "." :: (ps ++ [q])) :
    p.directory = ⟨"/".intercalate ("." :: dropIdle ps)⟩ := by
  have ha : ¬p.isAbsolute = true := by
    rw [isAbsolute_iff, hp]
    simp
  rw [directory, parent?, if_neg ha, hp]
  simp only
  rw [dropLastPiece?_concat hq]
  rfl

theorem directory_of_plain (hp : p.pieces = ps ++ [q]) (ha : ¬p.isAbsolute = true)
    (hh : ps.head? ≠ some ".") : p.directory = ⟨"/".intercalate (dropIdle ps)⟩ := by
  rw [directory, parent?, if_neg ha, hp]
  split
  next rest h =>
    cases ps with
    | nil =>
      obtain ⟨rfl, -⟩ : q = "." ∧ [] = rest := by simpa using h
      simp [isIdle] at hq
    | cons r rs =>
      obtain ⟨rfl, -⟩ : r = "." ∧ rs ++ [q] = rest := by simpa using h
      simp at hh
  next =>
    rw [dropLastPiece?_concat hq]
    rfl

end Directory

section Settled

variable {ps : List String} (hs : ∀ p ∈ ps, '/' ∉ p.toList) (hd : dropIdle ps = ps)

include hs hd

theorem settled_absolute : Settled ⟨"/" ++ "/".intercalate ps⟩ := by
  intro name hn
  have hp : ((⟨"/" ++ "/".intercalate ps⟩ : Path).join ⟨name⟩).pieces = "" :: (ps ++ [name]) := by
    rcases dropIdle_cases ps with he | ⟨qs, q, he, hq⟩
    · obtain rfl : ps = [] := hd.symm.trans he
      have hj : (⟨"/" ++ "/".intercalate []⟩ : Path).join ⟨name⟩ = ⟨"" ++ "/" ++ name⟩ := by
        simp [join, isAbsolute_of_isFileName hn]
      rw [hj, pieces_cons (by simp), pieces_of_not_mem (not_mem_of_isFileName hn), List.nil_append]
    · obtain rfl : ps = qs ++ [q] := hd.symm.trans he
      have hj : "/" ++ "/".intercalate (qs ++ [q]) = "/".intercalate ("" :: qs ++ [q]) := by
        rw [List.cons_append, String.intercalate_cons_of_ne_nil (by simp)]
        simp
      rw [hj]
      apply pieces_join hn ("" :: qs)
      · simpa using hs
      · rintro rfl
        simp [isIdle] at hq
  rw [directory_of_absolute (isIdle_of_isFileName hn) hp, hd]

theorem settled_here : Settled ⟨"/".intercalate ("." :: ps)⟩ := by
  intro name hn
  have hp : ((⟨"/".intercalate ("." :: ps)⟩ : Path).join ⟨name⟩).pieces = "." :: (ps ++ [name]) := by
    rcases dropIdle_cases ps with he | ⟨qs, q, he, hq⟩
    · obtain rfl : ps = [] := hd.symm.trans he
      exact pieces_join hn [] (by simp) (by simp)
    · obtain rfl : ps = qs ++ [q] := hd.symm.trans he
      apply pieces_join hn ("." :: qs)
      · simpa using hs
      · rintro rfl
        simp [isIdle] at hq
  rw [directory_of_here (isIdle_of_isFileName hn) hp, hd]

theorem settled_plain (hh : ps.head? ≠ some ".") (he : ps.head? ≠ some "") :
    Settled ⟨"/".intercalate ps⟩ := by
  intro name hn
  have hp : ((⟨"/".intercalate ps⟩ : Path).join ⟨name⟩).pieces = ps ++ [name] := by
    rcases dropIdle_cases ps with he | ⟨qs, q, he, hq⟩
    · obtain rfl : ps = [] := hd.symm.trans he
      have hj : (⟨"/".intercalate []⟩ : Path).join ⟨name⟩ = ⟨name⟩ := by
        simp [join, isAbsolute_of_isFileName hn]
      rw [hj, pieces_of_not_mem (not_mem_of_isFileName hn), List.nil_append]
    · obtain rfl : ps = qs ++ [q] := hd.symm.trans he
      apply pieces_join hn qs hs
      rintro rfl
      simp [isIdle] at hq
  have ha : ¬((⟨"/".intercalate ps⟩ : Path).join ⟨name⟩).isAbsolute = true := by
    rw [isAbsolute_iff, hp]
    rintro ⟨q, qs, h⟩
    cases ps with
    | nil => simp at h
    | cons p ps =>
      obtain ⟨rfl, -⟩ := List.cons.inj h
      exact he rfl
  rw [directory_of_plain (isIdle_of_isFileName hn) hp ha hh, hd]

end Settled

theorem settled_directory (p : Path) : Settled p.directory := by
  have hs : ∀ q ∈ p.pieces, '/' ∉ q.toList := fun q => not_mem_of_mem_pieces
  have hdot : Settled ⟨"."⟩ := @settled_here [] (by simp) rfl
  unfold directory parent?
  split
  next =>
    cases h : dropLastPiece? p.pieces.tail with
    | none => exact hdot
    | some ps =>
      obtain ⟨hd, hp⟩ := dropLastPiece?_eq_some h
      exact settled_absolute (fun q hq => hs q (List.mem_of_mem_tail (hp.subset hq))) hd
  next ha =>
    split
    next rest hr =>
      cases h : dropLastPiece? rest with
      | none => exact @settled_plain [] (by simp) rfl (by simp) (by simp)
      | some ps =>
        obtain ⟨hd, hp⟩ := dropLastPiece?_eq_some h
        exact settled_here (fun q hq => hs q (hr ▸ List.mem_cons_of_mem _ (hp.subset hq))) hd
    next hr =>
      cases h : dropLastPiece? p.pieces with
      | none => exact hdot
      | some ps =>
        obtain ⟨hd, hp⟩ := dropLastPiece?_eq_some h
        apply settled_plain (fun q hq => hs q (hp.subset hq)) hd
        · intro hh
          obtain ⟨qs, rfl⟩ := List.head?_eq_some_iff.mp hh
          obtain ⟨rest, hrest⟩ := hp
          exact hr _ hrest.symm
        · intro hh
          obtain ⟨qs, rfl⟩ := List.head?_eq_some_iff.mp hh
          obtain ⟨rest, hrest⟩ := hp
          -- nothing but a separator can follow an empty first piece
          cases hrs : qs ++ rest with
          | nil =>
            obtain ⟨rfl, -⟩ := List.append_eq_nil_iff.mp hrs
            simp [dropIdle, isIdle] at hd
          | cons r rs =>
            rw [List.cons_append, hrs] at hrest
            exact ha ((isAbsolute_iff p).mpr ⟨r, rs, hrest.symm⟩)

end Sfz.Path

namespace Sfz.FileTree

open Sfz.Path

def ofTexts (entries : List (String × Location)) (texts : List String)
    (h : (FileObject.directory ⟨0, entries⟩).Fits (texts.length + 1) 0) : FileTree where
  objects := (.directory ⟨0, entries⟩ :: texts.map (fun text => .file (some text))).toArray
  working := 0
  fits := by
    intro l o ho
    cases l with
    | zero =>
      obtain rfl : FileObject.directory ⟨0, entries⟩ = o := by simpa using ho
      simpa using h
    | succ n =>
      obtain ⟨text, -, rfl⟩ : ∃ text, texts[n]? = some text ∧ FileObject.file (some text) = o := by
        simpa using ho
      exact .of_entries_eq_nil rfl

structure LeadsAlike (t t' : FileTree) : Prop where
  no_directory : ∀ {l : Location}, t.directory? l = none → t'.directory? l = none
  directory : ∀ {l : Location} {d : Directory}, t.directory? l = some d →
    ∃ entries, t'.directory? l = some ⟨d.parent, entries⟩ ∧
      ∀ name, entries.lookup name = d.entries.lookup name
  link : ∀ {l : Location} {target : Path},
    t.object? l = some (.link target) ↔ t'.object? l = some (.link target)

/-- Contents of files and the order of entries do not matter to paths. -/
theorem LeadsAlike.walk_eq {t t' : FileTree} (h : LeadsAlike t t') (links : Nat) (l : Location)
    (pieces : List String) : t'.walk links l pieces = t.walk links l pieces := by
  fun_induction walk t links l pieces with
  | case1 => rw [walk]
  | case2 links l piece rest hd => rw [walk, h.no_directory hd]
  | case3 links l piece rest d hd hi ih =>
    obtain ⟨entries, hd', -⟩ := h.directory hd
    rw [walk, hd']
    simp only [hi, ↓reduceIte, ih]
  | case4 links l piece rest d hd hi hu ih =>
    obtain ⟨entries, hd', -⟩ := h.directory hd
    rw [walk, hd']
    simp only [hi, hu, Bool.false_eq_true, ↓reduceIte, ih]
  | case5 links l piece rest d hd hi hu hn =>
    obtain ⟨entries, hd', -⟩ := h.directory hd
    rw [walk, hd']
    simp only [hi, hu, hn, Bool.false_eq_true, ↓reduceIte]
  | case6 links l piece rest d hd hi hu hn he =>
    obtain ⟨entries, hd', hl⟩ := h.directory hd
    rw [walk, hd']
    simp only [hi, hu, hn, hl, he, Bool.false_eq_true, ↓reduceIte]
  | case7 l piece rest d hd hi hu hn k he target ho =>
    obtain ⟨entries, hd', hl⟩ := h.directory hd
    rw [walk, hd']
    simp only [hi, hu, hn, hl, he, h.link.mp ho, Bool.false_eq_true, ↓reduceIte]
  | case8 l piece rest d hd hi hu hn k he target ho links ih =>
    obtain ⟨entries, hd', hl⟩ := h.directory hd
    rw [walk, hd']
    simp only [hi, hu, hn, hl, he, h.link.mp ho, Bool.false_eq_true, ↓reduceIte]
    exact ih
  | case9 links l piece rest d hd hi hu hn k he ho ih =>
    obtain ⟨entries, hd', hl⟩ := h.directory hd
    rw [walk, hd']
    simp only [hi, hu, hn, hl, he, Bool.false_eq_true, ↓reduceIte]
    split
    next target ho' => exact absurd (h.link.mpr ho') (ho target)
    next => exact ih

theorem locate_name {t : FileTree} {name : String} {d : Directory} {l : Location}
    (hn : isFileName name = true) (hb : name.utf8ByteSize ≤ maxNameBytes)
    (hd : t.directory? t.working = some d) (he : d.entries.lookup name = some l)
    (ho : ∀ target, t.object? l ≠ some (.link target)) : t.locate ⟨name⟩ = .ok l := by
  have hi := isIdle_of_isFileName hn
  refine locate_eq_ok.mpr ⟨?_, ?_, hb.trans (by decide), ?_⟩
  · rw [isIdle, Bool.or_eq_false_iff] at hi
    exact hi.1
  · simpa using nul_not_mem_of_isFileName hn
  · rw [pieces_of_not_mem (not_mem_of_isFileName hn), startOf, isAbsolute_of_isFileName hn,
      if_neg Bool.false_ne_true, walk_entry hd (by simp [hi]) (by simpa using ne_up_of_isFileName hn)
        (Nat.not_lt.mpr hb) he ho, walk]

theorem locate_dot {t : FileTree} {name : String} {d : Directory} {l : Location}
    (hn : isFileName name = true) (hb : name.utf8ByteSize ≤ maxNameBytes)
    (hd : t.directory? t.working = some d) (h : t.locate ⟨name⟩ = .ok l) :
    t.locate ⟨"." ++ "/" ++ name⟩ = .ok l := by
  obtain ⟨-, hnul, -, hw⟩ := locate_eq_ok.mp h
  rw [pieces_of_not_mem (not_mem_of_isFileName hn), startOf, isAbsolute_of_isFileName hn,
    if_neg Bool.false_ne_true] at hw
  have hpieces := pieces_cons (show '/' ∉ ".".toList by decide) name
  rw [pieces_of_not_mem (not_mem_of_isFileName hn)] at hpieces
  have habs : (⟨"." ++ "/" ++ name⟩ : Path).isAbsolute = false := by simp [isAbsolute]
  refine locate_eq_ok.mpr ⟨by simp, by simpa using hnul, ?_, ?_⟩
  · rw [String.utf8ByteSize_append]
    unfold maxNameBytes at hb
    have : ("." ++ "/").utf8ByteSize = 2 := by decide
    unfold maxPathBytes
    omega
  · rw [hpieces, startOf, habs, if_neg Bool.false_ne_true, walk_idle hd (by decide)]
    exact hw

variable {t : FileTree}

theorem read_eq {p : Path} {k : Location} (hp : t.locate p = .ok k) :
    t.read p = match t.object? k with
      | some (.file (some text)) => .ok text
      | some (.file none) => .error .notText
      | some (.directory _) => .error .isDirectory
      | _ => .error .notFound := by
  unfold read
  rw [hp]
  rfl

theorem nodes_eq_ok {p : Path} {ns : List Node} :
    t.nodes p = .ok ns ↔ ∃ old, t.read p = .ok old ∧ Node.parse old = .ok ns := by
  unfold nodes
  cases t.read p with
  | error e => simp
  | ok old => simp [mapError_eq_ok]

theorem nodes_of_locate_eq {p q : Path} {k : Location} {ns : List Node} (hp : t.locate p = .ok k)
    (hq : t.locate q = .ok k) (h : t.nodes p = .ok ns) : t.nodes q = .ok ns := by
  obtain ⟨old, hr, hn⟩ := nodes_eq_ok.mp h
  refine nodes_eq_ok.mpr ⟨old, ?_, hn⟩
  rw [read_eq hq, ← read_eq hp, hr]

theorem locate_of_read {p : Path} {old : String} (h : t.read p = .ok old) :
    ∃ k ∈ t.files, t.locate p = .ok k := by
  cases hp : t.locate p with
  | error e =>
    unfold read at h
    rw [hp] at h
    exact absurd h nofun
  | ok k =>
    rw [read_eq hp] at h
    refine ⟨k, mem_files_iff.mpr ?_, rfl⟩
    split at h
    next text ho => exact ⟨some text, ho⟩
    all_goals simp at h

theorem mem_files_of_nodes {p : Path} {k : Location} {ns : List Node} (hp : t.locate p = .ok k)
    (h : t.nodes p = .ok ns) : k ∈ t.files := by
  obtain ⟨old, hread, -⟩ := nodes_eq_ok.mp h
  obtain ⟨k', hk', hp'⟩ := locate_of_read hread
  rwa [Except.ok.inj (hp.symm.trans hp')]

structure Holds (t : FileTree) (name : String) (l : Location) (text : String) : Prop where
  located : t.locate ⟨name⟩ = .ok l
  object : t.object? l = some (.file (some text))
  canonical : t.canonical? ⟨name⟩ = some (.ofNames [name])

namespace Holds

variable {name : String} {l : Location} {text : String} (h : t.Holds name l text)

include h

theorem mem_files : l ∈ t.files :=
  mem_files_iff.mpr ⟨_, h.object⟩

theorem locateFile? : t.locateFile? ⟨name⟩ = some l :=
  locateFile?_eq_some.mpr ⟨h.located, h.mem_files⟩

theorem read : t.read ⟨name⟩ = .ok text := by
  rw [read_eq h.located, h.object]

theorem nodes {ns : List Node} (hp : Node.parse text = .ok ns) : t.nodes ⟨name⟩ = .ok ns :=
  nodes_eq_ok.mpr ⟨text, h.read, hp⟩

theorem key : t.key ⟨name⟩ = (Path.ofNames [name]).components := by
  rw [FileTree.key, h.canonical, Option.getD_some]

end Holds

theorem holds_entry {name : String} {d : Directory} {l : Location} {text : String} (hw : t.working = 0)
    (hd : t.directory? 0 = some d) (he : d.entries.lookup name = some l)
    (ho : t.object? l = some (.file (some text))) (hb : name.utf8ByteSize ≤ maxNameBytes) : t.Holds name l text := by
  have hn : isFileName name = true :=
    (t.fits _ _ (object?_of_directory? hd)).named _ ((lookup_eq_some_iff_mem (nodup_names hd) _ _).mp he)
  have hi := isIdle_of_isFileName hn
  refine ⟨locate_name hn hb (by rw [hw, hd]) he (by simp [ho]), ho, ?_⟩
  have hempty : name.isEmpty = false := by
    rw [isIdle, Bool.or_eq_false_iff] at hi
    exact hi.1
  have hsize : ¬maxPathBytes < (Path.ofNames [name]).text.utf8ByteSize := by
    rw [Path.ofNames, String.intercalate_singleton, String.utf8ByteSize_append]
    have : "/".utf8ByteSize = 1 := by decide
    unfold maxNameBytes at hb
    unfold maxPathBytes
    omega
  have hroot : t.names? 0 = some [] := by rw [names?, if_pos rfl]
  have hentry : t.child? 0 d name = some (.ofNames [name], l) := by
    simp [child?, hroot, he, Nat.not_lt.mpr hb, hsize]
  rw [canonical?, startOf, isAbsolute_of_isFileName hn, pieces_of_not_mem (not_mem_of_isFileName hn), hempty, hw]
  exact canonicalWalk_file hd (by simp [hi]) (by simpa using ne_up_of_isFileName hn) hentry ho _

theorem holds_ofTexts {entries : List (String × Location)} {texts : List String}
    (h : (FileObject.directory ⟨0, entries⟩).Fits (texts.length + 1) 0) {name : String} {n : Nat} {text : String}
    (he : entries.lookup name = some (n + 1)) (ht : texts[n]? = some text)
    (hb : name.utf8ByteSize ≤ maxNameBytes) : (ofTexts entries texts h).Holds name (n + 1) text :=
  holds_entry rfl rfl he (by simp [object?, ofTexts, ht]) hb

end Sfz.FileTree
