import Sfz.File.Tree

/-!
Canonical paths. The canonical path of an object is absolute and has no links and no dots. It is found by
looking up one name after the other under the canonical path so far, so it is not found where one of these
paths is too long, although the system may well reach the object by the path as written.
-/

namespace Sfz

def Path.ofNames (names : List String) : Path :=
  ⟨"/" ++ "/".intercalate names⟩

namespace FileTree

def names? (t : FileTree) (l : Location) : Option (List String) :=
  if l = 0 then some []
  else
    match t.directory? l with
    | none => none
    | some d =>
      if d.parent < l then
        match t.directory? d.parent with
        | none => none
        | some above =>
          match above.entries.find? (fun e => e.2 = l) with
          | none => none
          | some e => (t.names? d.parent).map (· ++ [e.1])
      else none
termination_by l

def child? (t : FileTree) (l : Location) (d : Directory) (name : String) : Option (Path × Location) := do
  let names ← t.names? l
  let k ← d.entries.lookup name
  let p := Path.ofNames (names ++ [name])
  if maxNameBytes < name.utf8ByteSize || maxPathBytes < p.text.utf8ByteSize then none else some (p, k)

-- where the rest of a path needs a directory, `/./` is put behind its name to see whether it is one
def checkBytes (rest : List String) : Nat :=
  match rest.dropWhile Path.isIdle with
  | [] => if rest.isEmpty then 0 else 3
  | piece :: _ => if piece == ".." then 3 else 0

def canonicalWalk (t : FileTree) (links : Nat) (l : Location) : List String → Option Path
  | [] => (t.names? l).map Path.ofNames
  | piece :: rest =>
    match t.directory? l with
    | none => none
    | some d =>
      if Path.isIdle piece then canonicalWalk t links l rest
      else if piece == ".." then canonicalWalk t links d.parent rest
      else
        match t.child? l d piece with
        | none => none
        | some (p, k) =>
          match t.object? k with
          | some (.link target) =>
            match links with
            | 0 => none
            | links + 1 => canonicalWalk t links (if target.isAbsolute then 0 else l) (target.pieces ++ rest)
          | some (.directory _) =>
            if maxPathBytes < p.text.utf8ByteSize + checkBytes rest then none
            else canonicalWalk t links k rest
          | some (.file _) => if rest.isEmpty then some p else none
          | none => none
termination_by pieces => (links, pieces.length)

def canonical? (t : FileTree) (p : Path) : Option Path :=
  if p.text.isEmpty then none else t.canonicalWalk maxLinks (t.startOf p) p.pieces

end FileTree

abbrev FileKey := List Path.Component

instance FileKey.decidableMem (k : FileKey) (chain : List FileKey) : Decidable (k ∈ chain) :=
  List.instDecidableMemOfLawfulBEq k chain

/-- The canonical path, or the path as written where there is none. -/
def FileTree.key (t : FileTree) (p : Path) : FileKey :=
  ((t.canonical? p).getD p).components

namespace FileTree

inductive At (t : FileTree) : List String → Location → Prop
  | root : At t [] 0
  | entry {names : List String} {l k : Location} {d : Directory} {name : String} (h : At t names l)
      (hd : t.directory? l = some d) (he : d.entries.lookup name = some k) : At t (names ++ [name]) k

theorem lookup_eq_some_iff_mem {entries : List (String × Location)} (hd : (entries.map Prod.fst).Nodup)
    (name : String) (l : Location) : entries.lookup name = some l ↔ (name, l) ∈ entries := by
  rw [List.lookup_eq_some_iff]
  constructor
  · rintro ⟨before, after, rfl, -⟩
    simp
  · intro hm
    obtain ⟨before, after, rfl⟩ := List.append_of_mem hm
    refine ⟨before, after, rfl, ?_⟩
    rintro ⟨name', l'⟩ he
    rw [bne_iff_ne]
    rintro rfl
    rw [List.map_append, List.nodup_append] at hd
    exact hd.2.2 name (List.mem_map_of_mem he) name (by simp) rfl

theorem nodup_names {t : FileTree} {l : Location} {d : Directory} (hd : t.directory? l = some d) :
    (d.entries.map Prod.fst).Nodup :=
  (t.fits l _ (object?_of_directory? hd)).distinct

section Walk

variable {t : FileTree} {l : Location} {d : Directory} {piece : String} (hd : t.directory? l = some d)

include hd

theorem walk_idle (hi : Path.isIdle piece = true) (links : Nat) (rest : List String) :
    t.walk links l (piece :: rest) = t.walk links l rest := by
  rw [walk, hd]
  simp only [hi, ↓reduceIte]

variable (hi : ¬Path.isIdle piece = true)

include hi

theorem walk_up (hu : (piece == "..") = true) (links : Nat) (rest : List String) :
    t.walk links l (piece :: rest) = t.walk links d.parent rest := by
  rw [walk, hd]
  simp only [hi, hu, Bool.false_eq_true, ↓reduceIte]

variable (hu : ¬(piece == "..") = true) (hb : ¬maxNameBytes < piece.utf8ByteSize) {k : Location}
  (he : d.entries.lookup piece = some k)

include hu hb he

theorem walk_link {target : Path} (ho : t.object? k = some (.link target)) (links : Nat)
    (rest : List String) : t.walk (links + 1) l (piece :: rest) =
      t.walk links (if target.isAbsolute then 0 else l) (target.pieces ++ rest) := by
  rw [walk, hd]
  simp only [hi, hu, hb, he, ho, Bool.false_eq_true, ↓reduceIte]

theorem walk_entry (ho : ∀ target, t.object? k ≠ some (.link target)) (links : Nat) (rest : List String) :
    t.walk links l (piece :: rest) = t.walk links k rest := by
  rw [walk, hd]
  simp only [hi, hu, hb, he, Bool.false_eq_true, ↓reduceIte]

end Walk

section CanonicalWalk

variable {t : FileTree} {l : Location} {d : Directory} {piece : String} (hd : t.directory? l = some d)
  (hi : ¬Path.isIdle piece = true) (hu : ¬(piece == "..") = true)

include hd hi hu

theorem canonicalWalk_none (he : t.child? l d piece = none) (links : Nat) (rest : List String) :
    t.canonicalWalk links l (piece :: rest) = none := by
  rw [canonicalWalk, hd]
  simp only [hi, hu, he, Bool.false_eq_true, ↓reduceIte]

variable {k : Location} {p : Path} (he : t.child? l d piece = some (p, k))

include he

theorem canonicalWalk_link {target : Path} (ho : t.object? k = some (.link target)) (links : Nat)
    (rest : List String) : t.canonicalWalk (links + 1) l (piece :: rest) =
      t.canonicalWalk links (if target.isAbsolute then 0 else l) (target.pieces ++ rest) := by
  rw [canonicalWalk, hd]
  simp only [hi, hu, he, ho, Bool.false_eq_true, ↓reduceIte]

theorem canonicalWalk_directory {d' : Directory} (ho : t.object? k = some (.directory d')) {rest : List String}
    (hs : ¬maxPathBytes < p.text.utf8ByteSize + checkBytes rest) (links : Nat) :
    t.canonicalWalk links l (piece :: rest) = t.canonicalWalk links k rest := by
  rw [canonicalWalk, hd]
  simp only [hi, hu, he, ho, hs, Bool.false_eq_true, ↓reduceIte]

theorem canonicalWalk_file {text : Option String} (ho : t.object? k = some (.file text)) (links : Nat) :
    t.canonicalWalk links l [piece] = some p := by
  rw [canonicalWalk, hd]
  simp only [hi, hu, he, ho, List.isEmpty_nil, Bool.false_eq_true, ↓reduceIte]

end CanonicalWalk

theorem at_of_names? {t : FileTree} {l : Location} {names : List String} (h : t.names? l = some names) :
    t.At names l := by
  fun_induction names? t l generalizing names with
  | case1 => exact Option.some.inj h ▸ .root
  | case5 l hl d hd hp above ha e he ih =>
    obtain ⟨names', hn, rfl⟩ := Option.map_eq_some_iff.mp h
    obtain rfl : e.2 = l := by simpa using List.find?_some he
    exact .entry (ih hn) ha ((lookup_eq_some_iff_mem (nodup_names ha) _ _).mpr (List.mem_of_find?_eq_some he))
  | _ => simp at h

theorem names?_of_not_directory {t : FileTree} {l : Location} {names : List String}
    (h : t.names? l = some names) (hd : t.directory? l = none) : names = [] := by
  rw [names?] at h
  split at h
  · exact (Option.some.inj h).symm
  · simp [hd] at h

theorem child?_eq_some {t : FileTree} {l k : Location} {d : Directory} {name : String} {p : Path}
    (h : t.child? l d name = some (p, k)) : ∃ names, t.At names l ∧ d.entries.lookup name = some k ∧
      p = .ofNames (names ++ [name]) ∧ ¬maxNameBytes < name.utf8ByteSize ∧
      p.text.utf8ByteSize ≤ maxPathBytes := by
  simp only [child?, Option.bind_eq_bind, Option.bind_eq_some_iff] at h
  obtain ⟨names, hn, k', he, h⟩ := h
  obtain ⟨hb, h⟩ := Option.ite_none_left_eq_some.mp h
  obtain ⟨rfl, rfl⟩ := Prod.mk.inj (Option.some.inj h)
  rw [Bool.or_eq_true, not_or, decide_eq_true_eq, decide_eq_true_eq] at hb
  exact ⟨names, at_of_names? hn, he, rfl, hb.1, Nat.le_of_not_lt hb.2⟩

theorem canonicalWalk_eq_some {t : FileTree} {links : Nat} {l : Location} {pieces : List String} {p : Path}
    (h : t.canonicalWalk links l pieces = some p) : ∃ names k, p = .ofNames names ∧ t.At names k ∧
      t.walk links l pieces = .ok k ∧ (t.directory? k = none → p.text.utf8ByteSize ≤ maxPathBytes) := by
  fun_induction canonicalWalk t links l pieces with
  | case1 links l =>
    obtain ⟨names, hn, rfl⟩ := Option.map_eq_some_iff.mp h
    refine ⟨names, l, rfl, at_of_names? hn, by rw [walk], fun hd => ?_⟩
    rw [names?_of_not_directory hn hd]
    decide
  | case3 links l piece rest d hd hi ih =>
    rw [walk_idle hd hi]
    exact ih h
  | case4 links l piece rest d hd hi hu ih =>
    rw [walk_up hd hi hu]
    exact ih h
  | case7 l piece rest d hd hi hu q k hq target ho links ih =>
    obtain ⟨names, -, he, -, hb, -⟩ := child?_eq_some hq
    rw [walk_link hd hi hu hb he ho]
    exact ih h
  | case9 links l piece rest d hd hi hu q k hq d' ho hc ih =>
    obtain ⟨names, -, he, -, hb, -⟩ := child?_eq_some hq
    rw [walk_entry hd hi hu hb he (by simp [ho])]
    exact ih h
  | case10 links l piece rest d hd hi hu q k hq text ho hr =>
    obtain ⟨names, hat, he, hqn, hb, hs⟩ := child?_eq_some hq
    obtain rfl := Option.some.inj h
    obtain rfl : rest = [] := List.isEmpty_iff.mp hr
    refine ⟨names ++ [piece], k, hqn, .entry hat hd he, ?_, fun _ => hs⟩
    rw [walk_entry hd hi hu hb he (by simp [ho]), walk]
  | _ => simp at h

end FileTree

namespace FileKey

def IsShort (k : FileKey) : Prop :=
  ∃ p : Path, p.text.utf8ByteSize ≤ FileTree.maxPathBytes ∧ p.components = k

theorem length_le_utf8ByteSize (cs : List Char) : cs.length ≤ (String.ofList cs).utf8ByteSize := by
  induction cs with
  | nil => exact Nat.zero_le _
  | cons c cs ih =>
    have hc := c.utf8Size_pos
    rw [String.ofList_cons, String.utf8ByteSize_append, String.utf8ByteSize_singleton, List.length_cons]
    omega

theorem exists_texts (n : Nat) : ∃ texts : List (List Char), ∀ cs : List Char, cs.length ≤ n → cs ∈ texts := by
  have hchars (c : Char) : c ∈ (List.range 0x110000).map Char.ofNat := by
    refine List.mem_map.mpr ⟨c.toNat, List.mem_range.mpr ?_, Char.ofNat_toNat c⟩
    rcases c.valid with h | ⟨-, h⟩
    · exact Nat.lt_trans h (by decide)
    · exact h
  induction n with
  | zero => exact ⟨[[]], fun cs h => by simpa using h⟩
  | succ n ih =>
    obtain ⟨texts, ht⟩ := ih
    refine ⟨[] :: ((List.range 0x110000).map Char.ofNat).flatMap (fun c => texts.map (c :: ·)), ?_⟩
    intro cs h
    cases cs with
    | nil => exact List.mem_cons_self ..
    | cons c cs =>
      have hcs := List.mem_map_of_mem (f := (c :: ·)) (ht cs (Nat.le_of_succ_le_succ h))
      exact List.mem_cons_of_mem _ (List.mem_flatMap.mpr ⟨c, hchars c, hcs⟩)

theorem exists_short : ∃ keys : List FileKey, ∀ k : FileKey, k.IsShort → k ∈ keys := by
  obtain ⟨texts, ht⟩ := exists_texts FileTree.maxPathBytes
  refine ⟨texts.map (fun cs => (⟨String.ofList cs⟩ : Path).components), ?_⟩
  rintro k ⟨p, hp, rfl⟩
  refine List.mem_map.mpr ⟨p.text.toList, ht _ ?_, by rw [String.ofList_toList]⟩
  have hlen := length_le_utf8ByteSize p.text.toList
  rw [String.ofList_toList] at hlen
  exact Nat.le_trans hlen hp

-- the keys are only counted, so any list that has them all will do
noncomputable def shortKeys : List FileKey :=
  exists_short.choose

theorem IsShort.mem {k : FileKey} (h : k.IsShort) : k ∈ shortKeys :=
  exists_short.choose_spec k h

noncomputable def outside (chain : List FileKey) : Nat :=
  (shortKeys.filter (fun k => k ∉ chain)).length

theorem IsShort.outside_cons_lt {chain : List FileKey} {k : FileKey} (hk : k.IsShort) (hc : k ∉ chain) :
    outside (k :: chain) < outside chain := by
  have he : shortKeys.filter (fun x => x ∉ k :: chain) =
      (shortKeys.filter (fun x => x ∉ chain)).filter (fun x => x ≠ k) := by
    rw [List.filter_filter]
    apply List.filter_congr
    intro x _
    simp only [List.mem_cons, not_or, Bool.decide_and]
  unfold outside
  rw [he, List.length_filter_lt_length_iff_exists]
  refine ⟨k, List.mem_filter.mpr ⟨hk.mem, decide_eq_true hc⟩, ?_⟩
  simp

end FileKey

namespace FileTree

variable {t : FileTree} {p : Path} {l : Location}

theorem locate_eq_ok : t.locate p = .ok l ↔ p.text.isEmpty = false ∧
    p.text.toList.contains (Char.ofNat 0) = false ∧ p.text.utf8ByteSize ≤ maxPathBytes ∧
      t.walk maxLinks (t.startOf p) p.pieces = .ok l := by
  unfold locate
  cases p.text.isEmpty with
  | true => simp
  | false =>
    cases p.text.toList.contains (Char.ofNat 0) with
    | true => simp
    | false =>
      by_cases hb : maxPathBytes < p.text.utf8ByteSize
      · simp [hb, Nat.not_le.mpr hb]
      · simp [hb, Nat.le_of_not_lt hb]

theorem locateFile?_eq_some :
    t.locateFile? p = some l ↔ t.locate p = .ok l ∧ l ∈ t.files := by
  rw [mem_files_iff]
  unfold locateFile?
  cases t.locate p with
  | error e => simp
  | ok j =>
    simp only [Except.ok.injEq]
    split
    next old ho =>
      simp only [Option.some.injEq, iff_self_and]
      rintro rfl
      exact ⟨old, ho⟩
    next ho =>
      simp only [reduceCtorEq, false_iff]
      rintro ⟨rfl, old, h⟩
      exact ho old h

theorem directory?_of_mem_files (h : l ∈ t.files) : t.directory? l = none := by
  obtain ⟨text, ho⟩ := mem_files_iff.mp h
  rw [directory?, ho]

theorem canonical?_eq_some {q : Path} (hl : t.locate p = .ok l) (h : t.canonical? p = some q) :
    ∃ names, q = .ofNames names ∧ t.At names l ∧
      (t.directory? l = none → q.text.utf8ByteSize ≤ maxPathBytes) := by
  obtain ⟨he, -, -, hw⟩ := locate_eq_ok.mp hl
  rw [canonical?, he] at h
  obtain ⟨names, k, hq, ha, hk, hs⟩ := canonicalWalk_eq_some h
  obtain rfl : k = l := Except.ok.inj (hk.symm.trans hw)
  exact ⟨names, hq, ha, hs⟩

theorem isShort_key (h : t.locateFile? p = some l) : (t.key p).IsShort := by
  obtain ⟨hl, hf⟩ := locateFile?_eq_some.mp h
  unfold key
  cases hc : t.canonical? p with
  | none => exact ⟨p, (locate_eq_ok.mp hl).2.2.1, rfl⟩
  | some q =>
    obtain ⟨names, -, -, hs⟩ := canonical?_eq_some hl hc
    exact ⟨q, hs (directory?_of_mem_files hf), rfl⟩

end FileTree

end Sfz
