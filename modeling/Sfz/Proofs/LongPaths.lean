import Sfz.Proofs.InclusionRun
import Sfz.Proofs.MacroExpansion
import Sfz.Proofs.PathComponents

/-!
Files without a canonical path. A link that lies deep enough leads to its file, while its own absolute path is
too long to be looked up. A file that includes itself by way of such a link is opened again.
-/

namespace Sfz

theorem Path.size_ofNames_replicate (name : String) (n : Nat) :
    (Path.ofNames (List.replicate (n + 1) name)).text.utf8ByteSize = (n + 1) * (name.utf8ByteSize + 1) := by
  have hslash : "/".utf8ByteSize = 1 := by decide
  rw [Path.ofNames, String.utf8ByteSize_append, hslash]
  induction n with
  | zero => simp [Nat.add_comm]
  | succ n ih =>
    rw [List.replicate_succ, String.intercalate_cons_of_ne_nil (by simp), String.utf8ByteSize_append,
      String.utf8ByteSize_append, hslash, Nat.succ_mul, ← ih]
    omega

theorem isFileName_replicate {c : Char} (hs : c ≠ '/') (hd : c ≠ '.') (hz : c ≠ Char.ofNat 0) (n : Nat) :
    isFileName (String.ofList (List.replicate (n + 1) c)) = true := by
  have hne (name : String) (hname : name.toList.head? ≠ some c) : String.ofList (List.replicate (n + 1) c) ≠ name := by
    rintro rfl
    simp [List.replicate_succ] at hname
  have hempty := hne "" (by simp)
  have hdot := hne "." (by simpa using Ne.symm hd)
  have hup := hne ".." (by simpa using Ne.symm hd)
  simp only [isFileName, Path.isIdle, Bool.and_eq_true, Bool.not_eq_true', Bool.or_eq_false_iff, beq_eq_false_iff_ne,
    bne_iff_ne, List.contains_eq_mem, decide_eq_false_iff_not, String.toList_ofList, List.mem_replicate]
  refine ⟨⟨⟨⟨?_, hdot⟩, hup⟩, fun h => hs h.2.symm⟩, fun h => hz h.2.symm⟩
  rw [← Bool.not_eq_true, String.isEmpty_iff]
  exact hempty

namespace FileTree

@[irreducible]
def valley : String :=
  String.ofList (List.replicate 254 'd')

def cave : String :=
  "eeeeeeeeeeeeeeee"

theorem isFileName_valley : isFileName valley = true := by
  unfold valley
  exact isFileName_replicate (by decide) (by decide) (by decide) 253

theorem isFileName_cave : isFileName cave = true := by
  decide

theorem size_valley : valley.utf8ByteSize = 254 := by
  unfold valley
  exact utf8ByteSize_replicate 'd' 254

theorem size_cave : cave.utf8ByteSize = 16 := by
  decide

theorem length_valley : valley.length = 254 := by
  unfold valley
  exact String.length_ofList.trans List.length_replicate

theorem ne_valley (name : String) (h : name.length < 254) : name ≠ valley := by
  rintro rfl
  exact Nat.lt_irrefl 254 (length_valley ▸ h)

def abyssObject (text : String) (beside : FileObject) (l : Location) : FileObject :=
  if l = 0 then .directory ⟨0, [("a.sfz", 17), ("g.sfz", 18), ("s", 19), (valley, 1)]⟩
  else if l < 16 then .directory ⟨l - 1, [(valley, l + 1)]⟩
  else if l = 16 then .directory ⟨15, [(cave, 20)]⟩
  else if l = 17 then .file (some text)
  else if l = 18 then beside
  else if l = 19 then .link ⟨"/".intercalate (List.replicate 16 valley)⟩
  else .link ⟨"/".intercalate (List.replicate 16 ".." ++ ["a.sfz"])⟩

theorem fits_abyssObject {text : String} {beside : FileObject} (hb : beside.entries = []) (l : Location) :
    (abyssObject text beside l).Fits 21 l := by
  unfold abyssObject
  split
  next h =>
    subst h
    refine ⟨?_, ?_, by decide⟩
    · simp [FileObject.entries, ne_valley "a.sfz" (by decide), ne_valley "g.sfz" (by decide),
        ne_valley "s" (by decide)]
    · simp only [FileObject.entries, List.forall_mem_cons, List.not_mem_nil, false_implies, implies_true, and_true]
      exact ⟨by decide, by decide, by decide, isFileName_valley⟩
  split
  next h =>
    refine ⟨by simp [FileObject.entries], ?_, ?_⟩
    · intro e he
      obtain rfl := List.mem_singleton.mp he
      exact isFileName_valley
    · intro e he
      obtain rfl := List.mem_singleton.mp he
      exact ⟨Nat.lt_succ_self l, Nat.lt_of_lt_of_le (Nat.succ_lt_succ h) (by decide)⟩
  split
  next h =>
    subst h
    refine ⟨by simp [FileObject.entries], ?_, by decide⟩
    intro e he
    obtain rfl := List.mem_singleton.mp he
    exact isFileName_cave
  split
  next => exact .of_entries_eq_nil rfl
  split
  next => exact .of_entries_eq_nil hb
  split
  next => exact .of_entries_eq_nil rfl
  next => exact .of_entries_eq_nil rfl

/-- A file, something beside it, a link `s` to a deep directory, and a link there that leads back to the file. -/
def abyss (text : String) (beside : FileObject) (hb : beside.entries = []) : FileTree where
  objects := ((List.range 21).map (abyssObject text beside)).toArray
  working := 0
  fits := by
    intro l o ho
    obtain ⟨k, hk, rfl⟩ : ∃ k, (List.range 21)[l]? = some k ∧ abyssObject text beside k = o := by
      simpa using ho
    obtain ⟨-, rfl⟩ := List.getElem?_eq_some_iff.mp hk
    simpa using fits_abyssObject hb l

section Abyss

variable {text : String} {beside : FileObject} (hb : beside.entries = [])

theorem object?_abyss {l : Nat} (hl : l < 21) :
    (abyss text beside hb).object? l = some (abyssObject text beside l) := by
  simp [object?, abyss, List.getElem?_range hl]

theorem directory?_abyss : (abyss text beside hb).directory? 0 =
    some ⟨0, [("a.sfz", 17), ("g.sfz", 18), ("s", 19), (valley, 1)]⟩ :=
  rfl

theorem directory?_cave : (abyss text beside hb).directory? 16 = some ⟨15, [(cave, 20)]⟩ :=
  rfl

theorem directory?_valley (text : String) {l : Nat} (hl : l < 16) : ∃ d, (abyss text beside hb).directory? l = some d ∧
    d.entries.lookup valley = some (l + 1) ∧ ∀ e ∈ d.entries, e.2 = l + 1 → e.1 = valley := by
  rw [directory?, object?_abyss hb (by omega)]
  unfold abyssObject
  by_cases h : l = 0
  · subst h
    refine ⟨_, rfl, ?_, by simp⟩
    simp [List.lookup_cons, beq_eq_false_iff_ne.mpr (ne_valley "a.sfz" (by decide)).symm,
      beq_eq_false_iff_ne.mpr (ne_valley "g.sfz" (by decide)).symm,
      beq_eq_false_iff_ne.mpr (ne_valley "s" (by decide)).symm]
  · rw [if_neg h, if_pos hl]
    exact ⟨_, rfl, List.lookup_cons_self, by simp⟩

theorem parent_valley (text : String) {l : Nat} (hl : l < 16) : ∃ d, (abyss text beside hb).directory? (l + 1) = some d ∧
    d.parent = l := by
  rw [directory?, object?_abyss hb (by omega)]
  unfold abyssObject
  rw [if_neg (Nat.succ_ne_zero l)]
  by_cases h : l + 1 < 16
  · rw [if_pos h]
    exact ⟨_, rfl, rfl⟩
  · obtain rfl : l = 15 := by omega
    exact ⟨_, rfl, rfl⟩

theorem names?_valley (text : String) {l : Nat} (hl : l ≤ 16) :
    (abyss text beside hb).names? l = some (List.replicate l valley) := by
  induction l with
  | zero => rw [names?, if_pos rfl, List.replicate_zero]
  | succ l ih =>
    obtain ⟨d, hd, rfl⟩ := parent_valley hb text hl
    obtain ⟨above, ha, hlookup, hone⟩ := directory?_valley hb text hl
    have hmem := (lookup_eq_some_iff_mem (nodup_names ha) _ _).mp hlookup
    have hfind : above.entries.find? (fun e => e.2 = d.parent + 1) = some (valley, d.parent + 1) := by
      cases hf : above.entries.find? (fun e => e.2 = d.parent + 1) with
      | none => simpa using List.find?_eq_none.mp hf _ hmem
      | some e =>
        have he : e.2 = d.parent + 1 := by simpa using List.find?_some hf
        rw [← hone e (List.mem_of_find?_eq_some hf) he, ← he]
    rw [names?, if_neg (Nat.succ_ne_zero _), hd]
    simp only [Nat.lt_succ_self, ↓reduceIte, ha, hfind]
    rw [ih (by omega), Option.map_some, List.replicate_succ']

theorem not_idle_of_isFileName {name : String} (h : isFileName name = true) : ¬Path.isIdle name = true := by
  simp [Path.isIdle_of_isFileName h]

theorem not_up_of_isFileName {name : String} (h : isFileName name = true) : ¬(name == "..") = true := by
  simpa using Path.ne_up_of_isFileName h

theorem walk_valley (links : Nat) {l n : Nat} (hl : l + n = 16) (rest : List String) :
    (abyss text beside hb).walk links l (List.replicate n valley ++ rest) =
      (abyss text beside hb).walk links 16 rest := by
  induction n generalizing l with
  | zero =>
    obtain rfl : l = 16 := hl
    rfl
  | succ n ih =>
    obtain ⟨d, hd, hlookup, -⟩ := directory?_valley hb text (show l < 16 by omega)
    obtain ⟨d', hd', -⟩ := parent_valley hb text (show l < 16 by omega)
    have ho : ∀ target, (abyss text beside hb).object? (l + 1) ≠ some (.link target) := by
      rw [show (abyss text beside hb).object? (l + 1) = _ from object?_of_directory? hd']
      simp
    rw [List.replicate_succ, List.cons_append,
      walk_entry hd (not_idle_of_isFileName isFileName_valley) (not_up_of_isFileName isFileName_valley)
        (by rw [size_valley]; decide) hlookup ho, ih (by omega)]

theorem walk_out (links : Nat) {l : Nat} (hl : l ≤ 16) (rest : List String) :
    (abyss text beside hb).walk links l (List.replicate l ".." ++ rest) =
      (abyss text beside hb).walk links 0 rest := by
  induction l with
  | zero => rfl
  | succ l ih =>
    obtain ⟨d, hd, rfl⟩ := parent_valley hb text hl
    rw [List.replicate_succ, List.cons_append, walk_up hd (by decide) (by decide), ih (by omega)]

theorem pieces_down : Path.pieces ⟨"/".intercalate (List.replicate 16 valley)⟩ = List.replicate 16 valley := by
  apply Path.pieces_intercalate (by simp)
  intro p hp
  obtain rfl := List.eq_of_mem_replicate hp
  exact Path.not_mem_of_isFileName isFileName_valley

theorem pieces_out : Path.pieces ⟨"/".intercalate (List.replicate 16 ".." ++ ["a.sfz"])⟩ =
    List.replicate 16 ".." ++ ["a.sfz"] :=
  Path.pieces_intercalate (by simp) (by decide)

theorem isAbsolute_of_pieces {p : Path} {q : String} {qs : List String} (h : p.pieces = q :: qs) (hq : q ≠ "") :
    p.isAbsolute = false := by
  rw [← Bool.not_eq_true, Path.isAbsolute_iff, h]
  rintro ⟨r, rs, hr⟩
  exact hq (List.cons.inj hr).1

theorem isAbsolute_down : Path.isAbsolute ⟨"/".intercalate (List.replicate 16 valley)⟩ = false :=
  isAbsolute_of_pieces pieces_down (ne_valley "" (by decide)).symm

theorem isAbsolute_out : Path.isAbsolute ⟨"/".intercalate (List.replicate 16 ".." ++ ["a.sfz"])⟩ = false :=
  isAbsolute_of_pieces pieces_out (by decide)

theorem walk_down (links : Nat) (rest : List String) :
    (abyss text beside hb).walk (links + 1) 0 ("s" :: rest) = (abyss text beside hb).walk links 16 rest := by
  have hlookup : [("a.sfz", 17), ("g.sfz", 18), ("s", 19), (valley, 1)].lookup "s" = some 19 := rfl
  rw [walk_link (directory?_abyss hb) (by decide) (by decide) (by decide) hlookup (object?_abyss hb (by decide)),
    isAbsolute_down, if_neg Bool.false_ne_true, pieces_down, walk_valley hb links (Nat.zero_add 16)]

theorem walk_cave (links : Nat) : (abyss text beside hb).walk (links + 1) 16 [cave] = .ok 17 := by
  have hlookup : [("a.sfz", 17), ("g.sfz", 18), ("s", 19), (valley, 1)].lookup "a.sfz" = some 17 := rfl
  rw [walk_link (directory?_cave hb) (not_idle_of_isFileName isFileName_cave) (not_up_of_isFileName isFileName_cave)
      (by rw [size_cave]; decide) List.lookup_cons_self (object?_abyss hb (by decide)),
    isAbsolute_out, if_neg Bool.false_ne_true, pieces_out, List.append_nil, walk_out hb links (Nat.le_refl 16),
    walk_entry (directory?_abyss hb) (by decide) (by decide) (by decide) hlookup
      (by simp [object?_abyss hb, abyssObject]), walk]

theorem checkBytes_le (rest : List String) : checkBytes rest ≤ 3 := by
  unfold checkBytes
  split
  next => split <;> omega
  next => split <;> omega

theorem canonicalWalk_valley (links : Nat) {l n : Nat} (hl : l + n = 16) (rest : List String) :
    (abyss text beside hb).canonicalWalk links l (List.replicate n valley ++ rest) =
      (abyss text beside hb).canonicalWalk links 16 rest := by
  induction n generalizing l with
  | zero =>
    obtain rfl : l = 16 := hl
    rfl
  | succ n ih =>
    obtain ⟨d, hd, hlookup, -⟩ := directory?_valley hb text (show l < 16 by omega)
    obtain ⟨d', hd', -⟩ := parent_valley hb text (show l < 16 by omega)
    have hnames := names?_valley hb text (show l ≤ 16 by omega)
    have hsize := Path.size_ofNames_replicate valley l
    rw [size_valley] at hsize
    have hbytes : ¬maxPathBytes < (l + 1) * (254 + 1) := by
      unfold maxPathBytes
      omega
    have hentry : (abyss text beside hb).child? l d valley =
        some (.ofNames (List.replicate (l + 1) valley), l + 1) := by
      have hname : ¬maxNameBytes < valley.utf8ByteSize := by rw [size_valley]; decide
      rw [child?, hnames, hlookup]
      simp [← List.replicate_succ', hsize, hbytes, hname]
    have hcheck : ¬maxPathBytes < (Path.ofNames (List.replicate (l + 1) valley)).text.utf8ByteSize +
        checkBytes (List.replicate n valley ++ rest) := by
      have := checkBytes_le (List.replicate n valley ++ rest)
      rw [hsize]
      unfold maxPathBytes
      omega
    rw [List.replicate_succ, List.cons_append,
      canonicalWalk_directory hd (not_idle_of_isFileName isFileName_valley) (not_up_of_isFileName isFileName_valley)
        hentry (object?_of_directory? hd') hcheck, ih (by omega)]

theorem pieces_below (name : String) (h : isFileName name = true) :
    Path.pieces ⟨"s" ++ "/" ++ name⟩ = ["s", name] := by
  rw [Path.pieces_cons (by decide), Path.pieces_of_not_mem (Path.not_mem_of_isFileName h)]

theorem canonical?_cave : (abyss text beside hb).canonical? ⟨"s" ++ "/" ++ cave⟩ = none := by
  have hroot : (abyss text beside hb).names? 0 = some [] := by rw [names?, if_pos rfl]
  have hentry : (abyss text beside hb).child? 0 ⟨0, [("a.sfz", 17), ("g.sfz", 18), ("s", 19), (valley, 1)]⟩ "s" =
      some (.ofNames ["s"], 19) := by
    rw [child?, hroot]
    rfl
  have hcave : (abyss text beside hb).child? 16 ⟨15, [(cave, 20)]⟩ cave = none := by
    have hsize : maxPathBytes < (Path.ofNames (List.replicate 16 valley ++ [cave])).text.utf8ByteSize := by
      have hslash : "/".utf8ByteSize = 1 := by decide
      have hvalley : (Path.ofNames (List.replicate 16 valley)).text.utf8ByteSize = 16 * (valley.utf8ByteSize + 1) :=
        Path.size_ofNames_replicate valley 15
      rw [Path.ofNames, String.utf8ByteSize_append, hslash, size_valley] at hvalley
      rw [Path.ofNames, String.intercalate_append_of_ne_nil (by simp) (by simp), String.intercalate_singleton,
        String.utf8ByteSize_append, String.utf8ByteSize_append, String.utf8ByteSize_append, hslash, size_cave]
      unfold maxPathBytes
      omega
    rw [child?, names?_valley hb text (Nat.le_refl 16)]
    simp only [Option.bind_eq_bind, Option.bind_some, List.lookup_cons_self, hsize, decide_true, Bool.or_true, ↓reduceIte]
  have hpieces := pieces_below cave isFileName_cave
  rw [canonical?, if_neg (by simp), startOf, isAbsolute_of_pieces hpieces (by decide), if_neg Bool.false_ne_true,
    show (abyss text beside hb).working = 0 from rfl, hpieces, maxLinks,
    canonicalWalk_link (directory?_abyss hb) (by decide) (by decide) hentry (object?_abyss hb (by decide)),
    isAbsolute_down, if_neg Bool.false_ne_true, pieces_down, canonicalWalk_valley hb _ (Nat.zero_add 16)]
  exact canonicalWalk_none (directory?_cave hb) (not_idle_of_isFileName isFileName_cave)
    (not_up_of_isFileName isFileName_cave) hcave _ _

theorem locate_cave : (abyss text beside hb).locateFile? ⟨"s" ++ "/" ++ cave⟩ = some 17 := by
  have hpieces := pieces_below cave isFileName_cave
  have hnul := Path.nul_not_mem_of_isFileName isFileName_cave
  refine locateFile?_eq_some.mpr ⟨locate_eq_ok.mpr ⟨by simp, by simpa using hnul, ?_, ?_⟩, ?_⟩
  · rw [String.utf8ByteSize_append, size_cave]
    decide
  · rw [startOf, isAbsolute_of_pieces hpieces (by decide), if_neg Bool.false_ne_true,
      show (abyss text beside hb).working = 0 from rfl, hpieces, maxLinks, walk_down, walk_cave]
  · exact mem_files_iff.mpr ⟨some text, object?_abyss hb (by decide)⟩

theorem holds_abyss : (abyss text beside hb).Holds "a.sfz" 17 text :=
  holds_entry rfl (directory?_abyss hb) rfl (object?_abyss hb (by decide)) (by decide)

theorem holds_beside {text' : String} (h : beside = .file (some text')) :
    (abyss text beside hb).Holds "g.sfz" 18 text' := by
  refine holds_entry rfl (directory?_abyss hb) rfl ?_ (by decide)
  rw [object?_abyss hb (by decide), ← h]
  rfl

theorem key_cave : (abyss text beside hb).key ⟨"s" ++ "/" ++ cave⟩ = [.name "s", .name cave] := by
  rw [key_of_canonical?_none (canonical?_cave hb)]
  decide

theorem openInclude_cave {ns : List Node} (hp : Node.parse text = .ok ns) (macros : MacroTable) :
    ∃ hs hc, openInclude (abyss text beside hb) [(abyss text beside hb).key ⟨"a.sfz"⟩] macros ⟨""⟩
      ("s" ++ "/" ++ cave) = .ok ⟨⟨"s" ++ "/" ++ cave⟩, [.name "s", .name cave], ns, hs, hc⟩ := by
  have hne : (abyss text beside hb).key ⟨"s" ++ "/" ++ cave⟩ ∉ [(abyss text beside hb).key ⟨"a.sfz"⟩] := by
    rw [key_cave, (holds_abyss hb).key]
    decide
  have hnodes : (abyss text beside hb).nodes ⟨"s" ++ "/" ++ cave⟩ = .ok ns :=
    nodes_of_locate_eq (holds_abyss hb).located (locateFile?_eq_some.mp (locate_cave hb)).1 ((holds_abyss hb).nodes hp)
  have hexpand : macros.expand ("s" ++ "/" ++ cave) = ⟨"s" ++ "/" ++ cave, []⟩ := macros.expand_plain (by decide)
  have hjoin : Path.join ⟨""⟩ ⟨"s" ++ "/" ++ cave⟩ = ⟨"s" ++ "/" ++ cave⟩ := by decide
  have hopen := openInclude_of_expand hexpand hjoin (locate_cave hb) hne hnodes
  simp only [key_cave] at hopen
  exact ⟨_, _, hopen⟩

theorem resolve_abyss {ns : List Node} (hp : Node.parse text = .ok ns) (macros : MacroTable) :
    (abyss text beside hb).resolve ⟨"a.sfz"⟩ none macros = .ok (splice (abyss text beside hb)
      [(abyss text beside hb).key ⟨"a.sfz"⟩] ⟨"a.sfz"⟩ ⟨""⟩ ns ⟨.empty ⟨"a.sfz"⟩, #[], macros⟩) := by
  have hbase : (none : Option Path).getD (Path.directory ⟨"a.sfz"⟩) = ⟨""⟩ := by decide
  rw [resolve_eq, (holds_abyss hb).nodes hp, hbase]
  rfl

theorem splice_cave {ns : List Node} (hp : Node.parse text = .ok ns) (file : Path) (span : Span) (rest : List Node)
    (s : Resolution) : splice (abyss text beside hb) [(abyss text beside hb).key ⟨"a.sfz"⟩] file ⟨""⟩
        (.inclusion ("s" ++ "/" ++ cave) span :: rest) s =
      splice (abyss text beside hb) [(abyss text beside hb).key ⟨"a.sfz"⟩] file ⟨""⟩ rest
        (splice (abyss text beside hb) [[.name "s", .name cave], (abyss text beside hb).key ⟨"a.sfz"⟩]
          ⟨"s" ++ "/" ++ cave⟩ ⟨"s"⟩ ns s) := by
  have hdirectory : Path.directory ⟨"s" ++ "/" ++ cave⟩ = ⟨"s"⟩ := by decide
  obtain ⟨hs, hc, hopen⟩ := openInclude_cave hb hp s.macros
  rw [splice_enter _ _ _ _ hopen]
  dsimp only
  rw [hdirectory]

def isLost (raw : String) : Bool :=
  !raw.toList.contains '$' && !raw.toList.contains '\\' &&
    (Path.pieces ⟨raw⟩).head?.any (fun name => isFileName name && name != cave)

theorem locate_lost {raw name : String} {names : List String} (hp : Path.pieces ⟨raw⟩ = name :: names)
    (hname : isFileName name = true) (hne : name ≠ cave) :
    (abyss text beside hb).locateFile? ⟨"s" ++ "/" ++ raw⟩ = none := by
  have hpieces : Path.pieces ⟨"s" ++ "/" ++ raw⟩ = "s" :: name :: names := by
    rw [Path.pieces_cons (by decide), hp]
  have hlookup : [(cave, (20 : Location))].lookup name = none := by
    simp [List.lookup_cons, beq_eq_false_iff_ne.mpr hne]
  rw [Option.eq_none_iff_forall_ne_some]
  intro l hl
  obtain ⟨-, -, -, hw⟩ := locate_eq_ok.mp (locateFile?_eq_some.mp hl).1
  rw [startOf, isAbsolute_of_pieces hpieces (by decide), if_neg Bool.false_ne_true,
    show (abyss text beside hb).working = 0 from rfl, hpieces, maxLinks, walk_down, walk, directory?_cave] at hw
  simp only [not_idle_of_isFileName hname, not_up_of_isFileName hname, hlookup, Bool.false_eq_true, ↓reduceIte] at hw
  split at hw <;> simp at hw

theorem splice_lost {raw : String} (h : isLost raw = true) (chain : List FileKey) (file : Path) (span : Span)
    (rest : List Node) (s : Resolution) :
    splice (abyss text beside hb) chain file ⟨"s"⟩ (.inclusion raw span :: rest) s =
      splice (abyss text beside hb) chain file ⟨"s"⟩ rest
        (s.report ⟨.includeNotFound (s.macros.written raw), ⟨file, span⟩, none⟩) := by
  simp only [isLost, Bool.and_eq_true, Bool.not_eq_true', List.contains_eq_mem, decide_eq_false_iff_not,
    Option.any_eq_true, bne_iff_ne] at h
  obtain ⟨⟨hdollar, hback⟩, name, hhead, hname, hne⟩ := h
  obtain ⟨names, hp⟩ := List.head?_eq_some_iff.mp hhead
  have hslashes : String.ofList (raw.toList.map (fun c => if c = '\\' then '/' else c)) = raw := by
    have hsame : ∀ c ∈ raw.toList, (if c = '\\' then '/' else c) = id c := by
      intro c hc
      apply if_neg
      rintro rfl
      exact hback hc
    rw [List.map_congr_left hsame, List.map_id, String.ofList_toList]
  have hjoin : Path.join ⟨"s"⟩ ⟨raw⟩ = ⟨"s" ++ "/" ++ raw⟩ := by
    have hidle := Path.isIdle_of_isFileName hname
    rw [Path.join, isAbsolute_of_pieces hp (by rintro rfl; simp [Path.isIdle] at hidle)]
    rfl
  exact splice_refuse _ _ _ _ (openInclude_missing_of_expand (s.macros.expand_plain hdollar) (by rw [hslashes, hjoin])
    (locate_lost hb hp hname hne) chain) rest

end Abyss

end FileTree

end Sfz
