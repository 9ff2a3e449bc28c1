import Sfz.Check
import Sfz.Proofs.SampleWalk

/-!
Answers with listings that have been kept. The findings on the file of a setting are those of the setting alone,
unless a directory was first asked for under a text on the other side of the greatest length of paths.
-/

namespace Sfz

namespace Document

open Sample

variable {t : FileTree} {settings : Settings} {d : Document}

def requests (d : Document) (settings : Settings) (ss : List (Nat × Setting)) : List (Path × String) :=
  (ss.filter (fun x => !isGenerated x.2.value)).map (fun x => (sampleBase settings x.2, d.sampleValue x.1 x.2))

def fileFindings (t : FileTree) (settings : Settings) (s : Setting) (value : String) : List Finding :=
  if isGenerated s.value then []
  else ((sampleProblem? (Sample.check t .empty (sampleBase settings s) value).1).map s.finding).toList

section Findings

variable {x : Nat × Setting}

theorem sampleFindings_of_generated (hx : isGenerated x.2.value = true) (c : Listings)
    (rest : List (Nat × Setting)) :
    sampleFindings t settings d c (x :: rest) = sampleFindings t settings d c rest :=
  if_pos hx

theorem sampleFindings_of_checked (hx : isGenerated x.2.value = false) (c : Listings)
    (rest : List (Nat × Setting)) :
    sampleFindings t settings d c (x :: rest) =
      ((sampleProblem? (Sample.check t c (sampleBase settings x.2) (d.sampleValue x.1 x.2)).1).map
        x.2.finding).toList ++
      sampleFindings t settings d (Sample.check t c (sampleBase settings x.2) (d.sampleValue x.1 x.2)).2 rest :=
  if_neg (Bool.eq_false_iff.mp hx)

theorem requests_of_generated (hx : isGenerated x.2.value = true) (rest : List (Nat × Setting)) :
    d.requests settings (x :: rest) = d.requests settings rest := by
  simp [requests, hx]

theorem requests_of_checked (hx : isGenerated x.2.value = false) (rest : List (Nat × Setting)) :
    d.requests settings (x :: rest) =
      (sampleBase settings x.2, d.sampleValue x.1 x.2) :: d.requests settings rest := by
  simp [requests, hx]

theorem sampleFindings_append (c : Listings) (earlier later : List (Nat × Setting)) :
    sampleFindings t settings d c (earlier ++ later) = sampleFindings t settings d c earlier ++
      sampleFindings t settings d ((d.requests settings earlier).foldl
        (fun c request => (Sample.check t c request.1 request.2).2) c) later := by
  induction earlier generalizing c with
  | nil => rfl
  | cons x earlier ih =>
    rw [List.cons_append]
    cases hx : isGenerated x.2.value with
    | true =>
      rw [sampleFindings_of_generated hx, sampleFindings_of_generated hx, requests_of_generated hx]
      exact ih c
    | false =>
      rw [sampleFindings_of_checked hx, sampleFindings_of_checked hx, requests_of_checked hx, ih,
        List.append_assoc]
      rfl

theorem sampleFindings_alone (earlier : List (Nat × Setting))
    (h : isGenerated x.2.value = false →
      ListedAlike t (d.requests settings earlier) (sampleBase settings x.2) (d.sampleValue x.1 x.2)) :
    sampleFindings t settings d (.after t (d.requests settings earlier)) [x] =
      fileFindings t settings x.2 (d.sampleValue x.1 x.2) := by
  unfold fileFindings
  cases hx : isGenerated x.2.value with
  | true => exact sampleFindings_of_generated hx _ _
  | false =>
    rw [sampleFindings_of_checked hx, check_after (h hx)]
    exact List.append_nil _

end Findings

end Document

namespace Sample

open Listings Document

theorem kept_listings_answer_alike (t : FileTree) :
    (∀ history base value, ListedAlike t history base value →
      (check t (.after t history) base value).1 = (check t .empty base value).1) ∧
    ∀ (settings : Settings) (d : Document) earlier x later,
      (isGenerated x.2.value = false →
        ListedAlike t (d.requests settings earlier) (sampleBase settings x.2) (d.sampleValue x.1 x.2)) →
      sampleFindings t settings d .empty (earlier ++ x :: later) =
        sampleFindings t settings d .empty earlier ++
          fileFindings t settings x.2 (d.sampleValue x.1 x.2) ++
          sampleFindings t settings d (.after t (d.requests settings (earlier ++ [x]))) later := by
  refine ⟨fun _ _ _ => check_after, ?_⟩
  intro settings d earlier x later h
  have hone := sampleFindings_alone earlier h
  rw [List.append_cons, sampleFindings_append, sampleFindings_append, ← hone]
  rfl

end Sample

namespace FileTree

def drumsPath : Nat → Path
  | 0 => ⟨"/Drums"⟩
  | n + 1 => ⟨(drumsPath n).text ++ "/"⟩

theorem isAbsolute_drumsPath (n : Nat) : (drumsPath n).isAbsolute = true := by
  have hhead : (drumsPath n).text.toList.head? = some '/' := by
    induction n with
    | zero => decide
    | succ n ih => simp [drumsPath, ih]
  rw [Path.isAbsolute, hhead]
  rfl

theorem components_drumsPath (n : Nat) : (drumsPath n).components = [.root, .name "Drums"] := by
  rw [Path.components_of_absolute (isAbsolute_drumsPath n)]
  induction n with
  | zero => decide +kernel
  | succ n ih =>
    have hpieces : (drumsPath (n + 1)).pieces = (drumsPath n).pieces ++ [""] := by
      have htext : (drumsPath (n + 1)).text.toList = (drumsPath n).text.toList ++ '/' :: [] := by simp [drumsPath]
      rw [Path.pieces, htext, Path.split_slash, List.map_append]
      rfl
    have hempty : Path.componentsOf [""] = [] := by decide
    rw [hpieces, Path.componentsOf_append, hempty, List.append_nil, ih]

theorem size_drumsPath (n : Nat) : (drumsPath n).text.utf8ByteSize = n + 6 := by
  induction n with
  | zero => decide
  | succ n ih =>
    have hslash : "/".utf8ByteSize = 1 := by decide
    rw [drumsPath, String.utf8ByteSize_append, ih, hslash]

end FileTree

namespace Sample

open Listings Document FileTree

section Drums

variable {part : String} (hpart : part ∈ ["Kick.wav", "KICK.WAV"])
include hpart

theorem parts_kick : isGenerated part = false ∧ part ≠ ".." ∧ parts (normalize part) = [part] ∧
    ∀ base, startOf base part = base := by
  simp only [List.mem_cons, List.not_mem_nil, or_false] at hpart
  rcases hpart with rfl | rfl
  · exact ⟨by decide, by decide, by decide +kernel, startOf_relative (by decide) (by decide)⟩
  · exact ⟨by decide, by decide, by decide +kernel, startOf_relative (by decide) (by decide)⟩

theorem asked_kick (t : FileTree) (c : Listings) (dir : Path) : asked t c dir part = [dir] := by
  obtain ⟨hg, hup, hparts, hstart⟩ := parts_kick hpart
  rw [asked, hg, hparts, hstart]
  cases he : entryFor? (c.shown t dir) part <;> simp [stations, hup, he]

theorem check_kick {t : FileTree} {c : Listings} (hc : c.Sound t) (dir : Path) : (check t c dir part).1 =
    statusOf [part] ((entryFor? (c.shown t dir) part).map (fun name => [name])) := by
  obtain ⟨hg, hup, hparts, hstart⟩ := parts_kick hpart
  rw [check_fst hg hc, hparts, hstart, route?_part hup]
  cases entryFor? (c.shown t dir) part <;> rfl

theorem firstOf?_drumsPath (t : FileTree) (m n : Nat) :
    firstOf? (askedBy t .empty [(drumsPath m, part)]) (drumsPath n).components = some (drumsPath m) := by
  rw [askedBy, asked_kick hpart, components_drumsPath, firstOf?]
  simp [components_drumsPath]

end Drums

theorem list?_drumsPath {n : Nat} (h : 4090 ≤ n) : kickFirst.list? (drumsPath n) = none := by
  rw [FileTree.list?, size_drumsPath, maxPathBytes, if_pos (by omega)]

theorem shown_drumsPath (n : Nat) :
    (Listings.after kickFirst [(drumsPath 0, "Kick.wav")]).shown kickFirst (drumsPath n) =
      some ["Kick.wav", "Snare.wav"] := by
  rw [(recalls_after kickFirst _).shown, firstOf?_drumsPath (by decide), Option.getD_some, drumsPath,
    list?_kickFirst.2]

theorem kept_listing_of_long_path :
    (check kickFirst .empty (drumsPath 4090) "Kick.wav").1 = .missing ∧
    (check kickFirst (.after kickFirst [(drumsPath 0, "Kick.wav")]) (drumsPath 4090) "Kick.wav").1 = .found := by
  constructor
  · rw [check_kick (by decide) (sound_empty _), shown_empty, list?_drumsPath le_rfl]
    rfl
  · have hentry : entryFor? (some ["Kick.wav", "Snare.wav"]) "Kick.wav" = some "Kick.wav" := by decide
    rw [check_kick (by decide) (sound_after _ _), shown_drumsPath, hentry]
    rfl

theorem listedAlike_drumsPath (m n : Nat) (hm : m < 4000) (hn : n < 4000) :
    ListedAlike kickFirst [(drumsPath m, "Kick.wav")] (drumsPath n) "KICK.WAV" := by
  intro q hq p hp
  rw [asked_kick (by decide), List.mem_singleton] at hq
  subst hq
  rw [firstOf?_drumsPath (by decide)] at hp
  obtain rfl := Option.some.inj hp
  rw [size_drumsPath, size_drumsPath, maxPathBytes]
  omega

def kickAt (line : Nat) (value : String) : Nat × Setting :=
  (0, ⟨"sample", value, ⟨⟨"a"⟩, line, 1⟩⟩)

theorem kept_listings_answer_alike_drums :
    (check kickFirst (.after kickFirst [(drumsPath 0, "Kick.wav")]) (drumsPath 1) "KICK.WAV").1 =
      (check kickFirst .empty (drumsPath 1) "KICK.WAV").1 ∧
    sampleFindings kickFirst { basePath := some (drumsPath 2) } ⟨⟨"a"⟩, #[], #[]⟩ .empty
        [kickAt 1 "Kick.wav", kickAt 2 "KICK.WAV"] =
      sampleFindings kickFirst { basePath := some (drumsPath 2) } ⟨⟨"a"⟩, #[], #[]⟩ .empty [kickAt 1 "Kick.wav"] ++
        fileFindings kickFirst { basePath := some (drumsPath 2) } (kickAt 2 "KICK.WAV").2 "KICK.WAV" := by
  obtain ⟨hcheck, hfindings⟩ := kept_listings_answer_alike kickFirst
  refine ⟨hcheck _ _ _ (listedAlike_drumsPath 0 1 (by decide) (by decide)), ?_⟩
  have hvalue : ∀ line ∈ [1, 2], ∀ value ∈ ["Kick.wav", "KICK.WAV"],
      sampleValue ⟨⟨"a"⟩, #[], #[]⟩ (kickAt line value).1 (kickAt line value).2 = value := by decide +kernel
  have hbase (line : Nat) (value : String) :
      sampleBase { basePath := some (drumsPath 2) } (kickAt line value).2 = drumsPath 2 := rfl
  have hfirst : requests ⟨⟨"a"⟩, #[], #[]⟩ { basePath := some (drumsPath 2) } [kickAt 1 "Kick.wav"] =
      [(drumsPath 2, "Kick.wav")] := by
    rw [requests_of_checked (by decide), hvalue 1 (by decide) _ (by decide), hbase]
    rfl
  have halike : ListedAlike kickFirst
      (requests ⟨⟨"a"⟩, #[], #[]⟩ { basePath := some (drumsPath 2) } [kickAt 1 "Kick.wav"])
      (sampleBase { basePath := some (drumsPath 2) } (kickAt 2 "KICK.WAV").2)
      (sampleValue ⟨⟨"a"⟩, #[], #[]⟩ (kickAt 2 "KICK.WAV").1 (kickAt 2 "KICK.WAV").2) := by
    rw [hfirst, hvalue 2 (by decide) _ (by decide), hbase]
    exact listedAlike_drumsPath 2 2 (by decide) (by decide)
  have h := hfindings { basePath := some (drumsPath 2) } ⟨⟨"a"⟩, #[], #[]⟩ [kickAt 1 "Kick.wav"]
    (kickAt 2 "KICK.WAV") [] (fun _ => halike)
  rw [sampleFindings, List.append_nil, hvalue 2 (by decide) _ (by decide)] at h
  exact h

end Sample

end Sfz
