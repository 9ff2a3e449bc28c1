import Sfz.Proofs.NodeWriting

namespace Sfz

namespace Text

theorem splitLines_cases {cs k : List Char} {ls : List (List Char)} (h : splitLines cs = k :: ls) :
    (cs = k ∧ ls = []) ∨ ∃ rest, cs = k ++ '\n' :: rest ∧ splitLines rest = ls := by
  induction cs generalizing k with
  | nil =>
    obtain ⟨rfl, rfl⟩ : [] = k ∧ [] = ls := by simpa [splitLines] using h
    exact .inl ⟨rfl, rfl⟩
  | cons c cs ih =>
    rw [splitLines] at h
    split at h
    next hc =>
      obtain ⟨rfl, rfl⟩ := List.cons.inj h
      exact .inr ⟨cs, by rw [hc, List.nil_append], rfl⟩
    next =>
      split at h
      next hnil => exact absurd hnil (splitLines_ne_nil cs)
      next l ls' hs =>
        obtain ⟨rfl, rfl⟩ := List.cons.inj h
        rcases ih hs with ⟨rfl, rfl⟩ | ⟨rest, rfl, hrest⟩
        · exact .inl ⟨rfl, rfl⟩
        · exact .inr ⟨rest, rfl, hrest⟩

def extent : List (List Char) → Nat
  | [] => 0
  | l :: ls => l.length + 1 + extent ls

theorem splitLines_cut {cs l : List Char} {ls ms : List (List Char)} (h : splitLines cs = ls ++ l :: ms) :
    ∃ as bs, cs = as ++ (l ++ bs) ∧ as.length = extent ls ∧
      ∀ k, '\n' ∉ k → splitLines (as ++ (k ++ bs)) = ls ++ k :: ms := by
  induction ls generalizing cs with
  | nil =>
    rcases splitLines_cases h with ⟨rfl, rfl⟩ | ⟨rest, rfl, rfl⟩
    · refine ⟨[], [], by simp, rfl, fun k hk => ?_⟩
      rw [List.nil_append, List.append_nil, splitLines_of_not_mem hk]
      rfl
    · refine ⟨[], '\n' :: rest, rfl, rfl, fun k hk => ?_⟩
      rw [List.nil_append, splitLines_append, splitLines_of_not_mem hk]
      rfl
  | cons j ls ih =>
    have hj : '\n' ∉ j := by
      have hmem : j ∈ splitLines cs := by
        rw [h]
        exact List.mem_cons_self ..
      exact not_mem_of_mem_splitLines hmem
    rcases splitLines_cases h with ⟨-, hnil⟩ | ⟨rest, rfl, hrest⟩
    · simp at hnil
    · obtain ⟨as, bs, rfl, hlength, hcut⟩ := ih hrest
      refine ⟨j ++ '\n' :: as, bs, by simp, ?_, fun k hk => ?_⟩
      · simp only [List.length_append, List.length_cons, hlength, extent]
        omega
      · rw [List.append_assoc, List.cons_append, splitLines_append, splitLines_of_not_mem hj, hcut k hk]
        rfl

def overwrite (cs : List Char) (start width : Nat) : List Char :=
  cs.take start ++ (List.replicate width ' ' ++ cs.drop (start + width))

structure Framed (front body back : List Char) : Prop where
  front : ∀ c ∈ front, isBlank c = true
  first : ∃ d ds, body = d :: ds ∧ isBlank d = false
  last : ∃ ds d, body = ds ++ [d] ∧ isBlank d = false
  back : ∀ c ∈ back, isBlank c = true

theorem framed_trim {l : List Char} (h : trimStart l ≠ []) :
    Framed (l.takeWhile isBlank) (trim l) ((trimStart l).rtakeWhile isBlank) := by
  have hstart : trimStart (trimStart l) = trimStart l := List.dropWhile_idempotent isBlank l
  have hhead := List.dropWhile_eq_self_iff.mp hstart (List.length_pos_of_ne_nil h)
  have hne : trim l ≠ [] := by
    intro hnil
    rw [trim, trimEnd_eq_rdropWhile, List.rdropWhile_eq_nil_iff] at hnil
    exact hhead (hnil _ (List.getElem_mem _))
  refine ⟨fun c => List.mem_takeWhile_imp, ?_, ?_, fun c => List.mem_rtakeWhile_imp⟩
  · obtain ⟨d, ds, hds⟩ := List.exists_cons_of_ne_nil hne
    have htrim := trimStart_of_isPrefix (trim_isPrefix l) hstart
    rw [hds] at htrim
    have hd := List.dropWhile_eq_self_iff.mp htrim (Nat.succ_pos _)
    exact ⟨d, ds, hds, Bool.eq_false_iff.mpr hd⟩
  · have hlast := List.rdropWhile_last_not isBlank (trimStart l) (by rwa [← trimEnd_eq_rdropWhile])
    refine ⟨(trim l).dropLast, (trim l).getLast hne, (List.dropLast_append_getLast hne).symm, ?_⟩
    simp only [← trimEnd_eq_rdropWhile] at hlast
    exact Bool.eq_false_iff.mpr hlast

theorem trim_append_rtakeWhile (l : List Char) : trim l ++ (trimStart l).rtakeWhile isBlank = trimStart l := by
  rw [trim, trimEnd_eq_rdropWhile]
  exact List.rdropWhile_append_rtakeWhile

theorem takeWhile_append_trimStart (l : List Char) : l.takeWhile isBlank ++ trimStart l = l :=
  List.takeWhile_append_dropWhile

theorem drop_takeWhile (l : List Char) : l.drop (l.takeWhile isBlank).length = trimStart l :=
  (congrArg (List.drop _) (takeWhile_append_trimStart l)).symm.trans List.drop_left

theorem Framed.isBlank_spaces {front body back : List Char} (h : Framed front body back) (k : Nat) :
    ∀ c ∈ front ++ (List.replicate k ' ' ++ back), isBlank c = true := by
  intro c hc
  rcases List.mem_append.mp hc with hc | hc
  · exact h.front c hc
  · rcases List.mem_append.mp hc with hc | hc
    · rw [List.eq_of_mem_replicate hc]
      decide
    · exact h.back c hc

end Text

namespace Comment

open Sfz.Text

theorem isBlank_blank (c : Char) : isBlank (blank c) = true := by
  unfold blank
  split
  next h =>
    rcases h with rfl | rfl
    · decide
    · decide
  next => decide

def Reaches (m : Mode) (s : Span) (cs code : List Char) (s' : Span) : Prop :=
  ∀ bs, Clear bs → blankFrom m s (cs ++ bs) = (blankFrom .code s' bs).map (code ++ ·)

theorem Reaches.cons {m n : Mode} {s s' s'' : Span} {cs code : List Char} (front out : List Char)
    (hstep : ∀ bs, Clear bs →
      blankFrom m s (front ++ cs ++ bs) = (blankFrom n s' (cs ++ bs)).map (out ++ ·))
    (h : Reaches n s' cs code s'') : Reaches m s (front ++ cs) (out ++ code) s'' := by
  intro bs hb
  rw [hstep bs hb, h bs hb]
  cases blankFrom .code s'' bs with
  | error o => rfl
  | ok x => simp [Except.map]

theorem take_ne_cons {cs : List Char} {d : Char} (h : ∀ ds, cs ≠ d :: ds) (k : Nat) (ds : List Char) :
    cs.take k ≠ d :: ds := by
  intro htake
  apply h (ds ++ cs.drop k)
  rw [← List.cons_append, ← htake, List.take_append_drop]

/-- Where code comes out there is no comment: what was blanked before does not depend on what follows, and
what follows is blanked by itself. -/
theorem blankFrom_cut {m : Mode} {s : Span} {cs as bs : List Char} {d : Char} (hd : isBlank d = false)
    (h : blankFrom m s cs = .ok (as ++ d :: bs)) : ∃ s' s'', Reaches m s (cs.take as.length) as s' ∧
      blankFrom .code s'' (cs.drop (as.length + 1)) = .ok bs := by
  -- a blank character of the code is one of those before the cut
  have hpeel {b : Char} (hb : isBlank b = true) {out as : List Char} (hcode : b :: out = as ++ d :: bs) :
      ∃ as', as = b :: as' ∧ out = as' ++ d :: bs := by
    rcases List.cons_eq_append_iff.mp hcode with ⟨-, hcons⟩ | h
    · obtain ⟨rfl, -⟩ := List.cons.inj hcons
      rw [hd] at hb
      cases hb
    · exact h
  have hspace : isBlank ' ' = true := by decide
  fun_induction blankFrom m s cs generalizing as with
  | case1 => simp at h
  | case2 => simp at h
  | case3 s cs ih =>
    simp only [bind_eq_ok, pure_eq_ok] at h
    obtain ⟨out, hout, hcode⟩ := h
    obtain ⟨as, rfl, hcode'⟩ := hpeel hspace hcode
    obtain ⟨as, rfl, rfl⟩ := hpeel hspace hcode'
    obtain ⟨s', s'', hreach, hrest⟩ := ih hout
    refine ⟨s', s'', Reaches.cons ['/', '/'] [' ', ' '] (fun bs _ => ?_) hreach, hrest⟩
    simp only [List.cons_append, List.nil_append, blankFrom]
    rfl
  | case4 s cs ih =>
    simp only [bind_eq_ok, pure_eq_ok] at h
    obtain ⟨out, hout, hcode⟩ := h
    obtain ⟨as, rfl, hcode'⟩ := hpeel hspace hcode
    obtain ⟨as, rfl, rfl⟩ := hpeel hspace hcode'
    obtain ⟨s', s'', hreach, hrest⟩ := ih hout
    refine ⟨s', s'', Reaches.cons ['/', '*'] [' ', ' '] (fun bs _ => ?_) hreach, hrest⟩
    simp only [List.cons_append, List.nil_append, blankFrom]
    rfl
  | case5 s c cs h1 h2 ih =>
    simp only [bind_eq_ok, pure_eq_ok] at h
    obtain ⟨out, hout, hcode⟩ := h
    cases as with
    | nil =>
      obtain ⟨rfl, rfl⟩ := List.cons.inj hcode
      refine ⟨s, s.next c, fun bs _ => ?_, hout⟩
      rw [List.length_nil, List.take_zero, List.nil_append]
      cases blankFrom .code s bs <;> rfl
    | cons a as =>
      obtain ⟨rfl, rfl⟩ := List.cons.inj hcode
      obtain ⟨s', s'', hreach, hrest⟩ := ih hout
      refine ⟨s', s'', Reaches.cons [c] [c] (fun bs hb => ?_) hreach, hrest⟩
      simp only [List.cons_append, List.nil_append]
      rw [blankFrom]
      · rfl
      · intro ds hc
        exact append_ne_cons hb.1 (take_ne_cons (fun ds => h1 ds hc) _) ds
      · intro ds hc
        exact append_ne_cons hb.2 (take_ne_cons (fun ds => h2 ds hc) _) ds
  | case6 s c cs ih =>
    simp only [bind_eq_ok, pure_eq_ok] at h
    obtain ⟨out, hout, hcode⟩ := h
    obtain ⟨as, rfl, rfl⟩ := hpeel (isBlank_blank c) hcode
    obtain ⟨s', s'', hreach, hrest⟩ := ih hout
    refine ⟨s', s'', Reaches.cons [c] [blank c] (fun bs _ => ?_) hreach, hrest⟩
    simp only [List.cons_append, List.nil_append, blankFrom]
    rfl
  | case7 o s cs ih =>
    simp only [bind_eq_ok, pure_eq_ok] at h
    obtain ⟨out, hout, hcode⟩ := h
    obtain ⟨as, rfl, hcode'⟩ := hpeel hspace hcode
    obtain ⟨as, rfl, rfl⟩ := hpeel hspace hcode'
    obtain ⟨s', s'', hreach, hrest⟩ := ih hout
    refine ⟨s', s'', Reaches.cons ['*', '/'] [' ', ' '] (fun bs _ => ?_) hreach, hrest⟩
    simp only [List.cons_append, List.nil_append, blankFrom]
    rfl
  | case8 o s c cs h1 ih =>
    simp only [bind_eq_ok, pure_eq_ok] at h
    obtain ⟨out, hout, hcode⟩ := h
    obtain ⟨as, rfl, rfl⟩ := hpeel (isBlank_blank c) hcode
    obtain ⟨s', s'', hreach, hrest⟩ := ih hout
    refine ⟨s', s'', Reaches.cons [c] [blank c] (fun bs hb => ?_) hreach, hrest⟩
    simp only [List.cons_append, List.nil_append]
    rw [blankFrom]
    · rfl
    · intro ds hc
      exact append_ne_cons hb.1 (take_ne_cons (fun ds => h1 ds hc) _) ds

theorem blankFrom_spaces {s : Span} {cs code : List Char} (h : blankFrom .code s cs = .ok code) (k : Nat)
    (s' : Span) : blankFrom .code s' (List.replicate k ' ' ++ cs) = .ok (List.replicate k ' ' ++ code) := by
  induction k generalizing s' with
  | zero => exact blankFrom_place h
  | succ k ih =>
    rw [List.replicate_succ, List.cons_append, blankFrom, ih]
    · rfl
    · simp
    · simp

theorem blankFrom_overwrite {s : Span} {cs as front body back bs : List Char} (hf : Framed front body back)
    (h : blankFrom .code s cs = .ok (as ++ (body ++ bs))) :
    blankFrom .code s (overwrite cs as.length body.length) =
      .ok (as ++ (List.replicate body.length ' ' ++ bs)) := by
  obtain ⟨d, ds, hfirst, hd⟩ := hf.first
  obtain ⟨es, e, hlast, he⟩ := hf.last
  have hafter : ∃ s', blankFrom .code s' (cs.drop (as.length + body.length)) = .ok bs := by
    rw [hlast, List.append_assoc, List.singleton_append, ← List.append_assoc] at h
    obtain ⟨-, s', -, hs'⟩ := blankFrom_cut he h
    refine ⟨s', ?_⟩
    rwa [hlast, List.length_append, List.length_singleton, ← Nat.add_assoc, ← List.length_append]
  obtain ⟨s'', hbs⟩ := hafter
  have hclear : Clear (List.replicate body.length ' ' ++ cs.drop (as.length + body.length)) := by
    rw [hfirst, List.length_cons, List.replicate_succ]
    exact ⟨by simp, by simp⟩
  rw [hfirst, List.cons_append] at h
  obtain ⟨s', -, hreach, -⟩ := blankFrom_cut hd h
  rw [overwrite, hreach _ hclear, blankFrom_spaces hbs]
  rfl

end Comment

namespace Parser

open Sfz.Text

theorem inclusion_not_mem_of_scan {s : Span} {cs : List Char} {nodes : List Node} (h : scan s cs = .ok nodes)
    {raw : String} {span : Span} : Node.inclusion raw span ∉ nodes := by
  fun_induction scan s cs generalizing nodes with
  | case1 =>
    obtain rfl := Except.ok.inj h
    exact List.not_mem_nil
  | case2 s c cs hc ih => exact ih h
  | case3 => simp at h
  | case4 s c cs hc name rest ht kind hk ih =>
    simp only [bind_eq_ok, pure_eq_ok] at h
    obtain ⟨ns, hns, rfl⟩ := h
    simpa using ih hns
  | case5 s c cs hc ht name rest ho value after =>
    next ih =>
      simp only [bind_eq_ok, pure_eq_ok] at h
      obtain ⟨ns, hns, rfl⟩ := h
      simpa using ih hns
  | case6 => simp at h

theorem parseLine_of_inclusion {k : Nat} {line : List Char} {nodes : List Node} (h : parseLine k line = .ok nodes)
    {raw : String} {span : Span} (hn : .inclusion raw span ∈ nodes) : nodes = [.inclusion raw span] ∧
      span = ⟨k, (line.takeWhile isBlank).length + 1⟩ ∧ trimStart line ≠ [] := by
  have hcolumn : line.length - (trimStart line).length = (line.takeWhile isBlank).length := by
    have hlength := congrArg List.length (takeWhile_append_trimStart line)
    rw [List.length_append] at hlength
    omega
  rcases parseLine_eq_ok h with ⟨rest, name, value, ha, hv, rfl⟩ | ⟨rest, path, ha, hp, rfl⟩ | hscan
  · simp at hn
  · obtain ⟨rfl, rfl⟩ := Node.inclusion.inj (List.mem_singleton.mp hn)
    refine ⟨rfl, by rw [hcolumn], ?_⟩
    rw [after?_eq_some.mp ha]
    simp
  · exact absurd hn (inclusion_not_mem_of_scan hscan)

theorem parseLine_blank (k : Nat) {line : List Char} (h : ∀ c ∈ line, isBlank c = true) :
    parseLine k line = .ok [] := by
  have hscan (s : Span) : scan s line = .ok [] := by
    induction line generalizing s with
    | nil => exact scan_nil s
    | cons c cs ih =>
      rw [scan_blank s (h c (List.mem_cons_self ..))]
      exact ih (fun d hd => h d (List.mem_cons_of_mem c hd)) _
  have hstart : trimStart line = [] := List.dropWhile_eq_nil_iff.mpr h
  rw [parseLine, hstart]
  exact hscan _

theorem parseLines_cut {k : Nat} {ls : List (List Char)} {before after : List Node} {raw : String}
    {span : Span} (h : parseLines k ls = .ok (before ++ .inclusion raw span :: after)) :
    ∃ as l bs, ls = as ++ l :: bs ∧ parseLines k as = .ok before ∧
      parseLine (k + as.length) l = .ok [.inclusion raw span] ∧
      parseLines (k + as.length + 1) bs = .ok after := by
  induction ls generalizing k before with
  | nil => simp [parseLines] at h
  | cons l ls ih =>
    simp only [parseLines, bind_eq_ok, pure_eq_ok] at h
    obtain ⟨nodes, hnodes, more, hmore, heq⟩ := h
    have hlater {before' : List Node} (hbefore : before = nodes ++ before')
        (hrest : more = before' ++ .inclusion raw span :: after) : ∃ as m bs, l :: ls = as ++ m :: bs ∧
          parseLines k as = .ok before ∧ parseLine (k + as.length) m = .ok [.inclusion raw span] ∧
          parseLines (k + as.length + 1) bs = .ok after := by
      obtain ⟨as, m, bs, rfl, has, hm, hbs⟩ := ih (hmore.trans (congrArg Except.ok hrest))
      have hplace : k + (l :: as).length = k + 1 + as.length := by
        rw [List.length_cons]
        omega
      refine ⟨l :: as, m, bs, rfl, ?_, ?_, ?_⟩
      · rw [parseLines, hnodes, hbefore]
        exact bind_eq_ok.mpr ⟨nodes, rfl, bind_eq_ok.mpr ⟨before', has, rfl⟩⟩
      · rw [hplace]
        exact hm
      · rw [hplace]
        exact hbs
    rcases List.append_eq_append_iff.mp heq with ⟨before', hbefore, hrest⟩ | ⟨rest, hbefore, hrest⟩
    · exact hlater hbefore hrest
    · rcases List.cons_eq_append_iff.mp hrest with ⟨rfl, hmore'⟩ | ⟨rest', rfl, rfl⟩
      · rw [List.append_nil] at hbefore
        exact hlater (hbefore.symm.trans (List.append_nil nodes).symm) hmore'
      · have hmem : Node.inclusion raw span ∈ nodes := by
          rw [hbefore]
          simp
        obtain ⟨hsingle, -, -⟩ := parseLine_of_inclusion hnodes hmem
        obtain ⟨rfl, hrest'⟩ : before = [] ∧ rest' = [] := by
          have hlength := congrArg List.length (hbefore.symm.trans hsingle)
          simp only [List.length_append, List.length_cons, List.length_nil] at hlength
          exact ⟨List.eq_nil_of_length_eq_zero (by omega), List.eq_nil_of_length_eq_zero (by omega)⟩
        subst hrest'
        exact ⟨[], l, ls, rfl, rfl, hnodes.trans (congrArg Except.ok hsingle), hmore⟩

end Parser

namespace Node

open Sfz.Parser Sfz.Comment Sfz.Text

def erase (text : String) (s : Span) : String :=
  match code? text.toList with
  | none => text
  | some code =>
    let ls := splitLines code
    let start := extent (ls.take (s.line - 1)) + (s.column - 1)
    let line := ls.getD (s.line - 1) []
    String.ofList (overwrite text.toList start (trimEnd (line.drop (s.column - 1))).length)

theorem toList_erase {text : String} {code l : List Char} {ls ms : List (List Char)}
    (hcode : blankFrom .code .start text.toList = .ok code) (hls : splitLines code = ls ++ l :: ms) :
    (erase text ⟨1 + ls.length, (l.takeWhile isBlank).length + 1⟩).toList =
      overwrite text.toList (extent ls + (l.takeWhile isBlank).length) (trim l).length := by
  have hget : (ls ++ l :: ms).getD ls.length [] = l := by simp [List.getD]
  rw [erase, code?, hcode]
  simp only [Except.toOption, hls, Nat.add_sub_cancel_left, Nat.add_sub_cancel, List.take_left, hget,
    drop_takeWhile, String.toList_ofList]
  rfl

theorem parse_erase {text : String} {before after : List Node} {raw : String} {span : Span}
    (h : parse text = .ok (before ++ .inclusion raw span :: after)) :
    parse (erase text span) = .ok (before ++ after) := by
  obtain ⟨code, hcode, hlines⟩ := parse_eq_ok.mp h
  obtain ⟨ls, l, ms, hls, hbefore, hline, hafter⟩ := parseLines_cut hlines
  obtain ⟨-, rfl, hstart⟩ := parseLine_of_inclusion hline (List.mem_singleton.mpr rfl)
  have herase := toList_erase hcode hls
  obtain ⟨as, bs, rfl, hextent, hcut⟩ := splitLines_cut hls
  have hframed := framed_trim hstart
  have hl := takeWhile_append_trimStart l
  rw [← trim_append_rtakeWhile] at hl
  generalize l.takeWhile isBlank = front at herase hframed hl ⊢
  generalize (trimStart l).rtakeWhile isBlank = back at hframed hl
  have hwritten : blankFrom .code .start (erase text ⟨1 + ls.length, front.length + 1⟩).toList =
      .ok (as ++ ((front ++ (List.replicate (trim l).length ' ' ++ back)) ++ bs)) := by
    have hcode' : blankFrom .code .start text.toList = .ok ((as ++ front) ++ (trim l ++ (back ++ bs))) := by
      rw [hcode]
      conv_lhs => rw [← hl]
      simp only [List.append_assoc]
    rw [herase, ← hextent, ← List.length_append, blankFrom_overwrite hframed hcode']
    simp only [List.append_assoc]
  have hnewline : '\n' ∉ front ++ (List.replicate (trim l).length ' ' ++ back) := by
    have hmem : l ∈ splitLines (as ++ (l ++ bs)) := by
      rw [hls]
      simp
    have hnot := not_mem_of_mem_splitLines hmem
    rw [← hl] at hnot
    simp only [List.mem_append, not_or] at hnot ⊢
    exact ⟨hnot.1, by simp, hnot.2.2⟩
  refine parse_eq_ok.mpr ⟨_, hwritten, ?_⟩
  -- the line of the directive is blank now, and every other line is what it was
  rw [hcut _ hnewline, parseLines_append hbefore, parseLines, parseLine_blank _ (hframed.isBlank_spaces _), hafter]
  rfl

end Node

end Sfz
