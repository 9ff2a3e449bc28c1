import Mathlib.Data.List.DropRight
import Sfz.Proofs.ParsedNodes

namespace Sfz

def Span.after (cs : List Char) : Span :=
  ⟨cs.count '\n' + 1, (cs.rtakeWhile (· != '\n')).length + 1⟩

theorem Span.foldl_next (cs : List Char) : cs.foldl Span.next .start = .after cs := by
  induction cs using List.reverseRecOn with
  | nil => rfl
  | append_singleton cs c ih =>
    rw [List.foldl_append, List.foldl_cons, List.foldl_nil, ih, after, after, List.count_append,
      List.rtakeWhile_concat, next]
    by_cases hc : c = '\n'
    · simp [hc]
    · simp [hc]

namespace Comment

inductive Piece
  | code (c : Char)
  | line (body : List Char)
  | block (body : List Char)
  | unclosed (body : List Char)

namespace Piece

def text : Piece → List Char
  | .code c => [c]
  | .line body => '/' :: '/' :: body
  | .block body => '/' :: '*' :: (body ++ ['*', '/'])
  | .unclosed body => '/' :: '*' :: body

def isCode : Piece → Bool
  | .code _ => true
  | _ => false

def marked (p : Piece) : List (Char × Bool) :=
  p.text.map (fun c => (c, p.isCode))

end Piece

def write (ps : List Piece) : List Char :=
  ps.flatMap Piece.text

def marks (ps : List Piece) : List (Char × Bool) :=
  ps.flatMap Piece.marked

/-- The pieces of a text. Code begins no comment, a line comment runs to a newline or the end, a block comment
to the first `*/` after its opener, and a comment without end has none. -/
inductive Layout : List Piece → List Char → Prop
  | nil : Layout [] []
  | code {c : Char} {cs : List Char} {ps : List Piece}
      (hc : c = '/' → cs.head? ≠ some '/' ∧ cs.head? ≠ some '*') (h : Layout ps cs) :
      Layout (.code c :: ps) (c :: cs)
  | line {body cs : List Char} {ps : List Piece} (hbody : '\n' ∉ body) (hend : ∀ c ∈ cs.head?, c = '\n')
      (h : Layout ps cs) : Layout (.line body :: ps) ('/' :: '/' :: (body ++ cs))
  | block {body cs : List Char} {ps : List Piece} (hbody : ¬['*', '/'] <:+: body) (h : Layout ps cs) :
      Layout (.block body :: ps) ('/' :: '*' :: (body ++ '*' :: '/' :: cs))
  | unclosed {body : List Char} (hbody : ¬['*', '/'] <:+: body) :
      Layout [.unclosed body] ('/' :: '*' :: body)

theorem Layout.write_eq {ps : List Piece} {cs : List Char} (h : Layout ps cs) : write ps = cs := by
  induction h with
  | nil => rfl
  | code hc h ih => rw [write, List.flatMap_cons, ← write, ih, Piece.text, List.singleton_append]
  | line hbody hend h ih =>
    rw [write, List.flatMap_cons, ← write, ih, Piece.text, List.cons_append, List.cons_append]
  | block hbody h ih =>
    rw [write, List.flatMap_cons, ← write, ih, Piece.text]
    simp
  | unclosed hbody => exact List.append_nil _

theorem cut_at_closer (cs : List Char) : ¬['*', '/'] <:+: cs ∨
    ∃ body rest, cs = body ++ '*' :: '/' :: rest ∧ ¬['*', '/'] <:+: body := by
  induction cs with
  | nil => exact .inl (by simp)
  | cons c cs ih =>
    by_cases hhere : ['*', '/'] <+: c :: cs
    · obtain ⟨rest, hrest⟩ := hhere
      exact .inr ⟨[], rest, hrest.symm, by simp⟩
    · rcases ih with ih | ⟨body, rest, rfl, hbody⟩
      · refine .inl fun hfound => ?_
        rcases List.infix_cons_iff.mp hfound with h | h
        · exact hhere h
        · exact ih h
      · refine .inr ⟨c :: body, rest, rfl, fun hfound => ?_⟩
        rcases List.infix_cons_iff.mp hfound with h | h
        · apply hhere
          rw [← List.cons_append]
          exact h.trans (List.prefix_append ..)
        · exact hbody h

theorem layout_line {cs : List Char} {ps : List Piece} (h : Layout ps (cs.dropWhile (· != '\n'))) :
    Layout (.line (cs.takeWhile (· != '\n')) :: ps) ('/' :: '/' :: cs) := by
  have hbody : '\n' ∉ cs.takeWhile (· != '\n') := by
    intro hmem
    simpa using List.mem_takeWhile_imp hmem
  have hend : ∀ c ∈ (cs.dropWhile (· != '\n')).head?, c = '\n' := by
    intro c hc
    have hhead := List.head?_dropWhile_not (· != '\n') cs
    rw [Option.mem_def.mp hc] at hhead
    simpa using hhead
  have hline := Layout.line hbody hend h
  rwa [List.takeWhile_append_dropWhile] at hline

theorem exists_layout (cs : List Char) : ∃ ps, Layout ps cs := by
  -- a comment is passed over whole, so the induction is on the length of the text
  induction hn : cs.length using Nat.strongRecOn generalizing cs with
  | ind n ih =>
    cases cs with
    | nil => exact ⟨[], .nil⟩
    | cons c cs =>
      by_cases hline : c = '/' ∧ cs.head? = some '/'
      · obtain ⟨rfl, hhead⟩ := hline
        obtain ⟨ds, rfl⟩ := List.head?_eq_some_iff.mp hhead
        have hlength := (List.dropWhile_sublist (l := ds) (· != '\n')).length_le
        simp only [List.length_cons] at hn
        obtain ⟨ps, hps⟩ := ih (ds.dropWhile (· != '\n')).length (by omega) _ rfl
        exact ⟨_, layout_line hps⟩
      · by_cases hblock : c = '/' ∧ cs.head? = some '*'
        · obtain ⟨rfl, hhead⟩ := hblock
          obtain ⟨ds, rfl⟩ := List.head?_eq_some_iff.mp hhead
          rcases cut_at_closer ds with hopen | ⟨body, rest, rfl, hbody⟩
          · exact ⟨_, .unclosed hopen⟩
          · simp only [List.length_cons, List.length_append] at hn
            obtain ⟨ps, hps⟩ := ih rest.length (by omega) _ rfl
            exact ⟨_, .block hbody hps⟩
        · obtain ⟨ps, hps⟩ := ih cs.length (by simp [← hn]) _ rfl
          refine ⟨_, .code (fun hc => ⟨?_, ?_⟩) hps⟩
          · exact fun hhead => hline ⟨hc, hhead⟩
          · exact fun hhead => hblock ⟨hc, hhead⟩

section Pass

variable {body cs : List Char}

theorem blankFrom_line (hbody : '\n' ∉ body) (hend : ∀ c ∈ cs.head?, c = '\n') (s : Span) :
    blankFrom .line s (body ++ cs) = (blankFrom .code (body.foldl Span.next s) cs).map (body.map blank ++ ·) := by
  induction body generalizing s with
  | nil =>
    cases cs with
    | nil => simp [blankFrom, Except.map]
    | cons c cs =>
      obtain rfl := hend c rfl
      rw [List.nil_append, List.foldl_nil, blankFrom_newline (e := .line) (by simp),
        blankFrom_newline (e := .code) (by simp)]
      cases blankFrom .code (s.next '\n') cs <;> rfl
  | cons c body ih =>
    obtain ⟨hc, hbody⟩ := List.ne_and_not_mem_of_not_mem_cons hbody
    rw [List.cons_append, blankFrom, if_neg (Ne.symm hc), ih hbody, List.foldl_cons]
    cases blankFrom .code (body.foldl Span.next (s.next c)) cs <;> rfl

theorem not_closer_cons {c : Char} (h : ¬['*', '/'] <:+: c :: body) :
    (c = '*' → body.head? ≠ some '/') ∧ ¬['*', '/'] <:+: body := by
  constructor
  · rintro rfl hhead
    obtain ⟨ds, rfl⟩ := List.head?_eq_some_iff.mp hhead
    exact h (List.prefix_append ['*', '/'] ds).isInfix
  · exact fun hfound => h (hfound.trans (List.suffix_cons c body).isInfix)

theorem blankFrom_block (hbody : ¬['*', '/'] <:+: body) (o s : Span) :
    blankFrom (.block o) s (body ++ '*' :: '/' :: cs) =
      (blankFrom .code ((body ++ ['*', '/']).foldl Span.next s) cs).map ((body ++ ['*', '/']).map blank ++ ·) := by
  induction body generalizing s with
  | nil =>
    rw [List.nil_append, blankFrom]
    rfl
  | cons c body ih =>
    obtain ⟨hhead, hbody⟩ := not_closer_cons hbody
    rw [List.cons_append, blankFrom, ih hbody, List.cons_append, List.foldl_cons]
    · cases blankFrom .code ((body ++ ['*', '/']).foldl Span.next (s.next c)) cs <;> rfl
    · intro ds hc
      exact append_ne_cons (by simp) (fun ds hds => hhead hc (by rw [hds]; rfl)) ds

theorem blankFrom_unclosed (hbody : ¬['*', '/'] <:+: body) (o s : Span) :
    blankFrom (.block o) s body = .error o := by
  induction body generalizing s with
  | nil => rw [blankFrom]
  | cons c body ih =>
    obtain ⟨hhead, hbody⟩ := not_closer_cons hbody
    rw [blankFrom, ih hbody]
    · rfl
    · intro ds hc hds
      exact hhead hc (by rw [hds]; rfl)

end Pass

def shown (x : Char × Bool) : Char :=
  if x.2 then x.1 else blank x.1

theorem map_shown (p : Piece) : p.marked.map shown = if p.isCode then p.text else p.text.map blank := by
  rw [Piece.marked, List.map_map]
  cases p.isCode with
  | true => exact List.map_id _
  | false => rfl

inductive Blanks (s : Span) : List Piece → Except Span (List Char) → Prop
  | closed {ps : List Piece} (h : ∀ body, .unclosed body ∉ ps) : Blanks s ps (.ok ((marks ps).map shown))
  | unclosed (before : List Piece) (body : List Char) :
      Blanks s (before ++ [.unclosed body]) (.error ((write before).foldl Span.next s))

theorem Blanks.cons {s : Span} {p : Piece} {ps : List Piece} {r : Except Span (List Char)}
    (hp : ∀ body, .unclosed body ≠ p) (h : Blanks (p.text.foldl Span.next s) ps r) :
    Blanks s (p :: ps) (r.map (p.marked.map shown ++ ·)) := by
  cases h with
  | closed h =>
    have hmarks : p.marked.map shown ++ (marks ps).map shown = (marks (p :: ps)).map shown := by
      rw [marks, marks, List.flatMap_cons, List.map_append]
    rw [Except.map, hmarks]
    exact .closed fun body hmem => (List.mem_cons.mp hmem).elim (hp body) (h body)
  | unclosed before body =>
    rw [Except.map, ← List.foldl_append]
    exact .unclosed (p :: before) body

theorem Layout.blanks {ps : List Piece} {cs : List Char} (h : Layout ps cs) (s : Span) :
    Blanks s ps (blankFrom .code s cs) := by
  induction h generalizing s with
  | nil =>
    rw [blankFrom]
    · exact .closed (by simp)
    · simp
  | @code c cs ps hc h ih =>
    have hstep : blankFrom .code s (c :: cs) = (blankFrom .code (s.next c) cs).map ([c] ++ ·) := by
      rw [blankFrom]
      · rfl
      · rintro ds rfl rfl
        exact (hc rfl).1 rfl
      · rintro ds rfl rfl
        exact (hc rfl).2 rfl
    rw [hstep]
    exact .cons (p := .code c) (by simp) (ih _)
  | @line body cs ps hbody hend h ih =>
    have hstep : blankFrom .code s ('/' :: '/' :: (body ++ cs)) =
        (blankFrom .code (body.foldl Span.next (s.right 2)) cs).map ((' ' :: ' ' :: body.map blank) ++ ·) := by
      rw [blankFrom, blankFrom_line hbody hend]
      cases blankFrom .code (body.foldl Span.next (s.right 2)) cs <;> rfl
    have hout : (Piece.line body).marked.map shown = ' ' :: ' ' :: body.map blank := map_shown _
    rw [hstep, ← hout]
    exact .cons (by simp) (ih _)
  | @block body cs ps hbody h ih =>
    have hstep : blankFrom .code s ('/' :: '*' :: (body ++ '*' :: '/' :: cs)) =
        (blankFrom .code ((body ++ ['*', '/']).foldl Span.next (s.right 2)) cs).map
          ((' ' :: ' ' :: (body ++ ['*', '/']).map blank) ++ ·) := by
      rw [blankFrom, blankFrom_block hbody]
      cases blankFrom .code ((body ++ ['*', '/']).foldl Span.next (s.right 2)) cs <;> rfl
    have hout : (Piece.block body).marked.map shown = ' ' :: ' ' :: (body ++ ['*', '/']).map blank := map_shown _
    rw [hstep, ← hout]
    exact .cons (by simp) (ih _)
  | @unclosed body hbody =>
    rw [blankFrom, blankFrom_unclosed hbody]
    exact .unclosed [] body

theorem map_fst_marks (ps : List Piece) : (marks ps).map Prod.fst = write ps := by
  rw [marks, write, List.map_flatMap]
  congr 1
  funext p
  rw [Piece.marked, List.map_map]
  exact List.map_id _

theorem shown_eq_iff {x : Char × Bool} {c : Char} (hc : c = '\n' ∨ c = '\r') : shown x = c ↔ x.1 = c := by
  have hspace : ' ' ≠ c := by
    rcases hc with rfl | rfl
    · decide
    · decide
  unfold shown blank
  split
  next => rfl
  next =>
    split
    next => rfl
    next hx => exact ⟨fun h => absurd h hspace, fun h => absurd (h ▸ hc) hx⟩

theorem shown_cases (x : Char × Bool) : shown x = x.1 ∨ shown x = ' ' := by
  unfold shown blank
  split
  · exact .inl rfl
  · split
    · exact .inl rfl
    · exact .inr rfl

structure SamePlace (before after : Option Char) (isCode : Bool) : Prop where
  newline : after = some '\n' ↔ before = some '\n'
  carriage : after = some '\r' ↔ before = some '\r'
  kept : after = before ∨ after = some ' '
  code : isCode = true → after = before

theorem samePlace_marks (ms : List (Char × Bool)) (i : Nat) :
    SamePlace (ms.map Prod.fst)[i]? (ms.map shown)[i]? (ms[i]?.any Prod.snd) := by
  rw [List.getElem?_map, List.getElem?_map]
  cases ms[i]? with
  | none => exact ⟨Iff.rfl, Iff.rfl, .inl rfl, fun _ => rfl⟩
  | some x =>
    simp only [Option.map_some, Option.any_some]
    refine ⟨?_, ?_, ?_, fun hx => ?_⟩
    · rw [Option.some_inj, Option.some_inj, shown_eq_iff (.inl rfl)]
    · rw [Option.some_inj, Option.some_inj, shown_eq_iff (.inr rfl)]
    · rw [Option.some_inj, Option.some_inj]
      exact shown_cases x
    · rw [shown, if_pos hx]

theorem blankComments_of_blankFrom_error {cs : List Char} {o : Span} {e : SyntaxError}
    (h : blankFrom .code .start cs = .error o) :
    blankComments cs = .error e ↔ e = ⟨o, .unterminatedComment⟩ := by
  rw [blankComments, h, Except.mapError, Except.error.injEq, eq_comm]

end Comment

open Comment

theorem Node.parse_of_blankComments {text : String} {code : List Char} (h : blankComments text.toList = .ok code)
    (hcode : blankComments code = .ok code) : parse (String.ofList code) = parse text := by
  rw [parse, parse, String.toList_ofList, h, hcode]

namespace Comment

theorem blankComments_follows_layout (text : String) :
    (∃ ps, Layout ps text.toList) ∧ ∀ ps, Layout ps text.toList →
      (∀ e, blankComments text.toList = .error e ↔ ∃ before body, ps = before ++ [.unclosed body] ∧
        text.toList = write before ++ '/' :: '*' :: body ∧ e = ⟨.after (write before), .unterminatedComment⟩) ∧
      ((∀ body, .unclosed body ∉ ps) → ∃ code, blankComments text.toList = .ok code ∧
        code.length = text.toList.length ∧
        (∀ i : Nat, SamePlace text.toList[i]? code[i]? ((marks ps)[i]?.any Prod.snd)) ∧
        Plain code ∧ blankComments code = .ok code ∧ Node.parse (String.ofList code) = Node.parse text) := by
  refine ⟨exists_layout _, fun ps hps => ?_⟩
  have hblanks := hps.blanks .start
  have hwrite := hps.write_eq
  generalize hr : blankFrom .code .start text.toList = r at hblanks
  cases hblanks with
  | unclosed before body =>
    rw [Span.foldl_next] at hr
    refine ⟨fun e => ?_, fun hclosed => absurd (by simp) (hclosed body)⟩
    rw [blankComments_of_blankFrom_error hr]
    constructor
    · rintro rfl
      refine ⟨before, body, rfl, ?_, rfl⟩
      rw [← hwrite, write, List.flatMap_append]
      simp [write, Piece.text]
    · rintro ⟨before', body', hpieces, -, rfl⟩
      rw [(List.append_inj' hpieces rfl).1]
  | closed hclosed =>
    have hok : blankComments text.toList = .ok ((marks ps).map shown) := mapError_eq_ok.mpr hr
    have hplain := (blanked_of_blankFrom hr).plain
    have hsame : blankComments ((marks ps).map shown) = .ok ((marks ps).map shown) :=
      mapError_eq_ok.mpr (hplain.blankFrom .start)
    refine ⟨fun e => ?_, fun _ => ⟨_, hok, ?_, ?_, hplain, hsame, Node.parse_of_blankComments hok hsame⟩⟩
    · rw [hok]
      constructor
      · exact nofun
      · rintro ⟨before, body, rfl, -, -⟩
        exact absurd (by simp) (hclosed body)
    · rw [← hwrite, ← map_fst_marks, List.length_map, List.length_map]
    · rw [← hwrite, ← map_fst_marks]
      exact samePlace_marks (marks ps)

theorem layout_bell :
    Layout [.line " /*\r".toList, .code '\n', .code 'a', .block ['/'], .code '/'] "// /*\r\na/*/*//".toList :=
  @Layout.line " /*\r".toList "\na/*/*//".toList _ (by decide) (by simp)
    (.code (by decide) (.code (by decide) (@Layout.block ['/'] ['/'] _ (by decide) (.code (by decide) .nil))))

theorem layout_gong :
    Layout [.line " */".toList, .code '\n', .code 'é', .unclosed ['/']] "// */\né/*/".toList :=
  @Layout.line " */".toList "\né/*/".toList _ (by decide) (by simp)
    (.code (by decide) (.code (by decide) (.unclosed (by decide))))

theorem blankComments_bell_gong :
    (∃ code, blankComments "// /*\r\na/*/*//".toList = .ok code ∧ code.length = 14 ∧ code[6]? = some '\n' ∧
      code[13]? = some '/' ∧ blankComments code = .ok code) ∧
    blankComments "// */\né/*/".toList = .error ⟨⟨2, 2⟩, .unterminatedComment⟩ := by
  constructor
  · obtain ⟨code, hok, hlength, hplaces, -, hsame, -⟩ :=
      ((blankComments_follows_layout "// /*\r\na/*/*//").2 _ layout_bell).2 (by simp)
    exact ⟨code, hok, hlength, (hplaces 6).newline.mpr (by decide), (hplaces 13).code (by decide), hsame⟩
  · apply (((blankComments_follows_layout "// */\né/*/").2 _ layout_gong).1 _).mpr
    exact ⟨[.line " */".toList, .code '\n', .code 'é'], ['/'], rfl, by decide, by decide⟩

end Comment

end Sfz
