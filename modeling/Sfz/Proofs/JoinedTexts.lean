import Sfz.Proofs.CommentLayout
import Sfz.Proofs.NodeWriting

namespace Sfz

def Span.down (s : Span) (k : Nat) : Span :=
  ⟨s.line + k, s.column⟩

def Node.down (k : Nat) (n : Node) : Node :=
  n.moveTo (n.span.down k)

def SyntaxError.down (k : Nat) (e : SyntaxError) : SyntaxError :=
  ⟨e.span.down k, e.cause⟩

namespace Span

theorem next_down (s : Span) (k : Nat) (c : Char) : (s.down k).next c = (s.next c).down k := by
  unfold next
  split
  · rw [down, down, Nat.add_right_comm]
  · rfl

theorem foldl_next_down (s : Span) (k : Nat) (cs : List Char) :
    cs.foldl next (s.down k) = (cs.foldl next s).down k := by
  induction cs generalizing s with
  | nil => rfl
  | cons c cs ih => rw [List.foldl_cons, List.foldl_cons, next_down, ih]

theorem after_newline (as bs : List Char) :
    after (as ++ '\n' :: bs) = (after bs).down (as.count '\n' + 1) := by
  have hbreak : (after as).next '\n' = start.down (as.count '\n' + 1) := by
    rw [next, if_pos rfl, after, start, down, Nat.add_comm 1]
  rw [← foldl_next, List.foldl_append, List.foldl_cons, foldl_next, hbreak, foldl_next_down, foldl_next]

end Span

namespace Comment

open Text

theorem layout_newline {ps qs : List Piece} {as bs : List Char} (h : Layout ps as)
    (hclosed : ∀ body, .unclosed body ∉ ps) (h' : Layout qs bs) :
    Layout (ps ++ .code '\n' :: qs) (as ++ '\n' :: bs) := by
  induction h with
  | nil => exact .code (fun hslash => absurd hslash (by decide)) h'
  | @code c cs ps hc h ih =>
    have hrest := ih (fun body hmem => hclosed body (List.mem_cons_of_mem _ hmem))
    refine .code (fun hslash => ?_) hrest
    cases cs with
    | nil => exact ⟨by simp, by simp⟩
    | cons d ds => exact hc hslash
  | @line body cs ps hbody hend h ih =>
    have hrest := ih (fun body hmem => hclosed body (List.mem_cons_of_mem _ hmem))
    rw [List.cons_append, List.cons_append, List.cons_append, List.append_assoc]
    refine .line hbody (fun c hc => ?_) hrest
    cases cs with
    | nil => simpa using hc.symm
    | cons d ds => exact hend c hc
  | @block body cs ps hbody h ih =>
    have hrest := ih (fun body hmem => hclosed body (List.mem_cons_of_mem _ hmem))
    rw [List.cons_append, List.cons_append, List.cons_append, List.append_assoc, List.cons_append, List.cons_append]
    exact .block hbody hrest
  | @unclosed body hbody => exact absurd (List.mem_singleton_self _) (hclosed body)

theorem marks_newline (ps qs : List Piece) : (marks (ps ++ .code '\n' :: qs)).map shown =
    (marks ps).map shown ++ '\n' :: (marks qs).map shown := by
  simp only [marks, List.flatMap_append, List.flatMap_cons, List.map_append]
  rfl

section Blanking

variable {cs : List Char}

theorem Layout.blankFrom_of_closed {ps : List Piece} (h : Layout ps cs) (hclosed : ∀ body, .unclosed body ∉ ps)
    (s : Span) : blankFrom .code s cs = .ok ((marks ps).map shown) := by
  have hblanks := h.blanks s
  generalize blankFrom .code s cs = r at hblanks
  cases hblanks with
  | closed => rfl
  | unclosed before body => exact absurd (by simp) (hclosed body)

theorem Layout.blankFrom_of_unclosed {before : List Piece} {body : List Char}
    (h : Layout (before ++ [.unclosed body]) cs) (s : Span) :
    blankFrom .code s cs = .error ((write before).foldl Span.next s) := by
  have hblanks := h.blanks s
  generalize hps : before ++ [.unclosed body] = ps at hblanks
  generalize blankFrom .code s cs = r at hblanks
  cases hblanks with
  | closed hclosed => exact absurd (by simp [← hps]) (hclosed body)
  | unclosed before' body' => rw [(List.append_inj' hps rfl).1]

end Blanking

theorem blankFrom_newline_append {as code : List Char} (h : blankFrom .code .start as = .ok code) (bs : List Char) :
    blankFrom .code .start (as ++ '\n' :: bs) =
      ((blankFrom .code .start bs).map (code ++ '\n' :: ·)).mapError (·.down (as.count '\n' + 1)) := by
  obtain ⟨ps, hps⟩ := exists_layout as
  obtain ⟨qs, hqs⟩ := exists_layout bs
  have hfirst := hps.blanks .start
  rw [h] at hfirst
  generalize hr : (Except.ok code : Except Span (List Char)) = r at hfirst
  cases hfirst with
  | unclosed => cases hr
  | closed hclosed =>
    obtain rfl := Except.ok.inj hr
    have hjoined := layout_newline hps hclosed hqs
    have hsecond := hqs.blanks .start
    generalize blankFrom .code .start bs = r at hsecond
    cases hsecond with
    | closed hclosed' =>
      have hboth : ∀ body, .unclosed body ∉ ps ++ .code '\n' :: qs := by
        intro body hmem
        rcases List.mem_append.mp hmem with hmem | hmem
        · exact hclosed body hmem
        · rcases List.mem_cons.mp hmem with hcode | hmem
          · cases hcode
          · exact hclosed' body hmem
      rw [hjoined.blankFrom_of_closed hboth, marks_newline]
      rfl
    | unclosed before body =>
      rw [← List.cons_append, ← List.append_assoc] at hjoined
      have hwrite : write (ps ++ .code '\n' :: before) = as ++ '\n' :: write before := by
        rw [← hps.write_eq, write, write, write, List.flatMap_append, List.flatMap_cons]
        rfl
      rw [hjoined.blankFrom_of_unclosed, hwrite, Span.foldl_next, Span.foldl_next, Span.after_newline]
      rfl

end Comment

namespace Text

theorem length_splitLines (cs : List Char) : (splitLines cs).length = cs.count '\n' + 1 := by
  induction cs with
  | nil => rfl
  | cons c cs ih =>
    rw [splitLines]
    by_cases hc : c = '\n'
    · rw [if_pos hc, hc, List.length_cons, ih, List.count_cons_self]
    · rw [if_neg hc, List.count_cons_of_ne hc, ← ih]
      cases hl : splitLines cs with
      | nil => exact absurd hl (splitLines_ne_nil cs)
      | cons l ls => rfl

end Text

namespace Parser

open Text

def lowered (k : Nat) : Except SyntaxError (List Node) → Except SyntaxError (List Node)
  | .ok nodes => .ok (nodes.map (Node.down k))
  | .error e => .error (e.down k)

theorem lowered_cons (k : Nat) (n : Node) (r : Except SyntaxError (List Node)) :
    lowered k (do return n :: (← r)) = do return n.down k :: (← lowered k r) := by
  cases r with
  | error e => rfl
  | ok nodes => rfl

theorem lowered_append (k : Nat) (r r' : Except SyntaxError (List Node)) :
    lowered k (do return (← r) ++ (← r')) = do return (← lowered k r) ++ (← lowered k r') := by
  cases r with
  | error e => rfl
  | ok nodes =>
    cases r' with
    | error e => rfl
    | ok nodes' => exact congrArg Except.ok List.map_append

theorem scan_down (s : Span) (k : Nat) (cs : List Char) : scan (s.down k) cs = lowered k (scan s cs) := by
  fun_induction scan s cs with
  | case1 s => rw [scan_nil]; rfl
  | case2 s c cs hc ih => rw [scan_blank _ hc, ← ih]; rfl
  | case3 s c cs hc name rest ht hk => rw [scan_unknown _ hc ht hk]; rfl
  | case4 s c cs hc name rest ht kind hk ih =>
    rw [scan_header _ hc ht hk, lowered_cons, ← ih]
    rfl
  | case5 s c cs hc ht name rest ho value next ih =>
    rw [scan_opcode _ hc ht ho, lowered_cons, ← ih]
    rfl
  | case6 s c cs hc ht ho => rw [scan_unexpected _ hc ht ho]; rfl

theorem parseLine_down (n k : Nat) (l : List Char) : parseLine (n + k) l = lowered k (parseLine n l) := by
  cases hd : after? "#define".toList (trimStart l) with
  | some rest =>
    simp only [parseLine, hd]
    cases definition? rest with
    | none => rfl
    | some d => rfl
  | none =>
    cases hi : after? "#include".toList (trimStart l) with
    | some rest =>
      simp only [parseLine, hd, hi]
      cases inclusion? rest with
      | none => rfl
      | some path => rfl
    | none =>
      simp only [parseLine, hd, hi]
      exact scan_down ⟨n, 1⟩ k l

theorem parseLines_down (n k : Nat) (ls : List (List Char)) :
    parseLines (n + k) ls = lowered k (parseLines n ls) := by
  induction ls generalizing n with
  | nil => rfl
  | cons l ls ih => rw [parseLines, parseLines, lowered_append, parseLine_down, Nat.add_right_comm, ih]

end Parser

namespace Node

open Sfz.Parser Sfz.Comment Sfz.Text

theorem parse_of_code {text : String} {code : List Char} (h : blankFrom .code .start text.toList = .ok code) :
    parse text = parseLines 1 (splitLines code) := by
  rw [parse, blankComments, h, ← parseLines_lines]
  rfl

theorem parse_of_opener {text : String} {o : Span} (h : blankFrom .code .start text.toList = .error o) :
    parse text = .error ⟨o, .unterminatedComment⟩ := by
  rw [parse, blankComments, h]
  rfl

theorem parse_newline {a : String} {na : List Node} (ha : parse a = .ok na) (b : String) :
    parse (a ++ "\n" ++ b) = (lowered (a.toList.count '\n' + 1) (parse b)).map (na ++ ·) := by
  obtain ⟨code, hcode, hlines⟩ := parse_eq_ok.mp ha
  have hlength : (splitLines code).length = a.toList.count '\n' + 1 := by
    have hkept := kept_splitLines (blanked_of_blankFrom hcode).kept
    rw [← hkept.length_eq, length_splitLines]
  have hblank := blankFrom_newline_append hcode b.toList
  have htext : (a ++ "\n" ++ b).toList = a.toList ++ '\n' :: b.toList := by simp
  rw [← htext] at hblank
  cases hb : blankFrom .code .start b.toList with
  | error o =>
    rw [hb] at hblank
    rw [parse_of_opener hb, parse_of_opener hblank]
    rfl
  | ok code' =>
    rw [hb] at hblank
    rw [parse_of_code hb, parse_of_code hblank, splitLines_append, parseLines_append hlines, hlength,
      parseLines_down]

theorem parse_joined {a b : String} {na : List Node} (ha : parse a = .ok na) :
    (∀ nb, parse b = .ok nb →
      parse (a ++ "\n" ++ b) = .ok (na ++ nb.map (Node.down (a.toList.count '\n' + 1)))) ∧
    (∀ line column cause, parse b = .error ⟨⟨line, column⟩, cause⟩ →
      parse (a ++ "\n" ++ b) = .error ⟨⟨line + (a.toList.count '\n' + 1), column⟩, cause⟩) := by
  constructor
  · intro nb hb
    rw [parse_newline ha, hb]
    rfl
  · intro line column cause hb
    rw [parse_newline ha, hb]
    rfl

theorem parse_joined_strings :
    let a := "<region>key=1 /* é\n*/ sample=a.wav // /*\r"
    parse a = .ok [.header .region ⟨1, 1⟩, .opcode "key" "1" ⟨1, 9⟩, .opcode "sample" "a.wav" ⟨2, 4⟩] ∧
    parse (a ++ "\n" ++ "pan=2\n #define $x") = .ok [.header .region ⟨1, 1⟩, .opcode "key" "1" ⟨1, 9⟩,
      .opcode "sample" "a.wav" ⟨2, 4⟩, .opcode "pan" "2" ⟨3, 1⟩, .define "x" "" ⟨4, 2⟩] ∧
    parse (a ++ "\n" ++ "pan=2\n é/* x") = .error ⟨⟨4, 3⟩, .unterminatedComment⟩ := by
  intro a
  have ha : parse a = .ok [.header .region ⟨1, 1⟩, .opcode "key" "1" ⟨1, 9⟩, .opcode "sample" "a.wav" ⟨2, 4⟩] := by
    decide +kernel
  have hb : parse "pan=2\n #define $x" = .ok [.opcode "pan" "2" ⟨1, 1⟩, .define "x" "" ⟨2, 2⟩] := by
    decide +kernel
  have hopen : parse "pan=2\n é/* x" = .error ⟨⟨2, 3⟩, .unterminatedComment⟩ := by
    decide +kernel
  have hcount : a.toList.count '\n' = 1 := by decide
  obtain ⟨hok, -⟩ := parse_joined (b := "pan=2\n #define $x") ha
  obtain ⟨-, herror⟩ := parse_joined (b := "pan=2\n é/* x") ha
  rw [hcount] at hok herror
  exact ⟨ha, hok _ hb, herror 2 3 _ hopen⟩

end Node

end Sfz
