import Sfz.Proofs.JoinedTexts

namespace Sfz

namespace Text

def returnEnds (cs : List Char) : List Char :=
  cs.flatMap (fun c => if c = '\n' then ['\r', '\n'] else [c])

theorem returnEnds_newline (cs : List Char) : returnEnds ('\n' :: cs) = '\r' :: '\n' :: returnEnds cs :=
  rfl

theorem returnEnds_cons {c : Char} (hc : c ≠ '\n') (cs : List Char) : returnEnds (c :: cs) = c :: returnEnds cs := by
  rw [returnEnds, List.flatMap_cons, if_neg hc]
  rfl

theorem returnEnds_ne_cons {cs : List Char} {d : Char} (hd : d ≠ '\r') (h : ∀ ds, cs ≠ d :: ds) (ds : List Char) :
    returnEnds cs ≠ d :: ds := by
  intro heq
  cases cs with
  | nil => cases heq
  | cons c cs =>
    by_cases hc : c = '\n'
    · rw [hc, returnEnds_newline] at heq
      exact hd (List.cons.inj heq).1.symm
    · rw [returnEnds_cons hc] at heq
      obtain ⟨rfl, -⟩ := List.cons.inj heq
      exact h cs rfl

theorem splitLines_returnEnds (cs : List Char) : List.Forall₂ (fun l l' => l' = l ∨ l' = l ++ ['\r'])
    (splitLines cs) (splitLines (returnEnds cs)) := by
  induction cs with
  | nil => exact .cons (.inl rfl) .nil
  | cons c cs ih =>
    by_cases hc : c = '\n'
    · subst hc
      exact .cons (.inr rfl) ih
    · rw [returnEnds_cons hc, splitLines, splitLines, if_neg hc, if_neg hc]
      generalize splitLines cs = ls at ih
      generalize splitLines (returnEnds cs) = ls' at ih
      cases ih with
      | nil => exact .cons (.inl rfl) .nil
      | cons hl hls =>
        refine .cons ?_ hls
        rcases hl with rfl | rfl
        · exact .inl rfl
        · exact .inr rfl

end Text

namespace Comment

open Text

theorem blankFrom_return_newline (m : Mode) (s : Span) (cs : List Char) :
    blankFrom m s ('\r' :: '\n' :: cs) = (blankFrom m s ('\n' :: cs)).map ('\r' :: ·) := by
  cases m with
  | code =>
    rw [blankFrom]
    · rfl
    · simp
    · simp
  | line =>
    rw [blankFrom]
    rfl
  | block o =>
    rw [blankFrom]
    · rfl
    · simp

theorem map_returnEnds {c : Char} (hc : c ≠ '\n') (r : Except Span (List Char)) :
    (do return c :: (← r)).map returnEnds = do return c :: (← r.map returnEnds) := by
  cases r with
  | error o => rfl
  | ok cs => exact congrArg Except.ok (returnEnds_cons hc cs)

theorem map_returnEnds_newline (r : Except Span (List Char)) :
    (do return '\n' :: (← r)).map returnEnds = (do return '\n' :: (← r.map returnEnds)).map ('\r' :: ·) := by
  cases r with
  | error o => rfl
  | ok cs => rfl

theorem blank_ne_newline {c : Char} (hc : c ≠ '\n') : blank c ≠ '\n' := by
  unfold blank
  split
  · exact hc
  · decide

theorem blankFrom_returnEnds (m : Mode) (s : Span) (cs : List Char) :
    blankFrom m s (returnEnds cs) = (blankFrom m s cs).map returnEnds := by
  -- a step over a newline is two steps in the other text, and all other steps are the same in both
  fun_induction blankFrom m s cs with
  | case1 o s =>
    change blankFrom (.block o) s [] = _
    rw [blankFrom]
    rfl
  | case2 m s hm =>
    change blankFrom m s [] = _
    rw [blankFrom]
    · rfl
    · exact hm
  | case3 s cs ih =>
    change blankFrom .code s ('/' :: '/' :: returnEnds cs) = _
    rw [blankFrom, ih]
    cases blankFrom .line (s.right 2) cs <;> rfl
  | case4 s cs ih =>
    change blankFrom .code s ('/' :: '*' :: returnEnds cs) = _
    rw [blankFrom, ih]
    cases blankFrom (.block s) (s.right 2) cs <;> rfl
  | case5 s c cs hline hblock ih =>
    by_cases hc : c = '\n'
    · subst hc
      rw [returnEnds_newline, map_returnEnds_newline, blankFrom_return_newline, blankFrom_newline (by simp), ih]
      rfl
    · rw [returnEnds_cons hc, map_returnEnds hc, blankFrom, ih]
      · intro ds hslash
        exact returnEnds_ne_cons (by decide) (fun ds => hline ds hslash) ds
      · intro ds hslash
        exact returnEnds_ne_cons (by decide) (fun ds => hblock ds hslash) ds
  | case6 s c cs ih =>
    by_cases hc : c = '\n'
    · subst hc
      rw [returnEnds_newline, blankFrom_return_newline, blankFrom, ih]
      exact (map_returnEnds_newline _).symm
    · rw [returnEnds_cons hc, map_returnEnds (blank_ne_newline hc), blankFrom, ih]
  | case7 o s cs ih =>
    change blankFrom (.block o) s ('*' :: '/' :: returnEnds cs) = _
    rw [blankFrom, ih]
    cases blankFrom .code (s.right 2) cs <;> rfl
  | case8 o s c cs hclose ih =>
    by_cases hc : c = '\n'
    · subst hc
      rw [returnEnds_newline, blankFrom_return_newline, blankFrom, ih]
      · exact (map_returnEnds_newline _).symm
      · simp
    · rw [returnEnds_cons hc, map_returnEnds (blank_ne_newline hc), blankFrom, ih]
      intro ds hstar
      exact returnEnds_ne_cons (by decide) (fun ds => hclose ds hstar) ds

end Comment

namespace Parser

theorem parseLines_returns {ls ls' : List (List Char)}
    (h : List.Forall₂ (fun l l' => l' = l ∨ l' = l ++ ['\r']) ls ls') (n : Nat) :
    parseLines n ls' = parseLines n ls := by
  induction h generalizing n with
  | nil => rfl
  | @cons l l' ls ls' hl _ ih =>
    have hline : parseLine n l' = parseLine n l := by
      rcases hl with rfl | rfl
      · rfl
      · exact parseLine_return l n
    rw [parseLines, parseLines, hline, ih]

end Parser

namespace Node

open Sfz.Comment Sfz.Text

theorem parse_returnEnds (text : String) : parse (String.ofList (returnEnds text.toList)) = parse text := by
  have hblank := blankFrom_returnEnds .code .start text.toList
  rw [← String.toList_ofList (l := returnEnds text.toList)] at hblank
  cases hcode : blankFrom .code .start text.toList with
  | error o =>
    rw [hcode] at hblank
    rw [parse_of_opener hcode, parse_of_opener hblank]
  | ok code =>
    rw [hcode] at hblank
    rw [parse_of_code hcode, parse_of_code hblank]
    exact Parser.parseLines_returns (splitLines_returnEnds code) 1

end Node

end Sfz
