namespace Sfz.Text

def splitLines : List Char → List (List Char)
  | [] => [[]]
  | c :: cs =>
    if c = '\n' then [] :: splitLines cs
    else
      match splitLines cs with
      | [] => [[c]]
      | l :: ls => (c :: l) :: ls

def dropReturn : List Char → List Char
  | [] => []
  | [c] => if c = '\r' then [] else [c]
  | c :: d :: cs => c :: dropReturn (d :: cs)

def lines (cs : List Char) : List (List Char) :=
  (splitLines cs).map dropReturn

theorem splitLines_ne_nil (cs : List Char) : splitLines cs ≠ [] := by
  cases cs with
  | nil => simp [splitLines]
  | cons c cs =>
    simp only [splitLines]
    split
    · simp
    · split <;> simp

theorem splitLines_append (as bs : List Char) :
    splitLines (as ++ '\n' :: bs) = splitLines as ++ splitLines bs := by
  induction as with
  | nil => simp [splitLines]
  | cons c cs ih =>
    simp only [List.cons_append, splitLines, ih]
    split
    · rfl
    · cases h : splitLines cs with
      | nil => exact absurd h (splitLines_ne_nil cs)
      | cons l ls => simp

end Sfz.Text
