namespace Sfz.Text

/-- Membership in the `White_Space` property. -/
def isBlank (c : Char) : Bool :=
  let n := c.toNat
  (9 ≤ n && n ≤ 13) || n == 0x20 || n == 0x85 || n == 0xA0 || n == 0x1680 ||
    (0x2000 ≤ n && n ≤ 0x200A) || n == 0x2028 || n == 0x2029 || n == 0x202F || n == 0x205F ||
    n == 0x3000

def trimStart (cs : List Char) : List Char :=
  cs.dropWhile isBlank

def trimEnd : List Char → List Char
  | [] => []
  | c :: cs =>
    match trimEnd cs with
    | [] => if isBlank c then [] else [c]
    | d :: ds => c :: d :: ds

def trim (cs : List Char) : List Char :=
  trimEnd (trimStart cs)

example : isBlank ' ' && isBlank '\t' && isBlank (Char.ofNat 0x3000) && !isBlank (Char.ofNat 0x200B) := by
  decide

end Sfz.Text
