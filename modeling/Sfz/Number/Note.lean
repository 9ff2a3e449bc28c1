import Sfz.Number.Digits

/-!
Note names. A note is a letter, an optional accidental and an octave; `c-1` is key 0 and `g9` key 127.
Case does not matter. A `b` after the letter is a flat when something follows it.
-/

namespace Sfz.Note

open Number

def pitchClass? : Char → Option Int
  | 'c' => some 0
  | 'd' => some 2
  | 'e' => some 4
  | 'f' => some 5
  | 'g' => some 7
  | 'a' => some 9
  | 'b' => some 11
  | _ => none

def accidental : List Char → Int × List Char
  | '#' :: cs => (1, cs)
  | 'b' :: c :: cs => (-1, c :: cs)
  | cs => (0, cs)

def parse? (cs : List Char) : Option Int :=
  match cs.map Char.toLower with
  | [] => none
  | c :: rest => do
    let pitch ← pitchClass? c
    let (shift, octaveText) := accidental rest
    let octave ← word? octaveText
    guard (-1 ≤ octave ∧ octave ≤ 9)
    let key := (octave + 1) * 12 + pitch + shift
    guard (0 ≤ key ∧ key ≤ 127)
    return key

def key? (cs : List Char) : Option Int :=
  (word? cs).or (parse? cs)

end Sfz.Note
