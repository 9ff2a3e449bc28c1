import Sfz.Number.Binary64
import Sfz.Number.Digits

namespace Sfz

open Number

structure Numeral where
  negative : Bool := false
  whole : List Char
  fraction : Option (List Char) := none
  exponent : Option Int := none
  deriving DecidableEq

namespace Numeral

def ofNat (n : Nat) : Numeral :=
  { whole := Nat.toDigits 10 n }

def fractionPart : List Char → Option (List Char) × List Char
  | '.' :: cs => (some (cs.takeWhile Char.isDigit), cs.dropWhile Char.isDigit)
  | cs => (none, cs)

def exponentPart? : List Char → Option (Option Int)
  | [] => some none
  | c :: cs =>
    if c = 'e' ∨ c = 'E' then
      match cs with
      | '+' :: digits => if isDigits digits then some (some (digitsValue digits)) else none
      | _ => (integer? cs).map some
    else none

def parse? (cs : List Char) : Option Numeral :=
  let (negative, body) := sign cs
  let whole := body.takeWhile Char.isDigit
  let (fraction, rest) := fractionPart (body.dropWhile Char.isDigit)
  if whole.isEmpty && (fraction.getD []).isEmpty then none
  else (exponentPart? rest).map (fun e => ⟨negative, whole, fraction, e⟩)

def mantissa (n : Numeral) : Nat :=
  digitsValue (n.whole ++ n.fraction.getD [])

def scale (n : Numeral) : Int :=
  n.exponent.getD 0 - (n.fraction.getD []).length

def index? (n : Numeral) : Option Nat :=
  if n.negative || n.fraction.isSome || n.exponent.isSome then none else Number.index? n.whole

/-- Where the first digit stands tells at once the numbers that are too small or too large for the format. -/
def toBinary64 (n : Numeral) : Binary64 :=
  let size := (Nat.toDigits 10 n.mantissa).length + n.scale
  if n.mantissa = 0 || size < -330 then .finite n.negative 0
  else if 310 < size then .infinite n.negative
  else if 0 ≤ n.scale then .ofRatio n.negative (n.mantissa * Nat.pow 10 n.scale.toNat) 1
  else .ofRatio n.negative n.mantissa (Nat.pow 10 (-n.scale).toNat)

def exponentText : Option Int → List Char
  | none => []
  | some e => 'e' :: (if e < 0 then ['-'] else []) ++ Nat.toDigits 10 e.natAbs

def text (n : Numeral) : List Char :=
  (if n.negative then ['-'] else []) ++ n.whole ++ (n.fraction.map ('.' :: ·)).getD [] ++
    exponentText n.exponent

end Numeral

end Sfz
