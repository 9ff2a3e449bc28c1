import Sfz.Number.Numeral

/-!
Reading numerals in steps. The digits of a numeral, as far as they fit into a 64-bit word, are a whole
number; the nearest number of the 64-bit binary format is multiplied by the nearest one to a power of ten,
or divided by it. Every step rounds, so the outcome may lie beside the number that is nearest to the
numeral.
-/

namespace Sfz

namespace Binary64

def mulUnits (a b : Nat) : Nat :=
  nearest (a * b) one

def divUnits (a b : Nat) : Nat :=
  nearest (a * one) b

def tenUnits (k : Nat) : Nat :=
  nearest (Nat.pow 10 k * one) 1

def maxTen : Nat := 308

def shrink (units k : Nat) : Nat :=
  if k ≤ maxTen then divUnits units (tenUnits k)
  else if units = 0 then 0
  else shrink (divUnits units (tenUnits maxTen)) (k - maxTen)
termination_by k
decreasing_by simp only [maxTen] at *; omega

def grow (negative : Bool) (units k : Nat) : Binary64 :=
  if units = 0 then .finite negative 0
  else if maxTen < k then .infinite negative
  else
    let units := mulUnits units (tenUnits k)
    if units < limit then .finite negative units else .infinite negative

end Binary64

namespace Numeral

def maxWord : Nat := 0xffffffffffffffff

def appendDigits (n : Nat) : List Char → Nat × List Char
  | [] => (n, [])
  | c :: cs =>
    let longer := 10 * n + (c.toNat - '0'.toNat)
    if longer ≤ maxWord then appendDigits longer cs else (n, c :: cs)

def leading (n : Numeral) : Nat × Int :=
  let (m, more) := appendDigits 0 n.whole
  let fraction := n.fraction.getD []
  let (m, left) := appendDigits m fraction
  (m, more.length - (fraction.length - left.length : Nat) + n.exponent.getD 0)

def stepwise (n : Numeral) : Binary64 :=
  let (m, scale) := n.leading
  let units := Binary64.nearest (m * Binary64.one) 1
  match scale with
  | .ofNat k => Binary64.grow n.negative units k
  | .negSucc k => .finite n.negative (Binary64.shrink units (k + 1))

end Numeral

end Sfz
