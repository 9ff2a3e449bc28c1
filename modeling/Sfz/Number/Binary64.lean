/-!
Numbers of the 64-bit binary format, held exactly: a finite one is a whole number of units, where a
unit is two to the power -1074, the least positive number of the format. Reading a fraction takes the
nearest number of the format, of two the one with the even significand; beyond the greatest it takes
infinity.
-/

namespace Sfz

inductive Binary64
  | nan
  | infinite (negative : Bool)
  | finite (negative : Bool) (units : Nat)
  deriving DecidableEq

namespace Binary64

def one : Nat := Nat.pow 2 1074

def limit : Nat := Nat.pow 2 2098

def gapExponent (units : Nat) : Nat :=
  units.log2 - 52

/-- Of two whole numbers that are equally near, the even one. -/
def roundDiv (n d : Nat) : Nat :=
  let q := n / d
  let r := n % d
  if d < 2 * r || (2 * r == d && q % 2 == 1) then q + 1 else q

def nearest (n d : Nat) : Nat :=
  let gap := Nat.pow 2 (gapExponent (n / d))
  roundDiv n (d * gap) * gap

def ofRatio (negative : Bool) (n d : Nat) : Binary64 :=
  let units := nearest (n * one) d
  if units < limit then .finite negative units else .infinite negative

def ofInt (n : Int) : Binary64 :=
  ofRatio (n < 0) n.natAbs 1

def ofNat (n : Nat) : Binary64 :=
  ofRatio false n 1

def neg : Binary64 → Binary64
  | .nan => .nan
  | .infinite s => .infinite !s
  | .finite s m => .finite (!s) m

instance (n : Nat) : OfNat Binary64 n := ⟨ofNat n⟩

instance : Neg Binary64 := ⟨neg⟩

instance : OfScientific Binary64 :=
  ⟨fun m isNegative e =>
    if isNegative then ofRatio false m (Nat.pow 10 e) else ofRatio false (m * Nat.pow 10 e) 1⟩

def signedUnits (negative : Bool) (units : Nat) : Int :=
  if negative then -units else units

/-- A NaN is below nothing and above nothing. -/
def lt : Binary64 → Binary64 → Bool
  | .nan, _ => false
  | _, .nan => false
  | .infinite s, .infinite t => s && !t
  | .infinite s, .finite .. => s
  | .finite .., .infinite t => !t
  | .finite s m, .finite t n => signedUnits s m < signedUnits t n

def toBits : Binary64 → Nat
  | .nan => 0x7ff8000000000000
  | .infinite s => s.toNat * Nat.pow 2 63 + 0x7ff0000000000000
  | .finite s m =>
    s.toNat * Nat.pow 2 63 + gapExponent m * Nat.pow 2 52 + m / Nat.pow 2 (gapExponent m)

def ofBits (bits : Nat) : Binary64 :=
  let s := bits / Nat.pow 2 63 % 2 == 1
  let exponent := bits / Nat.pow 2 52 % Nat.pow 2 11
  let fraction := bits % Nat.pow 2 52
  if exponent == 2047 then
    if fraction == 0 then .infinite s else .nan
  else if exponent == 0 then .finite s fraction
  else .finite s ((Nat.pow 2 52 + fraction) * Nat.pow 2 (exponent - 1))

example : ofRatio false 1 10 = ofBits 0x3fb999999999999a := by decide +kernel

example : ofInt (-9007199254740993) = ofBits 0xc340000000000000 := by decide +kernel

end Binary64

end Sfz
