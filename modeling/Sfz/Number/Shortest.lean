import Sfz.Number.Binary64

/-!
The shortest decimal text of a number. Among the decimals that read back as the number, those with the
fewest digits are taken, and of them the nearest; of two equally near, the greater. The text is
positional and never has an exponent.
-/

namespace Sfz.Binary64

/-- The decimals that read back as a positive number of units lie between two bounds, which are counted
in quarters of a unit and belong to them when the significand is even. -/
structure Interval where
  lower : Nat
  value : Nat
  upper : Nat
  closed : Bool

def interval (units : Nat) : Interval :=
  let gap := Nat.pow 2 (gapExponent units)
  let below := if units = Nat.pow 2 52 * gap ∧ 1 < gap then gap else 2 * gap
  ⟨4 * units - below, 4 * units, 4 * units + 2 * gap, units / gap % 2 == 0⟩

def tenPower (e : Int) : Nat × Nat :=
  if 0 ≤ e then (Nat.pow 10 e.toNat, 1) else (1, Nat.pow 10 (-e).toNat)

namespace Interval

def contains (i : Interval) (digits : Nat) (e : Int) : Bool :=
  let (n, d) := tenPower e
  let x := digits * n * (4 * one)
  if i.closed then i.lower * d ≤ x && x ≤ i.upper * d else i.lower * d < x && x < i.upper * d

def onGrid? (i : Interval) (e : Int) : Option Nat :=
  let (n, d) := tenPower e
  let scale := n * (4 * one)
  let low := i.value * d / scale
  let rest := i.value * d % scale
  match i.contains low e, i.contains (low + 1) e with
  | true, true => some (if scale ≤ 2 * rest then low + 1 else low)
  | true, false => some low
  | false, true => some (low + 1)
  | false, false => none

def magnitude (i : Interval) : Int :=
  (Nat.toDigits 10 (i.value * Nat.pow 10 400 / (4 * one))).length - 400

end Interval

/-- Seventeen digits always suffice. -/
def shortestFrom (i : Interval) (digits : Nat) : Nat → Nat × Int
  | 0 => (i.value / (4 * one), 0)
  | n + 1 =>
    let e := i.magnitude - digits
    match i.onGrid? e with
    | some d => (d, e)
    | none => shortestFrom i (digits + 1) n

def shortest (units : Nat) : Nat × Int :=
  shortestFrom (interval units) 1 17

def positional (digits : Nat) (e : Int) : String :=
  let text := Nat.toDigits 10 digits
  if 0 ≤ e then String.ofList (text ++ List.replicate e.toNat '0')
  else
    let places := (-e).toNat
    let padded := List.replicate (places + 1 - text.length) '0' ++ text
    let whole := padded.take (padded.length - places)
    let fraction := (padded.drop (padded.length - places)).reverse.dropWhile (· == '0') |>.reverse
    String.ofList (if fraction.isEmpty then whole else whole ++ '.' :: fraction)

def signText (negative : Bool) : String :=
  if negative then "-" else ""

def shortestText : Binary64 → String
  | .nan => "NaN"
  | .infinite s => signText s ++ "inf"
  | .finite s 0 => signText s ++ "0"
  | .finite s m =>
    let (digits, e) := shortest m
    signText s ++ positional digits e

def wholeLimit : Nat := Nat.pow 10 15

def boundText : Binary64 → String
  | .finite s m =>
    if m % one = 0 ∧ m < wholeLimit * one then
      let n := m / one
      (if n = 0 then "" else signText s) ++ toString n
    else shortestText (.finite s m)
  | x => shortestText x

end Sfz.Binary64
