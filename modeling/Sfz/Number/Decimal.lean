import Sfz.Number.Binary64
import Sfz.Number.Digits

namespace Sfz

open Number

structure Decimal where
  negative : Bool
  mantissa : Nat
  places : Nat
  deriving DecidableEq

namespace Decimal

def parse? (cs : List Char) : Option Decimal :=
  let (negative, body) := sign cs
  let whole := body.takeWhile Char.isDigit
  match body.dropWhile Char.isDigit with
  | [] => if whole.isEmpty then none else some ⟨negative, digitsValue whole, 0⟩
  | '.' :: fraction =>
    if fraction.all Char.isDigit && !(whole.isEmpty && fraction.isEmpty) then
      some ⟨negative, digitsValue (whole ++ fraction), fraction.length⟩
    else none
  | _ => none

def toBinary64 (d : Decimal) : Binary64 :=
  .ofRatio d.negative d.mantissa (Nat.pow 10 d.places)

end Decimal

end Sfz
