import Sfz.Finding
import Sfz.Number.Decimal
import Sfz.Number.Note

/-!
Values against entries. Whole numbers and note names are equally good for integers and notes; decimals
have no exponent. A number is compared with the bounds as the nearest number of the 64-bit binary format.
-/

namespace Sfz

open Number

namespace Bounds

def check? (b : Bounds) (value : String) (n : Binary64) : Option Problem :=
  match b.min, b.max with
  | some lo, some hi => if n.lt lo || hi.lt n then some (.outOfRange value lo hi) else none
  | some lo, none => if n.lt lo then some (.belowMinimum value lo) else none
  | none, some hi => if hi.lt n then some (.aboveMaximum value hi) else none
  | none, none => none

end Bounds

namespace Entry

def integerValue? (cs : List Char) : Option Binary64 :=
  (integer? cs).map Binary64.ofInt

def noteValue? (cs : List Char) : Option Binary64 :=
  (Note.parse? cs).map Binary64.ofInt

def numberOf? (type : ValueType) (cs : List Char) : Option Binary64 :=
  match type with
  | .integer => (integerValue? cs).or (noteValue? cs)
  | .note => (noteValue? cs).or (integerValue? cs)
  | .float => (Decimal.parse? cs).map Decimal.toBinary64
  | _ => none

def check? (e : Entry) (value : String) : Option Problem :=
  match e.type with
  | .string | .path => none
  | .enum options => if options.contains value then none else some (.noOption value options)
  | type =>
    match numberOf? type value.toList with
    | some n => e.bounds.check? value n
    | none => some (.wrongType type value)

end Entry

end Sfz
