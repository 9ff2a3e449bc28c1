namespace Sfz.Number

def digitValue (c : Char) : Nat :=
  c.toNat - '0'.toNat

def digitsValue (cs : List Char) : Nat :=
  cs.foldl (fun n c => 10 * n + digitValue c) 0

def isDigits (cs : List Char) : Bool :=
  !cs.isEmpty && cs.all Char.isDigit

def sign : List Char → Bool × List Char
  | '-' :: cs => (true, cs)
  | cs => (false, cs)

def signed (negative : Bool) (n : Nat) : Int :=
  if negative then -n else n

def integer? (cs : List Char) : Option Int :=
  let (negative, digits) := sign cs
  if isDigits digits then some (signed negative (digitsValue digits)) else none

def minWord : Int := -0x8000000000000000
def maxWord : Int := 0x7fffffffffffffff

def word? (cs : List Char) : Option Int :=
  (integer? cs).filter (fun n => minWord ≤ n && n ≤ maxWord)

def maxIndex : Nat := 0xffffffff

def index? (cs : List Char) : Option Nat :=
  if isDigits cs then
    let n := digitsValue cs
    if n ≤ maxIndex then some n else none
  else none

end Sfz.Number
