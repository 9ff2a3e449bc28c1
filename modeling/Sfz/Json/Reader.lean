import Sfz.Json

namespace Sfz.Json

def isSpace (c : Char) : Bool :=
  c == ' ' || c == '\t' || c == '\n' || c == '\r'

def skipSpace (cs : List Char) : List Char :=
  cs.dropWhile isSpace

def hexValue? (c : Char) : Option Nat :=
  if c.isDigit then some (c.toNat - '0'.toNat)
  else if 'a' ≤ c ∧ c ≤ 'f' then some (c.toNat - 'a'.toNat + 10)
  else if 'A' ≤ c ∧ c ≤ 'F' then some (c.toNat - 'A'.toNat + 10)
  else none

def codeUnit? (a b c d : Char) : Option Nat := do
  return (((← hexValue? a) * 16 + (← hexValue? b)) * 16 + (← hexValue? c)) * 16 + (← hexValue? d)

def shortEscape? : Char → Option Char
  | '"' => some '"'
  | '\\' => some '\\'
  | '/' => some '/'
  | 'b' => some '\x08'
  | 't' => some '\t'
  | 'n' => some '\n'
  | 'f' => some '\x0c'
  | 'r' => some '\r'
  | _ => none

def pairedChar? (high low : Nat) : Option Char :=
  if 0xdc00 ≤ low ∧ low < 0xe000 then
    some (Char.ofNat (0x10000 + (high - 0xd800) * 0x400 + (low - 0xdc00)))
  else none

def readChars : List Char → Option (List Char × List Char)
  | [] => none
  | '"' :: rest => some ([], rest)
  | '\\' :: 'u' :: a :: b :: c :: d :: rest =>
    match codeUnit? a b c d with
    | none => none
    | some u =>
      if 0xd800 ≤ u ∧ u < 0xdc00 then
        match rest with
        | '\\' :: 'u' :: e :: f :: g :: h :: rest =>
          match (codeUnit? e f g h).bind (pairedChar? u), readChars rest with
          | some x, some (xs, rest) => some (x :: xs, rest)
          | _, _ => none
        | _ => none
      else if 0xdc00 ≤ u ∧ u < 0xe000 then none
      else (readChars rest).map (fun (xs, rest) => (Char.ofNat u :: xs, rest))
  | '\\' :: c :: rest =>
    match shortEscape? c with
    | some x => (readChars rest).map (fun (xs, rest) => (x :: xs, rest))
    | none => none
  | c :: rest =>
    if c.toNat < 0x20 then none
    else (readChars rest).map (fun (xs, rest) => (c :: xs, rest))

def isNumeralChar (c : Char) : Bool :=
  c.isDigit || c == '-' || c == '+' || c == '.' || c == 'e' || c == 'E'

def isCanonical (n : Numeral) : Bool :=
  !n.whole.isEmpty && (n.whole.length == 1 || n.whole.head? != some '0') && n.fraction != some []

def readNumeral (cs : List Char) : Option (Numeral × List Char) :=
  match Numeral.parse? (cs.takeWhile isNumeralChar) with
  | some n => if isCanonical n then some (n, cs.dropWhile isNumeralChar) else none
  | none => none

mutual

/-- Each step into a part of the value uses up one unit of the first argument. -/
def readValue : Nat → List Char → Option (Json × List Char)
  | 0, _ => none
  | n + 1, cs =>
    match skipSpace cs with
    | '"' :: rest => (readChars rest).map (fun (s, rest) => (.string (String.ofList s), rest))
    | '[' :: rest =>
      match skipSpace rest with
      | ']' :: rest => some (.array [], rest)
      | rest => (readItems n rest).map (fun (items, rest) => (.array items, rest))
    | '\x7b' :: rest =>
      match skipSpace rest with
      | '\x7d' :: rest => some (.object [], rest)
      | rest => (readFields n rest).map (fun (fields, rest) => (.object fields, rest))
    | 'n' :: 'u' :: 'l' :: 'l' :: rest => some (.null, rest)
    | 't' :: 'r' :: 'u' :: 'e' :: rest => some (.bool true, rest)
    | 'f' :: 'a' :: 'l' :: 's' :: 'e' :: rest => some (.bool false, rest)
    | rest => (readNumeral rest).map (fun (n, rest) => (.number n, rest))

def readItems : Nat → List Char → Option (List Json × List Char)
  | 0, _ => none
  | n + 1, cs => do
    let (item, rest) ← readValue n cs
    match skipSpace rest with
    | ',' :: rest =>
      let (items, rest) ← readItems n rest
      return (item :: items, rest)
    | ']' :: rest => return ([item], rest)
    | _ => none

def readFields : Nat → List Char → Option (List (String × Json) × List Char)
  | 0, _ => none
  | n + 1, cs =>
    match skipSpace cs with
    | '"' :: rest => do
      let (key, rest) ← readChars rest
      match skipSpace rest with
      | ':' :: rest =>
        let (value, rest) ← readValue n rest
        match skipSpace rest with
        | ',' :: rest =>
          let (fields, rest) ← readFields n rest
          return ((String.ofList key, value) :: fields, rest)
        | '\x7d' :: rest => return ([(String.ofList key, value)], rest)
        | _ => none
      | _ => none
    | _ => none

end

def parse? (text : String) : Option Json :=
  let cs := text.toList
  match readValue (2 * cs.length + 1) cs with
  | some (value, rest) => if (skipSpace rest).isEmpty then some value else none
  | none => none

def get? (key : String) : Json → Option Json
  | .object fields => (fields.reverse.find? (fun f => f.1 == key)).map Prod.snd
  | _ => none

end Sfz.Json
