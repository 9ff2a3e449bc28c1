import Sfz.Number.Numeral

namespace Sfz

inductive Json
  | null
  | bool (b : Bool)
  | number (n : Numeral)
  | string (s : String)
  | array (items : List Json)
  | object (fields : List (String × Json))

namespace Json

def nat (n : Nat) : Json :=
  .number (.ofNat n)

def hexDigit (n : Nat) : Char :=
  if n < 10 then Char.ofNat ('0'.toNat + n) else Char.ofNat ('a'.toNat + (n - 10))

def escapeChar (c : Char) : List Char :=
  if c = '"' then ['\\', '"']
  else if c = '\\' then ['\\', '\\']
  else if c.toNat < 0x20 then
    match c.toNat with
    | 8 => ['\\', 'b']
    | 9 => ['\\', 't']
    | 10 => ['\\', 'n']
    | 12 => ['\\', 'f']
    | 13 => ['\\', 'r']
    | n => ['\\', 'u', '0', '0', hexDigit (n / 16), hexDigit (n % 16)]
  else [c]

def quoted (s : String) : List Char :=
  '"' :: s.toList.flatMap escapeChar ++ ['"']

mutual

def write : Json → List Char
  | .null => ['n', 'u', 'l', 'l']
  | .bool true => ['t', 'r', 'u', 'e']
  | .bool false => ['f', 'a', 'l', 's', 'e']
  | .number n => n.text
  | .string s => quoted s
  | .array [] => ['[', ']']
  | .array (item :: rest) => '[' :: write item ++ writeItems rest ++ [']']
  | .object [] => ['\x7b', '\x7d']
  | .object ((key, value) :: rest) =>
    '\x7b' :: quoted key ++ ':' :: write value ++ writeFields rest ++ ['\x7d']

def writeItems : List Json → List Char
  | [] => []
  | item :: rest => ',' :: write item ++ writeItems rest

def writeFields : List (String × Json) → List Char
  | [] => []
  | (key, value) :: rest => ',' :: quoted key ++ ':' :: write value ++ writeFields rest

end

def compact (j : Json) : String :=
  String.ofList j.write

end Json

end Sfz
