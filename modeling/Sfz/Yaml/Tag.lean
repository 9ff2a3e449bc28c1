import Sfz.Json.Reader
import Sfz.Yaml.Mark

namespace Sfz.Yaml

structure TagName where
  handle : String
  suffix : List UInt8
  deriving DecidableEq

def octets (s : String) : List UInt8 :=
  s.toUTF8.data.toList

namespace TagName

def handles : List (String × List UInt8) :=
  [("!", octets "!"), ("!!", octets "tag:yaml.org,2002:")]

/-- Octets that are no text give the empty tag. -/
def resolve? (known : List (String × List UInt8)) (t : TagName) : Option String :=
  let start := if t.handle.isEmpty then some [] else known.lookup t.handle
  start.map (fun start => (String.fromUTF8? ⟨(start ++ t.suffix).toArray⟩).getD "")

def isTagChar (inBrackets : Bool) (c : Char) : Bool :=
  isNameChar c || ";/?:@&=+$.!~*'()%".toList.contains c || (inBrackets && ",[]".toList.contains c)

def trailing? (octet : Nat) : Option Nat :=
  if octet < 0x80 then some 0
  else if octet / 0x20 = 6 then some 1
  else if octet / 0x10 = 14 then some 2
  else if octet / 0x08 = 30 then some 3
  else none

def decode? (needed : Nat) : List Char → Option (List UInt8)
  | [] => if needed = 0 then some [] else none
  | '%' :: a :: b :: cs => do
    let octet := 16 * (← Json.hexValue? a) + (← Json.hexValue? b)
    let needed ←
      if needed = 0 then trailing? octet
      else if octet / 0x40 = 2 then some (needed - 1)
      else none
    return UInt8.ofNat octet :: (← decode? needed cs)
  | c :: cs =>
    if needed = 0 && c != '%' then (decode? 0 cs).map (UInt8.ofNat c.toNat :: ·) else none

def clip (octets : List UInt8) : List UInt8 :=
  octets.takeWhile (· != 0)

def text? (inBrackets : Bool) (r : Rest) : Option (List UInt8 × Rest) :=
  let run := r.chars.takeWhile (isTagChar inBrackets)
  (decode? 0 run).map (fun octets => (octets, r.skip run.length))

def readHandle (r : Rest) : String × Rest :=
  let name := (r.chars.drop 1).takeWhile isNameChar
  let n := name.length + 1
  let n := if (r.chars.drop n).head? = some '!' then n + 1 else n
  (String.ofList (r.chars.take n), r.skip n)

def isHandle (s : String) : Bool :=
  1 < s.length && s.toList.getLast? == some '!'

def parse? (r : Rest) : Option (TagName × Rest) :=
  match r.chars with
  | '!' :: '<' :: _ => do
    let (octets, r) ← text? true (r.skip 2)
    if octets.isEmpty || r.chars.head? != some '>' then none
    else some (⟨"", clip octets⟩, r.skip 1)
  | _ => do
    let (start, r) := readHandle r
    let (suffix, r) ← text? false r
    if isHandle start then
      if suffix.isEmpty then none else some (⟨start, clip suffix⟩, r)
    else
      let suffix := clip (octets (String.ofList start.toList.tail) ++ suffix)
      some (if suffix.isEmpty then ⟨"", octets "!"⟩ else ⟨"!", suffix⟩, r)

end TagName

inductive Directive
  | version (major minor : Nat)
  | tag (handle : String) (start : List UInt8)
  deriving DecidableEq

namespace Directive

def maxDigits : Nat := 9

def number? (r : Rest) : Option (Nat × Rest) :=
  let digits := r.chars.takeWhile Char.isDigit
  if digits.isEmpty || maxDigits < digits.length then none
  else some (digits.foldl (fun n c => 10 * n + (c.toNat - '0'.toNat)) 0, r.skip digits.length)

def version? (r : Rest) : Option (Directive × Rest) := do
  let (major, r) ← number? r
  if r.chars.head? != some '.' then none
  else
    let (minor, r) ← number? (r.skip 1)
    return (.version major minor, r)

def tag? (r : Rest) : Option (Directive × Rest) := do
  if r.chars.head? != some '!' then none
  else
    let (handle, r) := TagName.readHandle r
    if (handle != "!" && !TagName.isHandle handle) || !r.chars.head?.any isBlank then none
    else
      let (start, r) ← TagName.text? true (r.skipWhile isBlank)
      if start.isEmpty || !atGap r.chars then none else some (.tag handle (TagName.clip start), r)

def parse? (r : Rest) : Option (Directive × Rest) := do
  let r := r.skip 1
  let name := String.ofList (r.chars.takeWhile isNameChar)
  let r := r.skip name.length
  if !atGap r.chars then none
  else
    let r := r.skipWhile isBlank
    let (d, r) ← if name == "YAML" then version? r else if name == "TAG" then tag? r else none
    return (d, ← r.endLine?)

end Directive

end Sfz.Yaml
