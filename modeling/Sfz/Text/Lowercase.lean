import Sfz.Text.CaseTable

/-!
Lower case. Every character has its own lower-case form, with two exceptions: the capital I with a dot
becomes two characters, and a capital sigma becomes a final sigma at the end of a word.
-/

namespace Sfz.Text

def CaseRun.holds (r : CaseRun) (n : Nat) : Bool :=
  r.first ≤ n && n ≤ r.last && (n - r.first) % r.step == 0

def inRuns (runs : Array (Nat × Nat)) (c : Char) : Bool :=
  runs.any (fun r => r.1 ≤ c.toNat && c.toNat ≤ r.2)

def lowerChar (c : Char) : List Char :=
  if c.toNat < 128 then [c.toLower]
  else if c = 'İ' then ['i', Char.ofNat 0x307]
  else
    match lowercaseRuns.find? (·.holds c.toNat) with
    | some r => [Char.ofNat (c.toNat + r.shift).toNat]
    | none => [c]

def meetsCased (cs : List Char) : Bool :=
  match cs.dropWhile (inRuns caseIgnorableRuns) with
  | [] => false
  | c :: _ => inRuns casedRuns c

def lowerSigma (before after : List Char) : Char :=
  if meetsCased before && !meetsCased after then 'ς' else 'σ'

def lowerFrom (before : List Char) : List Char → List Char
  | [] => []
  | c :: cs =>
    (if c = 'Σ' then [lowerSigma before cs] else lowerChar c) ++ lowerFrom (c :: before) cs

def lowercase (s : String) : String :=
  String.ofList (lowerFrom [] s.toList)

end Sfz.Text
