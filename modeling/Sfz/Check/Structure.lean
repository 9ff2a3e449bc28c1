import Sfz.Document
import Sfz.Number.Note

namespace Sfz.Document

open Number

def headerFindings (allowed : Option (List Version)) (selected : List Version) :
    List HeaderKind → List Header → List Finding
  | _, [] => []
  | seen, h :: rest =>
    let v := h.kind.version
    (if allowed.any (fun vs => !vs.contains v) then [⟨.headerVersion v selected, h.position, none⟩]
      else []) ++
    (if h.kind.isSingle && seen.contains h.kind then [⟨.repeatedHeader h.kind, h.position, none⟩]
      else []) ++
    headerFindings allowed selected (h.kind :: seen) rest

def checkHeaders (d : Document) (allowed : Option (List Version)) (selected : List Version) :
    List Finding :=
  headerFindings allowed selected [] d.headers.toList

def duplicateFindings : List String → List Setting → List Finding
  | _, [] => []
  | seen, s :: rest =>
    (if seen.contains s.name then [⟨.duplicateOpcode, s.position, some s.name⟩] else []) ++
      duplicateFindings (s.name :: seen) rest

def checkDuplicates (d : Document) : List Finding :=
  d.headers.toList.flatMap (fun h => duplicateFindings [] h.settings.toList)

/-- Occurrences of `curvecc` that overlap an earlier one do not count. -/
def refersToCurve : List Char → Bool
  | 'c' :: 'u' :: 'r' :: 'v' :: 'e' :: 'c' :: 'c' :: rest =>
    rest.head?.any Char.isDigit || refersToCurve rest
  | _ :: rest => refersToCurve rest
  | [] => false

def firstCustomCurve : Int := 8

def curveProblem? (declared : List Nat) (value : String) : Option Problem :=
  match word? (Text.trim value.toList) with
  | none => none
  | some k =>
    if k < 0 then some .negativeCurve
    else if k < firstCustomCurve || declared.contains k.toNat then none
    else some (.undefinedCurve k)

def checkCurves (d : Document) : List Finding :=
  let declared := d.curves
  d.settings.filterMap (fun s =>
    if refersToCurve s.2.name.toList then
      (curveProblem? declared s.2.value).map (⟨·, s.2.position, some s.2.name⟩)
    else none)

def rangePairs : List (String × String) :=
  [("lokey", "hikey"), ("lovel", "hivel")]

/-- A negative upper end switches a range off. -/
def rangeProblem? (d : Document) (id : Nat) (low high : String) : Option Problem := do
  let lo ← d.lookup low id
  let hi ← d.lookup high id
  let l ← Note.key? lo.value.toList
  let h ← Note.key? hi.value.toList
  if 0 ≤ h ∧ h < l then some (.invertedRange low lo.value high hi.value) else none

def checkRanges (d : Document) : List Finding :=
  d.headers.toList.zipIdx.flatMap (fun h =>
    if h.1.kind = .region then
      rangePairs.filterMap (fun pair =>
        (d.rangeProblem? h.2 pair.1 pair.2).map (⟨·, h.1.position, none⟩))
    else [])

end Sfz.Document
