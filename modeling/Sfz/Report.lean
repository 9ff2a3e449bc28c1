import Sfz.Finding

namespace Sfz

structure Report where
  remaining : List Finding
  deriving DecidableEq

namespace Report

def ofFindings (findings : List Finding) : Report :=
  ⟨findings.mergeSort (fun a b => a.position.le b.position)⟩

def hasErrors (r : Report) : Bool :=
  r.remaining.any Finding.isError

def next (r : Report) : Option Finding × Report :=
  match r.remaining with
  | [] => (none, r)
  | f :: rest => (some f, ⟨rest⟩)

end Report

end Sfz
