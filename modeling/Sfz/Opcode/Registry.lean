import Sfz.Opcode.Table
import Std.Data.HashMap

/-!
The registry of opcodes: the entries of a table and an index from names to rules. Of the rules that
match a name the one of the least tier applies, and of several the first in the order of the table.
Rules for a fixed text are indexed by it, all others by the shape of the names that they match.
-/

namespace Sfz

inductive MatchKind
  | exact
  | template
  | variant
  | alias
  deriving DecidableEq

structure Match where
  entry : Entry
  kind : MatchKind
  slots : List (Char × Nat)
  deriving DecidableEq

namespace Pattern

def tier : Pattern → Nat
  | .exact _ => 0
  | .template _ => 1
  | .variant _ => 2

def match? (p : Pattern) (name : String) : Option (List (Char × Nat)) :=
  match p with
  | .exact text => if text = name then some [] else none
  | .template t => t.match? name
  | .variant t => t.match? name

def kind : Pattern → MatchKind
  | .exact _ => .exact
  | .template _ => .template
  | .variant _ => .variant

end Pattern

namespace Rule

/-- Lower tiers come first; every alias comes after every name. -/
def tier (r : Rule) : Nat :=
  (if r.isAlias then 3 else 0) + r.pattern.tier

def kind (r : Rule) : MatchKind :=
  if r.isAlias then .alias else r.pattern.kind

def match? (r : Rule) (name : String) : Option Match :=
  (r.pattern.match? name).map (fun slots => ⟨r.entry, r.kind, slots⟩)

def exactKey? (r : Rule) : Option String :=
  match r.pattern with
  | .exact text => some text
  | _ => none

def shapeKey? (r : Rule) : Option String :=
  match r.pattern with
  | .exact _ => none
  | .template t => some (String.ofList t.shape)
  | .variant t => some (String.ofList t.shape)

def bestFrom (name : String) : Option (Nat × Match) → List Rule → Option (Nat × Match)
  | best, [] => best
  | best, r :: rest =>
    if best.any (fun b => b.1 ≤ r.tier) then bestFrom name best rest
    else
      match r.match? name with
      | some m => bestFrom name (some (r.tier, m)) rest
      | none => bestFrom name best rest

def best? (name : String) (rules : List Rule) : Option Match :=
  (bestFrom name none rules).map (·.2)

end Rule

abbrev Buckets := Std.HashMap String (List Rule)

namespace Buckets

def add (key? : Rule → Option String) (b : Buckets) (r : Rule) : Buckets :=
  match key? r with
  | some k => b.alter k (fun rules => some (rules.getD [] ++ [r]))
  | none => b

def ofRules (key? : Rule → Option String) (rules : List Rule) : Buckets :=
  rules.foldl (add key?) ∅

def get (b : Buckets) (key : String) : List Rule :=
  b.getD key []

end Buckets

structure Registry where
  entries : List Entry
  rules : List Rule
  exact : Buckets
  shaped : Buckets

namespace Registry

def ofCompiled (compiled : List (Entry × List Rule)) : Registry :=
  let rules := compiled.flatMap (·.2)
  ⟨compiled.map (·.1), rules, .ofRules Rule.exactKey? rules, .ofRules Rule.shapeKey? rules⟩

def build (t : Table) : Except TableError Registry :=
  t.compile.map ofCompiled

def size (r : Registry) : Nat :=
  r.entries.length

def get? (r : Registry) (name : String) : Option Entry :=
  r.entries.find? (fun e => e.name == name)

def candidates (r : Registry) (name : String) : List Rule :=
  r.exact.get name ++ r.shaped.get (String.ofList (Template.shapeOf name.toList))

def lookup (r : Registry) (name : String) : Option Match :=
  Rule.best? name (r.candidates name)

end Registry

end Sfz
