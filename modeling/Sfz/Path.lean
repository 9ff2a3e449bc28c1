/-!
Paths. A path is kept as it is written, and its components are a view of it: separators that repeat or
stand last and single dots inside do not count. Order and equality of places in files go by components.
-/

namespace Sfz

structure Path where
  text : String
  deriving DecidableEq

namespace Path

inductive Component
  | root
  | here
  | up
  | name (text : String)
  deriving DecidableEq, Hashable

def split : List Char → List (List Char)
  | [] => [[]]
  | c :: cs =>
    if c = '/' then [] :: split cs
    else
      match split cs with
      | [] => [[c]]
      | p :: ps => (c :: p) :: ps

def pieces (p : Path) : List String :=
  (split p.text.toList).map String.ofList

def isAbsolute (p : Path) : Bool :=
  p.text.toList.head? == some '/'

def isIdle (piece : String) : Bool :=
  piece.isEmpty || piece == "."

def componentOf (piece : String) : Component :=
  if piece == ".." then .up else .name piece

def componentsOf (pieces : List String) : List Component :=
  (pieces.filter (fun p => !isIdle p)).map componentOf

def components (p : Path) : List Component :=
  if p.isAbsolute then .root :: componentsOf p.pieces
  else
    match p.pieces with
    | "." :: rest => .here :: componentsOf rest
    | ps => componentsOf ps

namespace Component

def piece : Component → String
  | .root => ""
  | .here => "."
  | .up => ".."
  | .name n => n

def rank : Component → Nat
  | .root => 0
  | .here => 1
  | .up => 2
  | .name _ => 3

def cmp : Component → Component → Ordering
  | .name a, .name b => compare a b
  | a, b => compare a.rank b.rank

end Component

def cmpComponents : List Component → List Component → Ordering
  | [], [] => .eq
  | [], _ :: _ => .lt
  | _ :: _, [] => .gt
  | a :: as, b :: bs => (a.cmp b).then (cmpComponents as bs)

def cmp (a b : Path) : Ordering :=
  cmpComponents a.components b.components

def join (base p : Path) : Path :=
  if p.isAbsolute then p
  else if base.text.isEmpty || base.text.toList.getLast? == some '/' then ⟨base.text ++ p.text⟩
  else ⟨base.text ++ "/" ++ p.text⟩

def dropIdle (pieces : List String) : List String :=
  (pieces.reverse.dropWhile isIdle).reverse

def dropLastPiece? (pieces : List String) : Option (List String) :=
  match dropIdle pieces with
  | [] => none
  | ps => some (dropIdle ps.dropLast)

def parent? (p : Path) : Option Path :=
  if p.isAbsolute then
    (dropLastPiece? p.pieces.tail).map (fun ps => ⟨"/" ++ "/".intercalate ps⟩)
  else
    match p.pieces with
    | "." :: rest =>
      match dropLastPiece? rest with
      | none => some ⟨""⟩
      | some ps => some ⟨"/".intercalate ("." :: ps)⟩
    | ps => (dropLastPiece? ps).map (fun ps => ⟨"/".intercalate ps⟩)

def fileName? (p : Path) : Option String :=
  match p.components.getLast? with
  | some (.name n) => some n
  | _ => none

def extension? (p : Path) : Option String := do
  let name ← p.fileName?
  let back := name.toList.reverse
  match back.dropWhile (· ≠ '.') with
  | '.' :: _ :: _ => some (String.ofList (back.takeWhile (· ≠ '.')).reverse)
  | _ => none

end Path

end Sfz
