import Sfz.Path

/-!
File trees. A tree is a table of files, directories and symbolic links. A directory knows its entries by
their numbers in the table, which are greater than its own; number zero is the root. Relative paths are
resolved against a working directory. Following a path passes through links, at most forty of them.
-/

namespace Sfz

abbrev Location := Nat

structure Directory where
  parent : Location
  entries : List (String × Location) := []
  deriving DecidableEq

/-- The contents of a file that are no UTF-8 text are not kept. -/
inductive FileObject
  | file (text : Option String)
  | directory (d : Directory)
  | link (target : Path)
  deriving DecidableEq

namespace FileObject

def entries : FileObject → List (String × Location)
  | .directory d => d.entries
  | _ => []

def isFile : FileObject → Bool
  | .file _ => true
  | _ => false

def isDirectory : FileObject → Bool
  | .directory _ => true
  | _ => false

end FileObject

inductive FileError
  | notFound
  | notDirectory
  | isDirectory
  | nameTooLong
  | tooManyLinks
  | nulInName
  | notText
  deriving DecidableEq

def FileError.message : FileError → String
  | .notFound => "No such file or directory (os error 2)"
  | .notDirectory => "Not a directory (os error 20)"
  | .isDirectory => "Is a directory (os error 21)"
  | .nameTooLong => "File name too long (os error 36)"
  | .tooManyLinks => "Too many levels of symbolic links (os error 40)"
  | .nulInName => "file name contained an unexpected NUL byte"
  | .notText => "stream did not contain valid UTF-8"

def isFileName (s : String) : Bool :=
  !Path.isIdle s && s != ".." && !s.toList.contains '/' && !s.toList.contains (Char.ofNat 0)

/-- The entries of a directory have different names and stand behind it in the table, so that a search comes
to an end. -/
structure FileObject.Fits (size : Nat) (l : Location) (o : FileObject) : Prop where
  distinct : (o.entries.map Prod.fst).Nodup
  named : ∀ e ∈ o.entries, isFileName e.1 = true
  behind : ∀ e ∈ o.entries, l < e.2 ∧ e.2 < size

namespace FileObject.Fits

theorem of_entries_eq_nil {size : Nat} {l : Location} {o : FileObject} (h : o.entries = []) :
    o.Fits size l := by
  constructor <;> simp [h]

theorem mono {size size' : Nat} {l : Location} {o : FileObject} (h : o.Fits size l)
    (hs : size ≤ size') : o.Fits size' l :=
  ⟨h.distinct, h.named, fun e he => ⟨(h.behind e he).1, Nat.lt_of_lt_of_le (h.behind e he).2 hs⟩⟩

end FileObject.Fits

structure FileTree where
  objects : Array FileObject
  working : Location
  fits : ∀ (l : Location) (o : FileObject), objects[l]? = some o → o.Fits objects.size l

namespace FileTree

def empty : FileTree where
  objects := #[.directory ⟨0, []⟩]
  working := 0
  fits := by
    intro l o h
    have he : o.entries = [] := by
      cases l with
      | zero => simp at h; subst h; rfl
      | succ n => simp at h
    exact .of_entries_eq_nil he

def object? (t : FileTree) (l : Location) : Option FileObject :=
  t.objects[l]?

def directory? (t : FileTree) (l : Location) : Option Directory :=
  match t.object? l with
  | some (.directory d) => some d
  | _ => none

theorem object?_of_directory? {t : FileTree} {l : Location} {d : Directory}
    (h : t.directory? l = some d) : t.objects[l]? = some (.directory d) := by
  unfold directory? object? at h
  split at h
  next d' ho =>
    obtain rfl := Option.some.inj h
    exact ho
  next => simp at h

def insert (t : FileTree) (l : Location) (name : String) (o : FileObject) : FileTree :=
  match hd : t.directory? l with
  | none => t
  | some d =>
    if h : isFileName name = true ∧ name ∉ d.entries.map Prod.fst ∧ o.entries = [] then
      { objects := (t.objects.setIfInBounds l
          (.directory { d with entries := d.entries ++ [(name, t.objects.size)] })).push o
        working := t.working
        fits := by
          have hl := object?_of_directory? hd
          have hlt : l < t.objects.size := (Array.getElem?_eq_some_iff.mp hl).1
          have hs := t.fits l _ hl
          intro k p hk
          simp only [Array.size_push, Array.size_setIfInBounds]
          rw [Array.getElem?_push] at hk
          split at hk
          · obtain rfl := Option.some.inj hk
            exact .of_entries_eq_nil h.2.2
          · by_cases hkl : k = l
            · subst hkl
              rw [Array.getElem?_setIfInBounds_self_of_lt hlt] at hk
              obtain rfl := Option.some.inj hk
              refine ⟨?_, ?_, ?_⟩
              · simp only [FileObject.entries, List.map_append, List.map_cons, List.map_nil,
                  List.nodup_append]
                refine ⟨hs.distinct, by simp, ?_⟩
                intro a ha b hb hab
                have hb : b = name := by simpa using hb
                exact h.2.1 (hb ▸ hab ▸ ha)
              · intro e he
                rcases List.mem_append.mp he with he | he
                · exact hs.named e he
                · obtain rfl := List.mem_singleton.mp he
                  exact h.1
              · intro e he
                rcases List.mem_append.mp he with he | he
                · exact ⟨(hs.behind e he).1, Nat.lt_succ_of_lt (hs.behind e he).2⟩
                · obtain rfl := List.mem_singleton.mp he
                  exact ⟨hlt, Nat.lt_succ_self _⟩
            · rw [Array.getElem?_setIfInBounds_ne (Ne.symm hkl)] at hk
              exact (t.fits k p hk).mono (Nat.le_succ _) }
    else t

def setText (t : FileTree) (l : Location) (text : Option String) : FileTree :=
  match t.object? l with
  | some (.file _) =>
    { objects := t.objects.setIfInBounds l (.file text)
      working := t.working
      fits := by
        intro k p hk
        rw [Array.size_setIfInBounds]
        by_cases hkl : k = l
        · subst hkl
          rw [Array.getElem?_setIfInBounds_self] at hk
          split at hk
          · obtain rfl := Option.some.inj hk
            exact .of_entries_eq_nil rfl
          · simp at hk
        · rw [Array.getElem?_setIfInBounds_ne (Ne.symm hkl)] at hk
          exact t.fits k p hk }
  | _ => t

def files (t : FileTree) : List Location :=
  (List.range t.objects.size).filter (fun l => (t.object? l).any FileObject.isFile)

theorem mem_files_iff {t : FileTree} {l : Location} :
    l ∈ t.files ↔ ∃ text, t.object? l = some (.file text) := by
  simp only [files, List.mem_filter, List.mem_range]
  constructor
  · rintro ⟨-, h⟩
    cases ho : t.object? l with
    | none => simp [ho] at h
    | some o =>
      cases o with
      | file text => exact ⟨text, rfl⟩
      | directory d => simp [ho, FileObject.isFile] at h
      | link target => simp [ho, FileObject.isFile] at h
  · rintro ⟨text, h⟩
    exact ⟨(Array.getElem?_eq_some_iff.mp h).1, by simp [h, FileObject.isFile]⟩

def maxNameBytes : Nat := 255

def maxPathBytes : Nat := 4095

def maxLinks : Nat := 40

/-- Every piece, also one that says nothing, needs a directory to start from. The first number is how many
links may still be followed. -/
def walk (t : FileTree) (links : Nat) (l : Location) : List String → Except FileError Location
  | [] => .ok l
  | piece :: rest =>
    match t.directory? l with
    | none => .error .notDirectory
    | some d =>
      if Path.isIdle piece then walk t links l rest
      else if piece == ".." then walk t links d.parent rest
      else if maxNameBytes < piece.utf8ByteSize then .error .nameTooLong
      else
        match d.entries.lookup piece with
        | none => .error .notFound
        | some k =>
          match t.object? k with
          | some (.link target) =>
            match links with
            | 0 => .error .tooManyLinks
            | links + 1 => walk t links (if target.isAbsolute then 0 else l) (target.pieces ++ rest)
          | _ => walk t links k rest
termination_by pieces => (links, pieces.length)

def startOf (t : FileTree) (p : Path) : Location :=
  if p.isAbsolute then 0 else t.working

def locate (t : FileTree) (p : Path) : Except FileError Location :=
  if p.text.isEmpty then .error .notFound
  else if p.text.toList.contains (Char.ofNat 0) then .error .nulInName
  else if maxPathBytes < p.text.utf8ByteSize then .error .nameTooLong
  else t.walk maxLinks (t.startOf p) p.pieces

def locateFile? (t : FileTree) (p : Path) : Option Location :=
  match t.locate p with
  | .ok l =>
    match t.object? l with
    | some (.file _) => some l
    | _ => none
  | .error _ => none

def isFile (t : FileTree) (p : Path) : Bool :=
  (t.locateFile? p).isSome

def read (t : FileTree) (p : Path) : Except FileError String := do
  let l ← t.locate p
  match t.object? l with
  | some (.file (some text)) => .ok text
  | some (.file none) => .error .notText
  | some (.directory _) => .error .isDirectory
  | _ => .error .notFound

def listComponents? (t : FileTree) (cs : List Path.Component) : Option (List String) :=
  let start : Location := if cs.head? = some .root then 0 else t.working
  if cs.isEmpty then none
  else
    match t.walk maxLinks start (cs.map Path.Component.piece) with
    | .ok l => (t.directory? l).map (fun d => d.entries.map Prod.fst)
    | .error _ => none

def list? (t : FileTree) (p : Path) : Option (List String) :=
  if maxPathBytes < p.text.utf8ByteSize then none else t.listComponents? p.components

def makeDirectories? (t : FileTree) (l : Location) : List String → Option (FileTree × Location)
  | [] => some (t, l)
  | piece :: rest =>
    match t.walk maxLinks l [piece] with
    | .ok k => makeDirectories? t k rest
    | .error _ => do
      let d ← t.directory? l
      let k := t.objects.size
      if (d.entries.lookup piece).isSome || !isFileName piece then none
      else makeDirectories? (t.insert l piece (.directory ⟨l, []⟩)) k rest

def putDirectory (t : FileTree) (p : Path) : FileTree :=
  ((t.makeDirectories? (t.startOf p) p.pieces).map Prod.fst).getD t

/-- A file takes the place of a file that is there already. -/
def put (t : FileTree) (p : Path) (o : FileObject) : FileTree :=
  let names := p.pieces.filter (fun piece => !Path.isIdle piece)
  match names.getLast?, t.makeDirectories? (t.startOf p) names.dropLast with
  | some name, some (t, l) =>
    match o, t.walk maxLinks l [name] with
    | .file text, .ok k => t.setText k text
    | o, _ => t.insert l name o
  | _, _ => t

end FileTree

end Sfz
