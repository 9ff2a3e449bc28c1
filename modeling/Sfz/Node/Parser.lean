import Sfz.Node.Comment
import Sfz.Text.Blank
import Sfz.Text.Lines
import Sfz.Text.Word

/-!
Reading the text of an instrument file into nodes. Comments are blanked first; then each line is a
directive or a run of header tags `<kind>` and settings `name=value`. A value runs on to the next tag,
to a blank before the next `name=`, or to the end of the line.
-/

namespace Sfz.Parser

open Sfz.Text

def isTagChar (c : Char) : Bool :=
  c != '<' && c != '>' && !isBlank c

def after? : List Char → List Char → Option (List Char)
  | [], cs => some cs
  | _ :: _, [] => none
  | p :: ps, c :: cs => if p = c then after? ps cs else none

def tag? : List Char → Option (List Char × List Char)
  | '<' :: cs =>
    match cs.dropWhile isTagChar with
    | '>' :: rest => some (cs.takeWhile isTagChar, rest)
    | _ => none
  | _ => none

def setting? (cs : List Char) : Option (List Char × List Char) :=
  match cs.takeWhile isNameChar, cs.dropWhile isNameChar with
  | c :: name, '=' :: rest => some (c :: name, rest)
  | _, _ => none

/-- A value ends before a tag and before blanks that a setting follows. -/
def endsValue : List Char → Bool
  | [] => true
  | c :: cs => (tag? (c :: cs)).isSome || (isBlank c && (setting? (trimStart cs)).isSome)

def rawValue : List Char → List Char × List Char
  | [] => ([], [])
  | c :: cs =>
    if endsValue (c :: cs) then ([], c :: cs)
    else
      let r := rawValue cs
      (c :: r.1, r.2)

def unquote (cs : List Char) : List Char :=
  match cs with
  | '"' :: d :: ds => if (d :: ds).getLast? = some '"' then (d :: ds).dropLast else cs
  | _ => cs

theorem tag?_length {cs name rest : List Char} (h : tag? cs = some (name, rest)) :
    rest.length < cs.length := by
  unfold tag? at h
  split at h
  next cs =>
    split at h
    next r hr =>
      obtain ⟨-, rfl⟩ := by simpa using h
      have := (List.dropWhile_sublist (l := cs) isTagChar).length_le
      simp only [hr, List.length_cons] at this ⊢
      omega
    next => simp at h
  next => simp at h

theorem setting?_length {cs name rest : List Char} (h : setting? cs = some (name, rest)) :
    rest.length < cs.length := by
  unfold setting? at h
  split at h
  next r _ hr =>
    obtain ⟨-, rfl⟩ := by simpa using h
    have := (List.dropWhile_sublist (l := cs) isNameChar).length_le
    simp only [hr, List.length_cons] at this ⊢
    omega
  next => simp at h

theorem rawValue_append (cs : List Char) : (rawValue cs).1 ++ (rawValue cs).2 = cs := by
  induction cs with
  | nil => rfl
  | cons c cs ih =>
    simp only [rawValue]
    split
    · rfl
    · simp [ih]

theorem rawValue_length (cs : List Char) : (rawValue cs).2.length ≤ cs.length := by
  have := congrArg List.length (rawValue_append cs)
  simp only [List.length_append] at this
  omega

def scan (s : Span) : List Char → Except SyntaxError (List Node)
  | [] => .ok []
  | c :: cs =>
    if isBlank c then scan (s.right 1) cs
    else
      match _ht : tag? (c :: cs) with
      | some (name, rest) =>
        match HeaderKind.ofName? (String.ofList name) with
        | none => .error ⟨s, .unknownHeader (String.ofList name)⟩
        | some kind => do
          return .header kind s :: (← scan (s.right (name.length + 2)) rest)
      | none =>
        match _ho : setting? (c :: cs) with
        | some (name, rest) => do
          let value := String.ofList (unquote (trim (rawValue rest).1))
          let next := s.right (name.length + 1 + (rawValue rest).1.length)
          return .opcode (String.ofList name) value s :: (← scan next (rawValue rest).2)
        | none => .error ⟨s, .unexpectedInput⟩
termination_by cs => cs.length
decreasing_by
  · simp
  · exact tag?_length ‹_›
  · exact Nat.lt_of_le_of_lt (rawValue_length rest) (setting?_length ‹_›)

def definition? : List Char → Option (String × String)
  | [] => none
  | c :: cs =>
    match trimStart cs with
    | '$' :: body =>
      let name := body.takeWhile isWordChar
      let rest := body.dropWhile isWordChar
      if isBlank c && !name.isEmpty && rest.head?.all isBlank then
        some (String.ofList name, String.ofList (trim rest))
      else none
    | _ => none

def inclusion? : List Char → Option String
  | [] => none
  | c :: cs =>
    if !isBlank c then none
    else
      let body := trim cs
      match body with
      | '"' :: d :: ds =>
        if (d :: ds).getLast? = some '"' ∧ '"' ∉ (d :: ds).dropLast then
          some (String.ofList (d :: ds).dropLast)
        else if body.any isBlank then none
        else some (String.ofList body)
      | _ => if body.isEmpty || body.any isBlank then none else some (String.ofList body)

def parseLine (n : Nat) (line : List Char) : Except SyntaxError (List Node) :=
  let body := trimStart line
  let s : Span := ⟨n, line.length - body.length + 1⟩
  match after? "#define".toList body with
  | some rest =>
    match definition? rest with
    | some (name, value) => .ok [.define name value s]
    | none => .error ⟨s, .malformedDefine⟩
  | none =>
    match after? "#include".toList body with
    | some rest =>
      match inclusion? rest with
      | some path => .ok [.inclusion path s]
      | none => .error ⟨s, .malformedInclude⟩
    | none => scan ⟨n, 1⟩ line

def parseLines (n : Nat) : List (List Char) → Except SyntaxError (List Node)
  | [] => .ok []
  | l :: ls => do
    let nodes ← parseLine n l
    return nodes ++ (← parseLines (n + 1) ls)

end Sfz.Parser

namespace Sfz.Node

def parse (text : String) : Except SyntaxError (List Node) := do
  let code ← Comment.blankComments text.toList
  Parser.parseLines 1 (Text.lines code)

end Sfz.Node
