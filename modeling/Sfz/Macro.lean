import Sfz.Text.Word

/-!
Macros. A `$` and the longest run of word characters after it is a reference: the longest defined
beginning of the run stands for its value, and the rest of the run stays. A reference without a defined
beginning stays as written and is reported. Values are not read again.
-/

namespace Sfz

open Text

structure MacroTable where
  definitions : List (String × String)

structure Expansion where
  text : String
  undefined : List String
  deriving DecidableEq

namespace MacroTable

def empty : MacroTable :=
  ⟨[]⟩

def define (t : MacroTable) (name value : String) : MacroTable :=
  ⟨(name, value) :: t.definitions⟩

def get? (t : MacroTable) (name : String) : Option String :=
  t.definitions.lookup name

@[simp] theorem get?_define_self (t : MacroTable) (name value : String) :
    (t.define name value).get? name = some value := by
  simp [define, get?]

theorem get?_define_of_ne (t : MacroTable) {name other : String} (value : String)
    (h : other ≠ name) : (t.define name value).get? other = t.get? other := by
  have hb : (other == name) = false := by simpa using h
  simp [define, get?, List.lookup_cons, hb]

def longestUpTo? (t : MacroTable) (run : List Char) : Nat → Option (List Char × List Char)
  | 0 => none
  | n + 1 =>
    match t.get? (String.ofList (run.take (n + 1))) with
    | some value => some (value.toList, run.drop (n + 1))
    | none => longestUpTo? t run n

def reference (t : MacroTable) (run : List Char) : List Char × Bool :=
  match t.longestUpTo? run run.length with
  | some (value, rest) => (value ++ rest, false)
  | none => ('$' :: run, true)

def expandChars (t : MacroTable) : List Char → List Char × List (List Char)
  | [] => ([], [])
  | c :: cs =>
    if c = '$' then
      let run := cs.takeWhile isWordChar
      let out := t.reference run
      let rest := expandChars t (cs.dropWhile isWordChar)
      (out.1 ++ rest.1, if out.2 && !run.isEmpty then run :: rest.2 else rest.2)
    else
      let rest := expandChars t cs
      (c :: rest.1, rest.2)
termination_by cs => cs.length
decreasing_by
  · exact Nat.lt_succ_of_le (List.dropWhile_sublist isWordChar).length_le
  · simp

def expand (t : MacroTable) (text : String) : Expansion :=
  let out := t.expandChars text.toList
  ⟨String.ofList out.1, out.2.map String.ofList⟩

end MacroTable

end Sfz
