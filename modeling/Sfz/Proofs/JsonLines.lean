import Sfz.Data
import Sfz.Finding
import Sfz.Proofs.NumberTexts

namespace Sfz.Json

open Number

theorem hexValue?_hexDigit {n : Nat} (h : n < 16) : hexValue? (hexDigit n) = some n := by
  revert n
  decide

theorem codeUnit?_hexDigit {n : Nat} (h : n < 0x100) :
    codeUnit? '0' '0' (hexDigit (n / 16)) (hexDigit (n % 16)) = some n := by
  have hzero : hexValue? '0' = some 0 := by decide
  have hhigh : hexValue? (hexDigit (n / 16)) = some (n / 16) := hexValue?_hexDigit (by omega)
  have hlow : hexValue? (hexDigit (n % 16)) = some (n % 16) := hexValue?_hexDigit (by omega)
  simp only [codeUnit?, hzero, hhigh, hlow, Option.bind_eq_bind, Option.bind_some, Option.pure_def]
  congr 1
  omega

theorem readChars_raw {c : Char} (hq : c ≠ '"') (hb : c ≠ '\\') (hc : 0x20 ≤ c.toNat) (rest : List Char) :
    readChars (c :: rest) = (readChars rest).map (fun (xs, rest) => (c :: xs, rest)) := by
  rw [readChars]
  · rw [if_neg (by omega)]
  · exact hq
  · simp [hb]
  · simp [hb]

theorem readChars_short {c x : Char} (hc : shortEscape? c = some x) (rest : List Char) :
    readChars ('\\' :: c :: rest) = (readChars rest).map (fun (xs, rest) => (x :: xs, rest)) := by
  rw [readChars]
  · simp [hc]
  · rintro a b d e rest rfl
    simp [shortEscape?] at hc

theorem readChars_unit {n : Nat} {a b c d : Char} (h : codeUnit? a b c d = some n) (hn : n < 0xd800) (rest : List Char) :
    readChars ('\\' :: 'u' :: a :: b :: c :: d :: rest) = (readChars rest).map (fun (xs, rest) => (Char.ofNat n :: xs, rest)) := by
  rw [readChars]
  simp only [h]
  rw [if_neg (by omega), if_neg (by omega)]

theorem escapeChar_cases (c : Char) :
    (∃ x, shortEscape? x = some c ∧ 0x20 ≤ x.toNat ∧ escapeChar c = ['\\', x]) ∨
      (c.toNat < 0x20 ∧
        escapeChar c = ['\\', 'u', '0', '0', hexDigit (c.toNat / 16), hexDigit (c.toNat % 16)]) ∨
      (c ≠ '"' ∧ c ≠ '\\' ∧ 0x20 ≤ c.toNat ∧ escapeChar c = [c]) := by
  have hofNat {n : Nat} (h : c.toNat = n) : c = Char.ofNat n := by rw [← h, Char.ofNat_toNat]
  unfold escapeChar
  split
  next h => exact .inl ⟨'"', by rw [h]; decide, by decide, rfl⟩
  next hq =>
    split
    next h => exact .inl ⟨'\\', by rw [h]; decide, by decide, rfl⟩
    next hb =>
      split
      next hc =>
        split
        case h_6 => exact .inr (.inl ⟨hc, rfl⟩)
        all_goals next h => exact .inl ⟨_, by rw [hofNat h]; decide, by decide, rfl⟩
      next => exact .inr (.inr ⟨hq, hb, by omega, rfl⟩)

theorem readChars_escapeChar (c : Char) (rest : List Char) :
    readChars (escapeChar c ++ rest) = (readChars rest).map (fun (xs, rest) => (c :: xs, rest)) := by
  rcases escapeChar_cases c with ⟨x, hx, -, he⟩ | ⟨hc, he⟩ | ⟨hq, hb, hc, he⟩
  · rw [he]
    exact readChars_short hx rest
  · have hunit := readChars_unit (codeUnit?_hexDigit (n := c.toNat) (by omega)) (by omega) rest
    rw [Char.ofNat_toNat] at hunit
    rw [he]
    exact hunit
  · rw [he]
    exact readChars_raw hq hb hc rest

theorem readChars_flatMap_escapeChar (s rest : List Char) :
    readChars (s.flatMap escapeChar ++ '"' :: rest) = some (s, rest) := by
  induction s with
  | nil => simp [readChars]
  | cons c s ih => rw [List.flatMap_cons, List.append_assoc, readChars_escapeChar, ih, Option.map_some]

theorem skipSpace_cons {c : Char} (h : isSpace c = false) (rest : List Char) : skipSpace (c :: rest) = c :: rest := by
  simp [skipSpace, h]

def Reads (v : Json) : Prop :=
  ∀ (n : Nat) (rest : List Char), rest.head?.any isNumeralChar = false → readValue (n + 1) (v.write ++ rest) = some (v, rest)

theorem reads_string (s : String) : Reads (.string s) := by
  intro n rest hrest
  rw [write, quoted, List.append_assoc, List.cons_append, readValue, skipSpace_cons (by decide)]
  simp only [List.singleton_append, readChars_flatMap_escapeChar, Option.map_some, String.ofList_toList]

theorem isSpace_of_isDigit {c : Char} (h : c.isDigit = true) : isSpace c = false := by
  have hall : "0123456789".toList.all (fun c => !isSpace c) = true := by decide
  simpa using List.all_eq_true.mp hall c (isDigit_iff_mem.mp h)

theorem readValue_of_isDigit {c : Char} (h : c.isDigit = true) (n : Nat) (cs : List Char) :
    readValue (n + 1) (c :: cs) = (readNumeral (c :: cs)).map (fun (m, rest) => (.number m, rest)) := by
  rw [readValue, skipSpace_cons (isSpace_of_isDigit h)]
  split
  case h_7 => rfl
  all_goals next he =>
    obtain ⟨rfl, -⟩ := List.cons.inj he
    simp at h

theorem head?_toDigits {n : Nat} (hn : 0 < n) : (Nat.toDigits 10 n).head? ≠ some '0' := by
  induction n using Nat.strongRecOn with
  | ind n ih =>
    by_cases hlt : n < 10
    · have hdigit : ∀ d < 10, 0 < d → Nat.digitChar d ≠ '0' := by decide
      simpa [Nat.toDigits_of_lt_base hlt] using hdigit n hlt hn
    · rw [Nat.toDigits_of_base_le (by decide) (by omega), List.head?_append_of_ne_nil _ Nat.toDigits_ne_nil]
      exact ih (n / 10) (by omega) (by omega)

theorem isCanonical_ofNat (n : Nat) : isCanonical (.ofNat n) = true := by
  have hne : (Nat.toDigits 10 n).isEmpty = false := List.isEmpty_eq_false_iff.mpr Nat.toDigits_ne_nil
  rcases Nat.eq_zero_or_pos n with rfl | hn
  · decide
  · simp [isCanonical, Numeral.ofNat, hne, head?_toDigits hn]

theorem text_ofNat (n : Nat) : (Numeral.ofNat n).text = Nat.toDigits 10 n := by
  simp [Numeral.text, Numeral.ofNat, Numeral.exponentText]

theorem numeralParse?_digits {ds : List Char} (hd : isDigits ds = true) :
    Numeral.parse? ds = some { whole := ds } := by
  obtain ⟨hne, hall⟩ := isDigits_iff.mp hd
  obtain ⟨htake, hdrop⟩ := span_digits hall
  have hs : sign ds = (false, ds) := sign_minus false (head_ne_minus hall)
  simp [Numeral.parse?, hs, htake, hdrop, Numeral.fractionPart, Numeral.exponentPart?, hne]

theorem readNumeral_toDigits (n : Nat) {rest : List Char} (h : rest.head?.any isNumeralChar = false) :
    readNumeral (Nat.toDigits 10 n ++ rest) = some (.ofNat n, rest) := by
  have hd := isDigits_toDigits n
  have hchars : ∀ c ∈ Nat.toDigits 10 n, isNumeralChar c = true := by
    intro c hc
    simp [isNumeralChar, (isDigits_iff.mp hd).2 c hc]
  have hspan : rest.takeWhile isNumeralChar = [] ∧ rest.dropWhile isNumeralChar = rest := by
    cases rest with
    | nil => simp
    | cons c rest =>
      have hc : isNumeralChar c = false := by simpa using h
      simp [hc]
  rw [readNumeral, List.takeWhile_append_of_pos hchars, List.dropWhile_append_of_pos hchars, hspan.1, hspan.2,
    List.append_nil, numeralParse?_digits hd]
  exact if_pos (isCanonical_ofNat n)

theorem reads_nat (k : Nat) : Reads (.nat k) := by
  intro n rest hrest
  have hd := isDigits_iff.mp (isDigits_toDigits k)
  have hread := readNumeral_toDigits k hrest
  rw [nat, write, text_ofNat]
  cases hk : Nat.toDigits 10 k with
  | nil => exact absurd hk hd.1
  | cons d ds =>
    rw [hk] at hread hd
    rw [List.cons_append, readValue_of_isDigit (hd.2 d (List.mem_cons_self ..)), ← List.cons_append, hread]
    rfl

theorem readFields_write {fields : List (String × Json)} (hfields : ∀ f ∈ fields, Reads f.2) (key : String)
    {value : Json} (hvalue : Reads value) {n : Nat} (hn : fields.length < n) (rest : List Char) :
    readFields (n + 1) (quoted key ++ ':' :: (value.write ++ (writeFields fields ++ '\x7d' :: rest))) =
      some ((key, value) :: fields, rest) := by
  induction fields generalizing key value n with
  | nil =>
    obtain ⟨m, rfl⟩ := Nat.exists_eq_succ_of_ne_zero (Nat.ne_of_gt hn)
    have hv := hvalue m ('\x7d' :: rest) rfl
    rw [readFields, quoted]
    simp [skipSpace_cons, readChars_flatMap_escapeChar, isSpace, hv, writeFields]
  | cons f fields ih =>
    obtain ⟨m, rfl⟩ := Nat.exists_eq_succ_of_ne_zero (Nat.ne_zero_of_lt hn)
    obtain ⟨hf, hfields⟩ := List.forall_mem_cons.mp hfields
    have hv := hvalue m (',' :: (quoted f.1 ++ ':' :: (f.2.write ++ (writeFields fields ++ '\x7d' :: rest)))) rfl
    have hrest := ih hfields f.1 hf (n := m) (by simpa using hn)
    rw [readFields, quoted]
    simp [skipSpace_cons, readChars_flatMap_escapeChar, isSpace, writeFields, hv, hrest]

theorem readValue_object {fields : List (String × Json)} (hfields : ∀ f ∈ fields, Reads f.2) {n : Nat}
    (hn : fields.length < n) (rest : List Char) :
    readValue (n + 1) ((Json.object fields).write ++ rest) = some (.object fields, rest) := by
  cases fields with
  | nil => simp [write, readValue, skipSpace_cons, isSpace]
  | cons f fields =>
    obtain ⟨m, rfl⟩ := Nat.exists_eq_succ_of_ne_zero (Nat.ne_zero_of_lt hn)
    obtain ⟨hf, hfields⟩ := List.forall_mem_cons.mp hfields
    have hread := readFields_write hfields f.1 hf (n := m) (by simpa using hn) rest
    simp only [quoted, List.cons_append, List.append_assoc, List.nil_append] at hread
    simp [write, quoted, readValue, skipSpace_cons, isSpace, hread]

theorem length_le_length_writeFields (fields : List (String × Json)) : fields.length ≤ (writeFields fields).length := by
  induction fields with
  | nil => simp
  | cons f fields ih =>
    simp only [writeFields, List.length_cons, List.length_append]
    omega

theorem parse?_compact_object {fields : List (String × Json)} (hfields : ∀ f ∈ fields, Reads f.2) :
    parse? (Json.object fields).compact = some (.object fields) := by
  have hlength : fields.length < 2 * (Json.object fields).write.length := by
    cases fields with
    | nil => simp [write]
    | cons f fields =>
      have h := length_le_length_writeFields fields
      simp only [write, List.length_cons, List.length_append]
      omega
  have hread := readValue_object hfields hlength []
  rw [List.append_nil] at hread
  simp [parse?, compact, hread, skipSpace]

section Layout

/-- The flag says whether the text begins inside a string. -/
def unquoted : Bool → List Char → List Char
  | _, [] => []
  | false, '"' :: rest => unquoted true rest
  | false, c :: rest => c :: unquoted false rest
  | true, '\\' :: _ :: rest => unquoted true rest
  | true, '"' :: rest => unquoted false rest
  | true, _ :: rest => unquoted true rest

theorem unquoted_inside {c : Char} (hq : c ≠ '"') (hb : c ≠ '\\') (rest : List Char) :
    unquoted true (c :: rest) = unquoted true rest := by
  rw [unquoted]
  · simp [hb]
  · exact hq

theorem unquoted_outside {c : Char} (hq : c ≠ '"') (rest : List Char) :
    unquoted false (c :: rest) = c :: unquoted false rest := by
  rw [unquoted]
  exact hq

theorem hexDigit_ne {n : Nat} (h : n < 16) : hexDigit n ≠ '"' ∧ hexDigit n ≠ '\\' := by
  revert n
  decide

theorem unquoted_escapeChar (c : Char) (rest : List Char) :
    unquoted true (escapeChar c ++ rest) = unquoted true rest := by
  rcases escapeChar_cases c with ⟨x, -, -, he⟩ | ⟨hc, he⟩ | ⟨hq, hb, -, he⟩
  · rw [he]
    rfl
  · obtain ⟨hq₁, hb₁⟩ := hexDigit_ne (n := c.toNat / 16) (by omega)
    obtain ⟨hq₂, hb₂⟩ := hexDigit_ne (n := c.toNat % 16) (by omega)
    simp [he, unquoted, unquoted_inside, hq₁, hb₁, hq₂, hb₂]
  · rw [he]
    exact unquoted_inside hq hb rest

theorem unquoted_quoted (s : String) (rest : List Char) :
    unquoted false (quoted s ++ rest) = unquoted false rest := by
  have hchars (cs : List Char) : unquoted true (cs.flatMap escapeChar ++ '"' :: rest) = unquoted false rest := by
    induction cs with
    | nil => rfl
    | cons c cs ih => rw [List.flatMap_cons, List.append_assoc, unquoted_escapeChar, ih]
  simp [quoted, unquoted, hchars]

def Tight (cs : List Char) : Prop :=
  ∀ rest, ∃ shown, (∀ c ∈ shown, isSpace c = false) ∧ unquoted false (cs ++ rest) = shown ++ unquoted false rest

theorem tight_nil : Tight [] := by
  intro rest
  exact ⟨[], by simp, rfl⟩

theorem Tight.append {as bs : List Char} (ha : Tight as) (hb : Tight bs) : Tight (as ++ bs) := by
  intro rest
  obtain ⟨sa, hsa, ha⟩ := ha (bs ++ rest)
  obtain ⟨sb, hsb, hb⟩ := hb rest
  refine ⟨sa ++ sb, List.forall_mem_append.mpr ⟨hsa, hsb⟩, ?_⟩
  rw [List.append_assoc, ha, hb, List.append_assoc]

theorem Tight.cons {c : Char} {cs : List Char} (hq : c ≠ '"') (hs : isSpace c = false) (h : Tight cs) :
    Tight (c :: cs) := by
  intro rest
  obtain ⟨shown, hshown, h⟩ := h rest
  refine ⟨c :: shown, List.forall_mem_cons.mpr ⟨hs, hshown⟩, ?_⟩
  rw [List.cons_append, unquoted_outside hq, h, List.cons_append]

theorem tight_quoted (s : String) : Tight (quoted s) := by
  intro rest
  exact ⟨[], by simp, unquoted_quoted s rest⟩

theorem Tight.isSpace_eq_false {cs : List Char} (h : Tight cs) : ∀ c ∈ unquoted false cs, isSpace c = false := by
  obtain ⟨shown, hshown, h⟩ := h []
  rw [List.append_nil] at h
  rw [h]
  simpa [unquoted] using hshown

def Printable (cs : List Char) : Prop :=
  ∀ c ∈ cs, 0x20 ≤ c.toNat

theorem printable_escapeChar (c : Char) : Printable (escapeChar c) := by
  have hdigit : ∀ n < 16, 0x20 ≤ (hexDigit n).toNat := by decide
  rcases escapeChar_cases c with ⟨x, -, hx, he⟩ | ⟨hc, he⟩ | ⟨-, -, hc, he⟩
  · rw [he]
    simpa [Printable] using hx
  · have hhigh := hdigit (c.toNat / 16) (by omega)
    have hlow := hdigit (c.toNat % 16) (by omega)
    rw [he]
    simpa [Printable] using ⟨hhigh, hlow⟩
  · rw [he]
    simpa [Printable] using hc

theorem Printable.append {as bs : List Char} (ha : Printable as) (hb : Printable bs) : Printable (as ++ bs) :=
  List.forall_mem_append.mpr ⟨ha, hb⟩

theorem Printable.cons {c : Char} {cs : List Char} (hc : 0x20 ≤ c.toNat) (h : Printable cs) : Printable (c :: cs) :=
  List.forall_mem_cons.mpr ⟨hc, h⟩

theorem printable_quoted (s : String) : Printable (quoted s) := by
  have hchars : Printable (s.toList.flatMap escapeChar) := by
    intro c hc
    obtain ⟨d, -, hd⟩ := List.mem_flatMap.mp hc
    exact printable_escapeChar d c hd
  apply Printable.cons (by decide)
  apply hchars.append
  simp [Printable]

structure Tidy (cs : List Char) : Prop where
  tight : Tight cs
  printable : Printable cs

theorem tidy_nil : Tidy [] :=
  ⟨tight_nil, by simp [Printable]⟩

theorem Tidy.append {as bs : List Char} (ha : Tidy as) (hb : Tidy bs) : Tidy (as ++ bs) :=
  ⟨ha.tight.append hb.tight, ha.printable.append hb.printable⟩

theorem Tidy.cons {c : Char} {cs : List Char} (h : Tidy cs) (hq : c ≠ '"') (hs : isSpace c = false)
    (hc : 0x20 ≤ c.toNat) : Tidy (c :: cs) :=
  ⟨h.tight.cons hq hs, h.printable.cons hc⟩

theorem tidy_quoted (s : String) : Tidy (quoted s) :=
  ⟨tight_quoted s, printable_quoted s⟩

theorem tidy_digits {ds : List Char} (h : ∀ c ∈ ds, c.isDigit = true) : Tidy ds := by
  have hchars : "0123456789".toList.all (fun c => c != '"' && !isSpace c && 0x20 ≤ c.toNat) = true := by decide
  induction ds with
  | nil => exact tidy_nil
  | cons d ds ih =>
    obtain ⟨hd, hds⟩ := List.forall_mem_cons.mp h
    have hdigit : (d ≠ '"' ∧ isSpace d = false) ∧ 0x20 ≤ d.toNat := by
      simpa using List.all_eq_true.mp hchars d (isDigit_iff_mem.mp hd)
    exact (ih hds).cons hdigit.1.1 hdigit.1.2 hdigit.2

end Layout

structure Flat (v : Json) : Prop where
  reads : Reads v
  tidy : Tidy v.write

theorem flat_string (s : String) : Flat (.string s) := by
  refine ⟨reads_string s, ?_⟩
  rw [write]
  exact tidy_quoted s

theorem flat_nat (n : Nat) : Flat (.nat n) := by
  refine ⟨reads_nat n, ?_⟩
  rw [nat, write, text_ofNat]
  exact tidy_digits (isDigits_iff.mp (isDigits_toDigits n)).2

theorem tidy_writeFields {fields : List (String × Json)} (h : ∀ f ∈ fields, Flat f.2) : Tidy (writeFields fields) := by
  induction fields with
  | nil => exact tidy_nil
  | cons f fields ih =>
    obtain ⟨hf, hfields⟩ := List.forall_mem_cons.mp h
    rw [writeFields]
    apply Tidy.append _ (ih hfields)
    apply Tidy.append
    · exact (tidy_quoted f.1).cons (by decide) (by decide) (by decide)
    · exact hf.tidy.cons (by decide) (by decide) (by decide)

theorem tidy_object {fields : List (String × Json)} (h : ∀ f ∈ fields, Flat f.2) : Tidy (Json.object fields).write := by
  have hclose : Tidy ['\x7d'] := tidy_nil.cons (by decide) (by decide) (by decide)
  cases fields with
  | nil => exact hclose.cons (by decide) (by decide) (by decide)
  | cons f fields =>
    obtain ⟨hf, hfields⟩ := List.forall_mem_cons.mp h
    rw [write]
    apply Tidy.append _ hclose
    apply Tidy.append _ (tidy_writeFields hfields)
    apply Tidy.append
    · exact (tidy_quoted f.1).cons (by decide) (by decide) (by decide)
    · exact hf.tidy.cons (by decide) (by decide) (by decide)

def whole? : Json → Option Nat
  | .number n =>
    if n.negative || n.fraction.isSome || n.exponent.isSome || !isDigits n.whole then none
    else some (digitsValue n.whole)
  | _ => none

theorem whole?_nat (n : Nat) : whole? (.nat n) = some n := by
  simp [whole?, nat, Numeral.ofNat, isDigits_toDigits, digitsValue_toDigits]

end Sfz.Json

namespace Sfz

def Severity.ofName? : String → Option Severity
  | "error" => some .error
  | "warning" => some .warning
  | _ => none

theorem Severity.ofName?_name (s : Severity) : ofName? s.name = some s := by
  cases s <;> rfl

namespace Finding

structure Shown where
  path : String
  line : Nat
  column : Nat
  severity : Severity
  message : String
  opcode : Option String
  deriving DecidableEq

def shown (f : Finding) : Shown :=
  ⟨f.position.file.text, f.position.span.line, f.position.span.column, f.severity, f.message, f.opcode⟩

def Shown.ofJson? (j : Json) : Option Shown := do
  let path ← (j.get? "path").bind Data.text?
  let line ← (j.get? "line").bind Json.whole?
  let column ← (j.get? "column").bind Json.whole?
  let severity ← ((j.get? "severity").bind Data.text?).bind Severity.ofName?
  let message ← (j.get? "message").bind Data.text?
  let opcode ←
    match j.get? "opcode" with
    | some v => (Data.text? v).map some
    | none => some none
  return ⟨path, line, column, severity, message, opcode⟩

theorem exists_fields (f : Finding) : ∃ fields, f.toJson = .object fields ∧ (∀ x ∈ fields, Json.Flat x.2) ∧
    fields.map Prod.fst = ["path", "line", "column", "severity", "message"] ++ f.opcode.toList.map (fun _ => "opcode") ∧
    Shown.ofJson? (.object fields) = some f.shown := by
  refine ⟨_, rfl, ?_, ?_, ?_⟩
  · cases f.opcode <;> simp [Json.flat_string, Json.flat_nat]
  · cases f.opcode <;> simp
  · obtain ⟨problem, position, opcode⟩ := f
    cases opcode <;> simp [Shown.ofJson?, Json.get?, Data.text?, Json.whole?_nat, Severity.ofName?_name, shown]

theorem parse?_render_json (f : Finding) : Json.parse? (f.render .json) = some f.toJson := by
  obtain ⟨fields, hjson, hflat, -, -⟩ := f.exists_fields
  rw [render, hjson]
  exact Json.parse?_compact_object (fun x hx => (hflat x hx).reads)

/-- A finding is one line of JSON without blanks between its parts, from which everything shown can be read back: the
line has an opcode exactly if the finding has one, and findings that differ in what is shown have different lines. -/
theorem json_line_loses_nothing (f : Finding) :
    (∀ c ∈ (f.render .json).toList, 0x20 ≤ c.toNat) ∧
    (∀ c ∈ Json.unquoted false (f.render .json).toList, Json.isSpace c = false) ∧
    (∃ fields, Json.parse? (f.render .json) = some (.object fields) ∧
      Shown.ofJson? (.object fields) = some f.shown ∧
      fields.map Prod.fst =
        ["path", "line", "column", "severity", "message"] ++ f.opcode.toList.map (fun _ => "opcode") ∧
      ("opcode" ∉ fields.map Prod.fst ↔ f.opcode = none)) ∧
    ∀ g : Finding, f.shown ≠ g.shown → f.render .json ≠ g.render .json := by
  have hread (g : Finding) : (Json.parse? (g.render .json)).bind Shown.ofJson? = some g.shown := by
    obtain ⟨fields, hjson, -, -, hshown⟩ := g.exists_fields
    rw [parse?_render_json, hjson, Option.bind_some, hshown]
  obtain ⟨fields, hjson, hflat, hkeys, hshown⟩ := f.exists_fields
  have htext : (f.render .json).toList = (Json.object fields).write := by
    rw [render, hjson, Json.compact, String.toList_ofList]
  have htidy := Json.tidy_object hflat
  rw [htext]
  refine ⟨htidy.printable, htidy.tight.isSpace_eq_false, ⟨fields, ?_, hshown, hkeys, ?_⟩, ?_⟩
  · rw [parse?_render_json, hjson]
  · rw [hkeys]
    cases f.opcode <;> simp
  · intro g hne hsame
    apply hne
    have hg := hread g
    rw [← hsame, hread f] at hg
    exact Option.some.inj hg

def escaped : Finding :=
  ⟨.stated .warning "\"\\\n\x01é", ⟨⟨"a\tb.sfz"⟩, 3, 17⟩, some ""⟩

theorem json_line_loses_nothing_escaped :
    (∃ fields, Json.parse? (escaped.render .json) = some (.object fields) ∧
      Shown.ofJson? (.object fields) = some ⟨"a\tb.sfz", 3, 17, .warning, "\"\\\n\x01é", some ""⟩) ∧
    escaped.render .json ≠ Finding.render .json { escaped with opcode := none } := by
  obtain ⟨-, -, ⟨fields, hparse, hshown, -⟩, hne⟩ := json_line_loses_nothing escaped
  exact ⟨⟨fields, hparse, hshown⟩, hne _ (by decide)⟩

end Finding

end Sfz
