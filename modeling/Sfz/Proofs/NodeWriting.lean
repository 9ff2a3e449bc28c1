import Mathlib.Data.List.DropRight
import Sfz.Proofs.ParsedNodes

/-!
Writing nodes back. The nodes of a text, written one to a line, can be read again and come out as they
went in. Quotes around a value keep its blanks, and what may stand in a value cannot end it before the
closing quote; a path that holds a quote holds no blanks and is written bare.
-/

namespace Sfz

namespace Text

theorem trimEnd_concat (cs : List Char) (c : Char) :
    trimEnd (cs ++ [c]) = if isBlank c then trimEnd cs else cs ++ [c] := by
  induction cs with
  | nil => simp [trimEnd]
  | cons d cs ih =>
    rw [List.cons_append, trimEnd, ih]
    by_cases hc : isBlank c = true
    · rw [if_pos hc, if_pos hc, trimEnd]
    · rw [if_neg hc, if_neg hc]
      cases cs <;> rfl

theorem trimEnd_eq_rdropWhile (cs : List Char) : trimEnd cs = cs.rdropWhile isBlank := by
  induction cs using List.reverseRecOn with
  | nil => rfl
  | append_singleton cs c ih => rw [trimEnd_concat, List.rdropWhile_concat, ih]

theorem trim_isPrefix (cs : List Char) : trim cs <+: trimStart cs := by
  rw [trim, trimEnd_eq_rdropWhile]
  exact List.rdropWhile_prefix isBlank _

theorem trim_isInfix (cs : List Char) : trim cs <:+: cs :=
  (trim_isPrefix cs).isInfix.trans (List.dropWhile_suffix isBlank).isInfix

theorem trimStart_of_isPrefix {as bs : List Char} (h : as <+: bs) (hb : trimStart bs = bs) :
    trimStart as = as := by
  obtain ⟨cs, rfl⟩ := h
  cases as with
  | nil => rfl
  | cons a as =>
    have ha := List.dropWhile_eq_self_iff.mp hb (by simp)
    exact List.dropWhile_cons_of_neg ha

theorem trim_trim (cs : List Char) : trim (trim cs) = trim cs := by
  have hstart : trimStart (trimStart cs) = trimStart cs := List.dropWhile_idempotent isBlank cs
  rw [trim, trimStart_of_isPrefix (trim_isPrefix cs) hstart, trim, trimEnd_eq_rdropWhile, trimEnd_eq_rdropWhile,
    List.rdropWhile_idempotent]

theorem trim_blank {c : Char} (hc : isBlank c = true) (cs : List Char) : trim (c :: cs) = trim cs := by
  rw [trim, trimStart, List.dropWhile_cons_of_pos hc, ← trimStart, ← trim]

theorem trim_quoted (cs : List Char) : trim ('"' :: (cs ++ ['"'])) = '"' :: (cs ++ ['"']) := by
  have hstart : trimStart ('"' :: (cs ++ ['"'])) = '"' :: (cs ++ ['"']) := rfl
  rw [trim, hstart, ← List.cons_append, trimEnd_concat]
  rfl

theorem splitLines_of_not_mem {cs : List Char} (h : '\n' ∉ cs) : splitLines cs = [cs] := by
  induction cs with
  | nil => rfl
  | cons c cs ih =>
    obtain ⟨hc, hcs⟩ := List.ne_and_not_mem_of_not_mem_cons h
    rw [splitLines, if_neg (Ne.symm hc), ih hcs]

theorem isBlank_of_isNameChar {c : Char} (h : isNameChar c = true) : isBlank c = false := by
  delta isNameChar isWordChar Char.isAlphanum Char.isAlpha Char.isUpper Char.isLower Char.isDigit at h
  simp only [Bool.or_eq_true, Bool.and_eq_true, decide_eq_true_eq, beq_iff_eq, ge_iff_le,
    UInt32.le_iff_toNat_le] at h
  rcases h with (h | rfl) | rfl
  · have hbound : 48 ≤ c.toNat ∧ c.toNat ≤ 122 := by
      simp only [Char.reduceVal, UInt32.reduceToNat, Char.toNat_val] at h
      omega
    simp only [isBlank, Bool.or_eq_false_iff, Bool.and_eq_false_imp, decide_eq_true_eq, decide_eq_false_iff_not,
      beq_eq_false_iff_ne]
    omega
  · decide
  · decide

theorem isNameChar_ne {c : Char} (h : isNameChar c = true) : c ≠ '/' ∧ c ≠ '\n' := by
  constructor
  · rintro rfl
    exact absurd h (by decide)
  · rintro rfl
    exact absurd h (by decide)

end Text

namespace Comment

def OneLine (cs : List Char) : Prop :=
  Plain cs ∧ '\n' ∉ cs

namespace OneLine

theorem of_infix {as cs : List Char} (h : OneLine cs) (hi : as <:+: cs) : OneLine as :=
  ⟨Plain.of_infix h.1 hi, fun hn => h.2 (hi.subset hn)⟩

theorem prepend {cs : List Char} (h : OneLine cs) (as : List Char) (ha : ∀ c ∈ as, c ≠ '/' ∧ c ≠ '\n') :
    OneLine (as ++ cs) := by
  induction as with
  | nil => exact h
  | cons a as ih =>
    obtain ⟨hslash, hnewline⟩ := ha a (List.mem_cons_self ..)
    obtain ⟨hplain, hsingle⟩ := ih (fun c hc => ha c (List.mem_cons_of_mem a hc))
    exact ⟨hplain.cons hslash, List.not_mem_cons_of_ne_of_not_mem (Ne.symm hnewline) hsingle⟩

theorem quote {cs : List Char} (h : OneLine cs) : OneLine (cs ++ ['"']) := by
  refine ⟨?_, by simpa using h.2⟩
  have hp := h.1
  induction cs with
  | nil => exact ⟨by decide, by decide⟩
  | cons c cs ih =>
    obtain ⟨hhead, htail⟩ := plain_cons.mp hp
    have hrest := ih (h.of_infix (List.suffix_cons c cs).isInfix) htail
    refine plain_cons.mpr ⟨fun hc => ?_, hrest⟩
    cases cs with
    | nil => exact ⟨by decide, by decide⟩
    | cons d ds => exact hhead hc

end OneLine

end Comment

namespace Parser

open Sfz.Text Sfz.Comment

inductive EndsAt : List Char → Prop
  | tag {name : List Char} (rest : List Char) (hname : ∀ c ∈ name, isTagChar c = true) :
      EndsAt ('<' :: (name ++ '>' :: rest))
  | setting {blanks name : List Char} (rest : List Char) (hne : blanks ≠ [])
      (hblanks : ∀ c ∈ blanks, isBlank c = true) (hname : name ≠ [] ∧ ∀ c ∈ name, isNameChar c = true) :
      EndsAt (blanks ++ (name ++ '=' :: rest))

theorem trimStart_name {blanks name : List Char} (rest : List Char) (hblanks : ∀ c ∈ blanks, isBlank c = true)
    (hname : name ≠ [] ∧ ∀ c ∈ name, isNameChar c = true) :
    trimStart (blanks ++ (name ++ rest)) = name ++ rest := by
  obtain ⟨hne, hname⟩ := hname
  cases name with
  | nil => exact absurd rfl hne
  | cons c name =>
    have hc := isBlank_of_isNameChar (hname c (List.mem_cons_self ..))
    exact dropWhile_run hblanks hc

theorem endsValue_iff {c : Char} {cs : List Char} : endsValue (c :: cs) = true ↔ EndsAt (c :: cs) := by
  simp only [endsValue, Bool.or_eq_true, Bool.and_eq_true, Option.isSome_iff_exists, Prod.exists,
    tag?_eq_some, setting?_eq_some]
  constructor
  · rintro (⟨name, rest, hcs, hname⟩ | ⟨hc, name, rest, hcs, hname⟩)
    · rw [hcs]
      exact .tag rest hname
    · have hblanks : ∀ d ∈ c :: cs.takeWhile isBlank, isBlank d = true := by
        intro d hd
        rcases List.mem_cons.mp hd with rfl | hd
        · exact hc
        · exact List.mem_takeWhile_imp hd
      have hsplit : c :: cs = (c :: cs.takeWhile isBlank) ++ (name ++ '=' :: rest) := by
        rw [← hcs, trimStart, List.cons_append, List.takeWhile_append_dropWhile]
      rw [hsplit]
      exact .setting rest (by simp) hblanks hname
  · generalize hx : c :: cs = x
    intro h
    cases h with
    | tag rest hname => exact .inl ⟨_, rest, rfl, hname⟩
    | @setting blanks name rest hne hblanks hname =>
      right
      cases blanks with
      | nil => exact absurd rfl hne
      | cons b blanks =>
        obtain ⟨rfl, rfl⟩ : c = b ∧ cs = blanks ++ (name ++ '=' :: rest) := by simpa using hx
        refine ⟨hblanks c (List.mem_cons_self ..), name, rest, ?_, hname⟩
        exact trimStart_name _ (fun d hd => hblanks d (List.mem_cons_of_mem c hd)) hname

theorem EndsAt.ne_nil {cs : List Char} (h : EndsAt cs) : cs ≠ [] := by
  cases h with
  | tag => exact List.cons_ne_nil _ _
  | setting rest hne hblanks hname => exact List.append_ne_nil_of_left_ne_nil hne _

theorem EndsAt.append {cs : List Char} (h : EndsAt cs) (more : List Char) : EndsAt (cs ++ more) := by
  cases h with
  | tag rest hname =>
    rw [List.cons_append, List.append_assoc, List.cons_append]
    exact .tag _ hname
  | setting rest hne hblanks hname =>
    rw [List.append_assoc, List.append_assoc, List.cons_append]
    exact .setting _ hne hblanks hname

theorem EndsAt.of_quote {cs : List Char} (h : EndsAt (cs ++ ['"'])) : EndsAt cs := by
  generalize hx : cs ++ ['"'] = x at h
  cases h with
  | @tag name rest hname =>
    rcases List.eq_nil_or_concat rest with rfl | ⟨rest, d, rfl⟩
    · rw [← List.cons_append] at hx
      exact absurd (List.append_inj_right' hx rfl) (by decide)
    · have hcut : cs = '<' :: (name ++ '>' :: rest) := by
        have hx : cs ++ ['"'] = '<' :: (name ++ '>' :: rest) ++ [d] := by simpa using hx
        exact List.append_inj_left' hx rfl
      exact hcut ▸ .tag rest hname
  | @setting blanks name rest hne hblanks hname =>
    rcases List.eq_nil_or_concat rest with rfl | ⟨rest, d, rfl⟩
    · rw [← List.append_assoc] at hx
      exact absurd (List.append_inj_right' hx rfl) (by decide)
    · have hcut : cs = blanks ++ (name ++ '=' :: rest) := by
        have hx : cs ++ ['"'] = blanks ++ (name ++ '=' :: rest) ++ [d] := by simpa using hx
        exact List.append_inj_left' hx rfl
      exact hcut ▸ .setting rest hne hblanks hname

def Inert (cs : List Char) : Prop :=
  ∀ bs, bs <:+ cs → ¬EndsAt bs

theorem Inert.of_infix {as cs : List Char} (h : Inert cs) (hi : as <:+: cs) : Inert as := by
  obtain ⟨front, back, rfl⟩ := hi
  intro bs hbs hend
  obtain ⟨x, rfl⟩ := hbs
  exact h (bs ++ back) ⟨front ++ x, by simp⟩ (hend.append back)

theorem inert_nil : Inert [] := by
  intro bs hbs hend
  exact hend.ne_nil (List.suffix_nil.mp hbs)

theorem inert_rawValue (cs : List Char) : Inert (rawValue cs).1 := by
  induction cs with
  | nil =>
    exact inert_nil
  | cons c cs ih =>
    rw [rawValue]
    split
    next => exact inert_nil
    next hends =>
      intro bs hbs hend
      rcases List.suffix_cons_iff.mp hbs with rfl | hbs
      · have hwhole := hend.append (rawValue cs).2
        rw [List.cons_append, rawValue_append] at hwhole
        exact hends (endsValue_iff.mpr hwhole)
      · exact ih bs hbs hend

theorem Inert.quoted {cs : List Char} (h : Inert cs) : Inert ('"' :: (cs ++ ['"'])) := by
  have hquote : ∀ bs, ¬EndsAt ('"' :: bs) := by
    intro bs hend
    have he := endsValue_iff.mpr hend
    simp [endsValue, tag?, isBlank] at he
  intro bs hbs hend
  rcases List.suffix_cons_iff.mp hbs with rfl | hbs
  · exact hquote _ hend
  · rcases List.suffix_concat_iff.mp hbs with rfl | ⟨as, rfl, has⟩
    · exact hend.ne_nil rfl
    · exact h as has hend.of_quote

theorem Inert.rawValue_eq {cs : List Char} (h : Inert cs) : rawValue cs = (cs, []) := by
  induction cs with
  | nil => rfl
  | cons c cs ih =>
    have hends : ¬endsValue (c :: cs) = true := fun he => h _ List.suffix_rfl (endsValue_iff.mp he)
    rw [rawValue, if_neg hends, ih (h.of_infix (List.suffix_cons c cs).isInfix)]

theorem unquote_isInfix (cs : List Char) : unquote cs <:+: cs := by
  unfold unquote
  split
  next d ds =>
    split
    · exact (List.dropLast_prefix _).isInfix.trans (List.suffix_cons _ _).isInfix
    · exact List.infix_rfl
  next => exact List.infix_rfl

theorem unquote_quoted (cs : List Char) : unquote ('"' :: (cs ++ ['"'])) = cs := by
  cases cs with
  | nil => rfl
  | cons c cs =>
    have hlast : (c :: (cs ++ ['"'])).getLast? = some '"' := by rw [← List.cons_append, List.getLast?_concat]
    rw [List.cons_append, unquote, if_pos hlast, ← List.cons_append, List.dropLast_concat]

theorem parseLine_scan (k : Nat) {c : Char} (hb : isBlank c = false) (hc : c ≠ '#') (cs : List Char) :
    parseLine k (c :: cs) = scan ⟨k, 1⟩ (c :: cs) := by
  have hbody : trimStart (c :: cs) = c :: cs := List.dropWhile_cons_of_neg (by simp [hb])
  have hd : after? "#define".toList (c :: cs) = none := if_neg (Ne.symm hc)
  have hi : after? "#include".toList (c :: cs) = none := if_neg (Ne.symm hc)
  simp only [parseLine, hbody, hd, hi]

theorem parseLine_define (k : Nat) {rest : List Char} {name value : String}
    (h : definition? rest = some (name, value)) :
    parseLine k ("#define".toList ++ rest) = .ok [.define name value ⟨k, 1⟩] := by
  have hbody : trimStart ("#define".toList ++ rest) = "#define".toList ++ rest := rfl
  simp only [parseLine, hbody, after?_eq_some.mpr rfl, h, Nat.sub_self, Nat.zero_add]

theorem parseLine_inclusion (k : Nat) {rest : List Char} {path : String} (h : inclusion? rest = some path) :
    parseLine k ("#include".toList ++ rest) = .ok [.inclusion path ⟨k, 1⟩] := by
  have hbody : trimStart ("#include".toList ++ rest) = "#include".toList ++ rest := rfl
  have hd : after? "#define".toList ("#include".toList ++ rest) = none := rfl
  simp only [parseLine, hbody, hd, after?_eq_some.mpr rfl, h, Nat.sub_self, Nat.zero_add]

theorem definition?_eq_some {cs : List Char} {name value : String} (h : definition? cs = some (name, value)) :
    (name.toList ≠ [] ∧ ∀ c ∈ name.toList, isWordChar c = true) ∧
      value.toList <:+: cs ∧ trim value.toList = value.toList := by
  cases cs with
  | nil => simp [definition?] at h
  | cons c cs =>
    rw [definition?] at h
    split at h
    next body hbody =>
      dsimp only at h
      split at h
      next hcond =>
        obtain ⟨rfl, rfl⟩ : String.ofList (body.takeWhile isWordChar) = name ∧
            String.ofList (trim (body.dropWhile isWordChar)) = value := by simpa using h
        simp only [Bool.and_eq_true, Bool.not_eq_true', List.isEmpty_eq_false_iff] at hcond
        simp only [String.toList_ofList]
        have hsuffix : body <:+: c :: cs := by
          have hdollar : '$' :: body <:+ cs := hbody ▸ List.dropWhile_suffix isBlank
          exact ((List.suffix_cons _ _).trans (hdollar.trans (List.suffix_cons _ _))).isInfix
        refine ⟨⟨hcond.1.2, fun d => List.mem_takeWhile_imp⟩, ?_, trim_trim _⟩
        exact ((trim_isInfix _).trans (List.dropWhile_suffix isWordChar).isInfix).trans hsuffix
      next => simp at h
    next => simp at h

theorem definition?_written {name value : List Char} (hname : name ≠ [] ∧ ∀ c ∈ name, isWordChar c = true)
    (hvalue : trim value = value) :
    definition? (' ' :: '$' :: (name ++ ' ' :: value)) = some (String.ofList name, String.ofList value) := by
  have hstart : trimStart ('$' :: (name ++ ' ' :: value)) = '$' :: (name ++ ' ' :: value) := rfl
  have htake : (name ++ ' ' :: value).takeWhile isWordChar = name := takeWhile_run hname.2 (by decide)
  have hdrop : (name ++ ' ' :: value).dropWhile isWordChar = ' ' :: value := dropWhile_run hname.2 (by decide)
  have hblank : isBlank ' ' = true := by decide
  simp [definition?, hstart, htake, hdrop, hblank, hname.1, trim_blank hblank, hvalue]

theorem inclusion?_quoted {path : List Char} (h : '"' ∉ path) :
    inclusion? (' ' :: '"' :: (path ++ ['"'])) = some (String.ofList path) := by
  have hblank : isBlank ' ' = true := by decide
  have hlast : (path ++ ['"']).getLast? = some '"' := List.getLast?_concat
  have hinit : (path ++ ['"']).dropLast = path := List.dropLast_concat
  rw [inclusion?, trim_quoted]
  cases hp : path ++ ['"'] with
  | nil => simp at hp
  | cons d ds =>
    rw [hp] at hlast hinit
    simp [hblank, hlast, hinit, h]

theorem inclusion?_eq_some {cs : List Char} {path : String} (h : inclusion? cs = some path) :
    path.toList <:+: cs ∧ ('"' ∈ path.toList → inclusion? (' ' :: path.toList) = some path) := by
  cases cs with
  | nil => simp [inclusion?] at h
  | cons c cs =>
    by_cases hc : isBlank c = true
    · have hsame : inclusion? (' ' :: trim cs) = inclusion? (c :: cs) := by
        have hblank : isBlank ' ' = true := by decide
        simp only [inclusion?, hc, hblank, trim_trim]
      have hbody : trim cs <:+: c :: cs := (trim_isInfix cs).trans (List.suffix_cons c cs).isInfix
      -- the path is the body, or what stands between its quotes
      have hcases : path = String.ofList (trim cs) ∨ path.toList <:+: trim cs ∧ '"' ∉ path.toList := by
        rw [inclusion?, if_neg (by simp [hc])] at h
        dsimp only at h
        split at h
        next d ds hq =>
          split at h
          next hcond =>
            obtain rfl := Option.some.inj h
            rw [String.toList_ofList, hq]
            exact .inr ⟨(List.dropLast_prefix _).isInfix.trans (List.suffix_cons _ _).isInfix, hcond.2⟩
          next =>
            split at h
            · simp at h
            · exact .inl (Option.some.inj h).symm
        next =>
          split at h
          · simp at h
          · exact .inl (Option.some.inj h).symm
      rcases hcases with rfl | ⟨hi, hq⟩
      · rw [String.toList_ofList]
        exact ⟨hbody, fun _ => hsame.trans h⟩
      · exact ⟨hi.trans hbody, fun hq' => absurd hq' hq⟩
    · simp [inclusion?, hc] at h

end Parser

namespace Node

open Sfz.Text Sfz.Comment Sfz.Parser

def line : Node → String
  | .header kind _ => "<" ++ kind.name ++ ">"
  | .opcode name value _ => name ++ "=\"" ++ value ++ "\""
  | .define name value _ => "#define $" ++ name ++ " " ++ value
  | .inclusion path _ =>
    if '"' ∈ path.toList then "#include " ++ path else "#include \"" ++ path ++ "\""

def write : List Node → String
  | [] => ""
  | n :: ns => n.line ++ "\n" ++ write ns

def moveTo (s : Span) : Node → Node
  | .header kind _ => .header kind s
  | .opcode name value _ => .opcode name value s
  | .define name value _ => .define name value s
  | .inclusion path _ => .inclusion path s

structure Settled (n : Node) : Prop where
  reads : ∀ k, parseLine k n.line.toList = .ok [n.moveTo ⟨k, 1⟩]
  oneLine : OneLine n.line.toList

theorem settled_header (kind : HeaderKind) (s : Span) : (Node.header kind s).Settled := by
  have hline : (Node.header kind s).line.toList = '<' :: (kind.name.toList ++ ['>']) := by
    simp [line]
  have htag : tag? ('<' :: (kind.name.toList ++ ['>'])) = some (kind.name.toList, []) :=
    tag?_eq_some.mpr ⟨rfl, List.all_eq_true.mp (by cases kind <;> decide)⟩
  constructor
  · intro k
    rw [hline, parseLine_scan k (by decide) (by decide), scan_header _ (by decide) htag
      (by rw [String.ofList_toList]; exact HeaderKind.ofName?_name kind), scan_nil]
    rfl
  · rw [hline, ← List.append_nil ('<' :: _)]
    apply OneLine.prepend ⟨plain_nil, List.not_mem_nil⟩
    cases kind <;> simp [HeaderKind.name]

theorem settled_opcode {name value : List Char} (s : Span)
    (hname : name ≠ [] ∧ ∀ c ∈ name, isNameChar c = true) (hinert : Inert value) (hvalue : OneLine value) :
    (Node.opcode (String.ofList name) (String.ofList value) s).Settled := by
  have hline : (Node.opcode (String.ofList name) (String.ofList value) s).line.toList =
      name ++ '=' :: '"' :: (value ++ ['"']) := by
    simp [line]
  obtain ⟨c, cs, rfl⟩ := List.exists_cons_of_ne_nil hname.1
  have hc := hname.2 c (List.mem_cons_self ..)
  have hblank := isBlank_of_isNameChar hc
  have hsetting : setting? (c :: (cs ++ '=' :: '"' :: (value ++ ['"']))) =
      some (c :: cs, '"' :: (value ++ ['"'])) :=
    setting?_eq_some.mpr ⟨rfl, hname⟩
  have htag : tag? (c :: (cs ++ '=' :: '"' :: (value ++ ['"']))) = none := by
    have hne : c ≠ '<' := by
      rintro rfl
      exact absurd hc (by decide)
    simp [tag?, hne]
  constructor
  · intro k
    have hsharp : c ≠ '#' := by
      rintro rfl
      exact absurd hc (by decide)
    rw [hline, List.cons_append, parseLine_scan k hblank hsharp, scan_opcode _ (by simp [hblank]) htag hsetting,
      hinert.quoted.rawValue_eq, scan_nil, trim_quoted, unquote_quoted]
    rfl
  · rw [hline]
    have hquoted : OneLine ('=' :: '"' :: (value ++ ['"'])) := hvalue.quote.prepend ['=', '"'] (by simp)
    apply hquoted.prepend
    intro d hd
    exact isNameChar_ne (hname.2 d hd)

theorem settled_define {name value : String} (s : Span)
    (hname : name.toList ≠ [] ∧ ∀ c ∈ name.toList, isWordChar c = true)
    (htrim : trim value.toList = value.toList) (hvalue : OneLine value.toList) :
    (Node.define name value s).Settled := by
  have hline : (Node.define name value s).line.toList =
      "#define".toList ++ (' ' :: '$' :: (name.toList ++ ' ' :: value.toList)) := by
    simp [line]
  have hd := definition?_written hname htrim
  rw [String.ofList_toList, String.ofList_toList] at hd
  constructor
  · intro k
    rw [hline, parseLine_define k hd]
    rfl
  · rw [hline]
    have hend : OneLine (name.toList ++ ' ' :: value.toList) := by
      apply (hvalue.prepend [' '] (by simp)).prepend
      intro c hc
      exact isNameChar_ne (by simp [isNameChar, hname.2 c hc])
    exact (hend.prepend [' ', '$'] (by simp)).prepend "#define".toList (by simp)

theorem settled_inclusion {path : String} (s : Span) (hpath : OneLine path.toList)
    (hbare : '"' ∈ path.toList → inclusion? (' ' :: path.toList) = some path) :
    (Node.inclusion path s).Settled := by
  by_cases hq : '"' ∈ path.toList
  · have hline : (Node.inclusion path s).line.toList = "#include".toList ++ (' ' :: path.toList) := by
      simp [line, hq]
    constructor
    · intro k
      rw [hline, parseLine_inclusion k (hbare hq)]
      rfl
    · rw [hline]
      exact (hpath.prepend [' '] (by simp)).prepend "#include".toList (by simp)
  · have hline : (Node.inclusion path s).line.toList =
        "#include".toList ++ (' ' :: '"' :: (path.toList ++ ['"'])) := by
      simp [line, hq]
    have hi := inclusion?_quoted hq
    rw [String.ofList_toList] at hi
    constructor
    · intro k
      rw [hline, parseLine_inclusion k hi]
      rfl
    · rw [hline]
      exact (hpath.quote.prepend [' ', '"'] (by simp)).prepend "#include".toList (by simp)

theorem settled_of_read {s : Span} {cs : List Char} {n : Node} (h : Read s cs n) (hcs : OneLine cs) :
    n.Settled := by
  cases h with
  | @header name rest kind ht hk => exact settled_header kind s
  | @opcode name rest ho =>
    obtain ⟨rfl, hname⟩ := setting?_eq_some.mp ho
    have hvalue : unquote (trim (rawValue rest).1) <:+: (rawValue rest).1 :=
      (unquote_isInfix _).trans (trim_isInfix _)
    have hrest : (rawValue rest).1 <:+: name ++ '=' :: rest :=
      ⟨name ++ ['='], (rawValue rest).2, by simp [rawValue_append]⟩
    exact settled_opcode s hname (Inert.of_infix (inert_rawValue rest) hvalue) (hcs.of_infix (hvalue.trans hrest))
  | @define rest name value ha hd =>
    obtain ⟨hname, hvalue, htrim⟩ := definition?_eq_some hd
    have hrest : rest <:+: cs := (after?_eq_some.mp ha) ▸ (List.suffix_append _ _).isInfix
    exact settled_define s hname htrim (hcs.of_infix (hvalue.trans hrest))
  | @inclusion rest path ha hi =>
    obtain ⟨hpath, hbare⟩ := inclusion?_eq_some hi
    have hrest : rest <:+: cs := (after?_eq_some.mp ha) ▸ (List.suffix_append _ _).isInfix
    exact settled_inclusion s (hcs.of_infix (hpath.trans hrest)) hbare

theorem settled_of_parse {text : String} {nodes : List Node} (h : parse text = .ok nodes) {n : Node}
    (hn : n ∈ nodes) : n.Settled := by
  obtain ⟨code, i, l, m, hcode, hl, hr⟩ := exists_read_of_parse h hn
  have hmem : l ∈ splitLines code := List.mem_of_getElem? hl
  have hline : OneLine l :=
    ⟨Plain.of_infix (blanked_of_blankFrom hcode).plain (infix_of_mem_splitLines hmem), not_mem_of_mem_splitLines hmem⟩
  exact settled_of_read hr (hline.of_infix (List.drop_suffix m l).isInfix)

theorem toList_write_cons (n : Node) (ns : List Node) :
    (write (n :: ns)).toList = n.line.toList ++ '\n' :: (write ns).toList := by
  simp [write]

theorem code?_write {nodes : List Node} (h : ∀ n ∈ nodes, n.Settled) :
    code? (write nodes).toList = some (write nodes).toList := by
  induction nodes with
  | nil => rfl
  | cons n ns ih =>
    have hn := (h n (List.mem_cons_self ..)).oneLine.1.code?
    rw [toList_write_cons, code?_newline hn, ih (fun m hm => h m (List.mem_cons_of_mem n hm))]
    rfl

theorem parseLines_write {nodes : List Node} (h : ∀ n ∈ nodes, n.Settled) (k : Nat) :
    parseLines k (splitLines (write nodes).toList) =
      .ok (nodes.mapIdx (fun i n => n.moveTo ⟨k + i, 1⟩)) := by
  induction nodes generalizing k with
  | nil =>
    have hline : parseLine k [] = .ok [] := scan_nil _
    change parseLines k [[]] = .ok []
    rw [parseLines, hline]
    rfl
  | cons n ns ih =>
    have hn := h n (List.mem_cons_self ..)
    rw [toList_write_cons, splitLines_append, splitLines_of_not_mem hn.oneLine.2, List.singleton_append,
      parseLines, hn.reads, ih (fun m hm => h m (List.mem_cons_of_mem n hm)), List.mapIdx_cons]
    simp only [Nat.add_assoc, Nat.add_comm 1]
    rfl

theorem parse_write {text : String} {nodes : List Node} (h : parse text = .ok nodes) :
    parse (write nodes) = .ok (nodes.mapIdx (fun i n => n.moveTo ⟨i + 1, 1⟩)) := by
  have hsettled : ∀ n ∈ nodes, n.Settled := fun n => settled_of_parse h
  refine parse_eq_ok.mpr ⟨_, toOption_eq_some.mp (code?_write hsettled), ?_⟩
  simpa only [Nat.add_comm 1] using parseLines_write hsettled 1

def kit : List Node :=
  [.header .region ⟨1, 1⟩, .opcode "name" " a<b=c " ⟨1, 9⟩, .opcode "key" "1/2" ⟨1, 24⟩,
    .define "empty" "" ⟨2, 3⟩, .inclusion "in\"ner.sfz" ⟨3, 1⟩]

theorem parse_write_kit :
    parse "<region>name=\" a<b=c \" key=1/2 // low\n  #define $empty\n#include in\"ner.sfz\r\n" = .ok kit ∧
    parse "<region>\nname=\" a<b=c \"\nkey=\"1/2\"\n#define $empty \n#include in\"ner.sfz\n" =
      .ok [.header .region ⟨1, 1⟩, .opcode "name" " a<b=c " ⟨2, 1⟩, .opcode "key" "1/2" ⟨3, 1⟩,
        .define "empty" "" ⟨4, 1⟩, .inclusion "in\"ner.sfz" ⟨5, 1⟩] := by
  have h : parse "<region>name=\" a<b=c \" key=1/2 // low\n  #define $empty\n#include in\"ner.sfz\r\n" =
      .ok kit := by
    decide +kernel
  have hwritten : write kit =
      "<region>\nname=\" a<b=c \"\nkey=\"1/2\"\n#define $empty \n#include in\"ner.sfz\n" := by
    decide +kernel
  exact ⟨h, hwritten ▸ parse_write h⟩

end Node

end Sfz
