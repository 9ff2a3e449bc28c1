import Mathlib.Data.List.Infix
import Sfz.Proofs.LineReading

/-!
Reading a text that is put together from parts. What a text says is what its parts say, one after the
other, if the parts meet at line ends and no block comment is left open.
-/

namespace Sfz

namespace Comment

def Mode.unplaced : Mode → Mode
  | .block _ => .block .start
  | m => m

theorem Mode.eq_code {m : Mode} (h : Mode.code.unplaced = m.unplaced) : m = .code := by
  revert h
  cases m <;> simp [unplaced]

theorem Mode.eq_line {m : Mode} (h : Mode.line.unplaced = m.unplaced) : m = .line := by
  revert h
  cases m <;> simp [unplaced]

theorem Mode.exists_block {m : Mode} {o : Span} (h : (Mode.block o).unplaced = m.unplaced) :
    ∃ o', m = .block o' := by
  revert h
  cases m <;> simp [unplaced]

def Clear (cs : List Char) : Prop :=
  cs.head? ≠ some '/' ∧ cs.head? ≠ some '*'

theorem append_ne_cons {cs bs : List Char} {d : Char} (hb : bs.head? ≠ some d)
    (h : ∀ ds, cs ≠ d :: ds) (ds : List Char) : cs ++ bs ≠ d :: ds := by
  intro he
  cases cs with
  | nil =>
    rw [List.nil_append] at he
    exact hb (by rw [he]; rfl)
  | cons e es =>
    obtain ⟨rfl, -⟩ : e = d ∧ es ++ bs = ds := by simpa using he
    exact h es rfl

def Passes (m : Mode) (s : Span) (cs code : List Char) : Prop :=
  ∃ e, (∀ o, e ≠ .block o) ∧ ∀ bs, Clear bs →
    ∃ s', blankFrom m s (cs ++ bs) = (blankFrom e s' bs).map (code ++ ·)

theorem Passes.cons {m n : Mode} {s s' : Span} {cs code : List Char} (front out : List Char)
    (hstep : ∀ bs, Clear bs →
      blankFrom m s (front ++ cs ++ bs) = (blankFrom n s' (cs ++ bs)).map (out ++ ·))
    (h : Passes n s' cs code) : Passes m s (front ++ cs) (out ++ code) := by
  obtain ⟨e, he, hbs⟩ := h
  refine ⟨e, he, fun bs hb => ?_⟩
  obtain ⟨s'', h'⟩ := hbs bs hb
  refine ⟨s'', ?_⟩
  rw [hstep bs hb, h']
  cases blankFrom e s'' bs with
  | error o => rfl
  | ok x => simp [Except.map]

theorem passes_of_blankFrom {m m' : Mode} {s : Span} {cs code : List Char} (s' : Span)
    (hm : m.unplaced = m'.unplaced) (h : blankFrom m s cs = .ok code) : Passes m' s' cs code := by
  fun_induction blankFrom m s cs generalizing m' s' code with
  | case1 => simp at h
  | case2 m s hb =>
    obtain rfl : m' = m := by
      revert hm hb
      cases m' <;> cases m <;> simp [Mode.unplaced]
    obtain rfl : code = [] := by simpa using h.symm
    refine ⟨m', hb, fun bs _ => ⟨s', ?_⟩⟩
    rw [List.nil_append]
    cases blankFrom m' s' bs <;> rfl
  | case3 s cs ih =>
    obtain rfl := Mode.eq_code hm
    simp only [bind_eq_ok, pure_eq_ok] at h
    obtain ⟨x, hx, rfl⟩ := h
    refine Passes.cons ['/', '/'] [' ', ' '] (fun bs _ => ?_) (ih (s'.right 2) rfl hx)
    simp only [List.cons_append, List.nil_append, blankFrom]
    rfl
  | case4 s cs ih =>
    obtain rfl := Mode.eq_code hm
    simp only [bind_eq_ok, pure_eq_ok] at h
    obtain ⟨x, hx, rfl⟩ := h
    have hp : Passes (.block s') (s'.right 2) cs x := ih (s'.right 2) rfl hx
    refine Passes.cons ['/', '*'] [' ', ' '] (fun bs _ => ?_) hp
    simp only [List.cons_append, List.nil_append, blankFrom]
    rfl
  | case5 s c cs h1 h2 ih =>
    obtain rfl := Mode.eq_code hm
    simp only [bind_eq_ok, pure_eq_ok] at h
    obtain ⟨x, hx, rfl⟩ := h
    refine Passes.cons [c] [c] (fun bs hb => ?_) (ih (s'.next c) rfl hx)
    simp only [List.cons_append, List.nil_append]
    rw [blankFrom]
    · rfl
    · intro ds hc hd
      exact append_ne_cons hb.1 (fun ds => h1 ds hc) ds hd
    · intro ds hc hd
      exact append_ne_cons hb.2 (fun ds => h2 ds hc) ds hd
  | case6 s c cs ih =>
    obtain rfl := Mode.eq_line hm
    simp only [bind_eq_ok, pure_eq_ok] at h
    obtain ⟨x, hx, rfl⟩ := h
    refine Passes.cons [c] [blank c] (fun bs _ => ?_) (ih (s'.next c) rfl hx)
    simp only [List.cons_append, List.nil_append, blankFrom]
    rfl
  | case7 o s cs ih =>
    obtain ⟨o', rfl⟩ := Mode.exists_block hm
    simp only [bind_eq_ok, pure_eq_ok] at h
    obtain ⟨x, hx, rfl⟩ := h
    refine Passes.cons ['*', '/'] [' ', ' '] (fun bs _ => ?_) (ih (s'.right 2) rfl hx)
    simp only [List.cons_append, List.nil_append, blankFrom]
    rfl
  | case8 o s c cs h1 ih =>
    obtain ⟨o', rfl⟩ := Mode.exists_block hm
    simp only [bind_eq_ok, pure_eq_ok] at h
    obtain ⟨x, hx, rfl⟩ := h
    have hp : Passes (.block o') (s'.next c) cs x := ih (s'.next c) rfl hx
    refine Passes.cons [c] [blank c] (fun bs hb => ?_) hp
    simp only [List.cons_append, List.nil_append]
    rw [blankFrom]
    · rfl
    · intro ds hc hd
      exact append_ne_cons hb.1 (fun ds => h1 ds hc) ds hd

def code? (cs : List Char) : Option (List Char) :=
  (blankFrom .code .start cs).toOption

theorem toOption_eq_some {r : Except Span (List Char)} {code : List Char} :
    r.toOption = some code ↔ r = .ok code := by
  cases r with
  | error o => exact ⟨nofun, nofun⟩
  | ok x => simp [Except.toOption]

theorem blankFrom_place {m : Mode} {s s' : Span} {cs code : List Char}
    (h : blankFrom m s cs = .ok code) : blankFrom m s' cs = .ok code := by
  obtain ⟨e, he, hbs⟩ := passes_of_blankFrom s' rfl h
  obtain ⟨s'', h'⟩ := hbs [] ⟨by simp, by simp⟩
  rw [List.append_nil] at h'
  have hnil : blankFrom e s'' [] = .ok [] := by
    cases e with
    | block o => exact absurd rfl (he o)
    | code => rw [blankFrom]; simp
    | line => rw [blankFrom]; simp
  rw [h', hnil]
  simp [Except.map]

theorem toOption_blankFrom (s : Span) (cs : List Char) : (blankFrom .code s cs).toOption = code? cs := by
  apply Option.ext
  intro code
  rw [code?, toOption_eq_some, toOption_eq_some]
  exact ⟨blankFrom_place, blankFrom_place⟩

theorem blankFrom_newline {e : Mode} (he : ∀ o, e ≠ .block o) (s : Span) (bs : List Char) :
    blankFrom e s ('\n' :: bs) = (blankFrom .code (s.next '\n') bs).map ('\n' :: ·) := by
  cases e with
  | block o => exact absurd rfl (he o)
  | code =>
    rw [blankFrom]
    · rfl
    · simp
    · simp
  | line =>
    rw [blankFrom]
    rfl

theorem code?_newline {as code : List Char} (h : code? as = some code) (bs : List Char) :
    code? (as ++ '\n' :: bs) = (code? bs).map (code ++ '\n' :: ·) := by
  obtain ⟨e, he, hbs⟩ := passes_of_blankFrom .start rfl (toOption_eq_some.mp h)
  obtain ⟨s', h'⟩ := hbs ('\n' :: bs) ⟨by simp, by simp⟩
  rw [code?, h', blankFrom_newline he, ← toOption_blankFrom (s'.next '\n') bs]
  cases blankFrom .code (s'.next '\n') bs <;> rfl

theorem code?_return {as code : List Char} (h : code? as = some code) :
    code? (as ++ ['\r']) = some (code ++ ['\r']) := by
  obtain ⟨e, he, hbs⟩ := passes_of_blankFrom .start rfl (toOption_eq_some.mp h)
  obtain ⟨s', h'⟩ := hbs ['\r'] ⟨by simp, by simp⟩
  rw [code?, h']
  cases e with
  | block o => exact absurd rfl (he o)
  | code => simp [blankFrom]; rfl
  | line => simp [blankFrom]; rfl

def Plain (cs : List Char) : Prop :=
  ¬['/', '/'] <:+: cs ∧ ¬['/', '*'] <:+: cs

theorem Plain.of_infix {as cs : List Char} (h : Plain cs) (hi : as <:+: cs) : Plain as :=
  ⟨fun ha => h.1 (ha.trans hi), fun ha => h.2 (ha.trans hi)⟩

theorem Plain.blankFrom {cs : List Char} (h : Plain cs) (s : Span) : blankFrom .code s cs = .ok cs := by
  induction cs generalizing s with
  | nil => rw [Comment.blankFrom]; simp
  | cons c cs ih =>
    rw [Comment.blankFrom, ih (h.of_infix (List.suffix_cons c cs).isInfix)]
    · rfl
    · rintro ds rfl rfl
      exact h.1 (List.prefix_append ['/', '/'] ds).isInfix
    · rintro ds rfl rfl
      exact h.2 (List.prefix_append ['/', '*'] ds).isInfix

theorem Plain.code? {cs : List Char} (h : Plain cs) : code? cs = some cs :=
  toOption_eq_some.mpr (h.blankFrom .start)

end Comment

namespace Node

open Sfz.Parser Sfz.Comment

theorem parseLines_lines (n : Nat) (cs : List Char) :
    parseLines n (Text.lines cs) = parseLines n (Text.splitLines cs) := by
  unfold Text.lines
  induction Text.splitLines cs generalizing n with
  | nil => rfl
  | cons l ls ih => rw [List.map_cons, parseLines, parseLines, parseLine_dropReturn, ih]

theorem content?_parse (text : String) : content? (parse text) =
    (code? text.toList).bind (fun code => content? (parseLines 1 (Text.splitLines code))) := by
  unfold parse blankComments code?
  cases blankFrom .code .start text.toList with
  | error o => rfl
  | ok code => exact congrArg content? (parseLines_lines 1 code)

theorem content?_parse_empty : content? (parse "") = some [] := by
  have hline : parseLine 1 [] = .ok [] := scan_nil _
  rw [content?_parse]
  change content? (parseLines 1 [[]]) = some []
  rw [parseLines, hline]
  rfl

theorem content?_parse_newline {x : String} {code : List Char} (hx : code? x.toList = some code)
    (y : String) : content? (parse (x ++ "\n" ++ y)) = andThen (content? (parse x)) (content? (parse y)) := by
  have hl : (x ++ "\n" ++ y).toList = x.toList ++ '\n' :: y.toList := by simp
  rw [content?_parse, content?_parse, content?_parse, hl, code?_newline hx, hx]
  cases code? y.toList with
  | none => simp [andThen]
  | some code' =>
    simp only [Option.map_some, Option.bind_some]
    rw [Text.splitLines_append, content?_parseLines_append 1 1]

theorem splitLines_return (cs : List Char) : ∃ ls l, Text.splitLines cs = ls ++ [l] ∧
    Text.splitLines (cs ++ ['\r']) = ls ++ [l ++ ['\r']] := by
  induction cs with
  | nil => exact ⟨[], [], rfl, rfl⟩
  | cons c cs ih =>
    obtain ⟨ls, l, h, h'⟩ := ih
    rw [List.cons_append, Text.splitLines, Text.splitLines, h, h']
    by_cases hc : c = '\n'
    · rw [if_pos hc, if_pos hc]
      exact ⟨[] :: ls, l, rfl, rfl⟩
    · rw [if_neg hc, if_neg hc]
      cases ls with
      | nil => exact ⟨[], c :: l, rfl, rfl⟩
      | cons k ls => exact ⟨(c :: k) :: ls, l, rfl, rfl⟩

theorem content?_parse_return {x : String} {code : List Char} (hx : code? x.toList = some code) :
    content? (parse (x ++ "\r")) = content? (parse x) := by
  have hl : (x ++ "\r").toList = x.toList ++ ['\r'] := by simp
  obtain ⟨ls, l, h, h'⟩ := splitLines_return code
  rw [content?_parse, content?_parse, hl, code?_return hx, hx]
  have hlast : parseLines 1 [l ++ ['\r']] = parseLines 1 [l] := by
    simp only [parseLines, parseLine_return]
  simp only [Option.bind_some]
  rw [h, h', content?_parseLines_append 1 1, content?_parseLines_append 1 1, hlast]

end Node

/-- The line may or may not be taken to hold the carriage return before its newline. -/
structure MarkedLine where
  before : String
  line : String
  after : String
  begins : before = "" ∨ ∃ b, before = b ++ "\n"
  single : '\n' ∉ line.toList
  ends : after = "" ∨ ∃ a, after = "\n" ++ a ∨ after = "\r\n" ++ a

namespace MarkedLine

open Sfz.Parser Sfz.Comment

def replace (m : MarkedLine) (text : String) : String :=
  m.before ++ text ++ m.after

def text (m : MarkedLine) : String :=
  m.replace m.line

theorem content?_before (m : MarkedLine) (h : Plain m.before.toList) (text : String) :
    content? (Node.parse (m.before ++ text)) =
      andThen (content? (Node.parse m.before)) (content? (Node.parse text)) := by
  rcases m.begins with hb | ⟨b, hb⟩
  · rw [hb, String.empty_append, Node.content?_parse_empty, nil_andThen]
  · have hp : Plain b.toList := h.of_infix (by
      rw [hb, String.toList_append]
      exact (List.prefix_append _ _).isInfix)
    have he : content? (Node.parse (b ++ "\n")) = content? (Node.parse b) := by
      have := Node.content?_parse_newline hp.code? ""
      rwa [String.append_empty, Node.content?_parse_empty, andThen_nil] at this
    rw [hb, Node.content?_parse_newline hp.code?, he]

theorem content?_after (m : MarkedLine) {text : String} {code : List Char}
    (h : code? text.toList = some code) : content? (Node.parse (text ++ m.after)) =
      andThen (content? (Node.parse text)) (content? (Node.parse m.after)) := by
  have hempty : code? "".toList = some [] := rfl
  rcases m.ends with ha | ⟨a, ha | ha⟩
  · rw [ha, String.append_empty, Node.content?_parse_empty, andThen_nil]
  · have h' := Node.content?_parse_newline hempty a
    rw [String.empty_append, Node.content?_parse_empty, nil_andThen] at h'
    rw [ha, ← String.append_assoc, Node.content?_parse_newline h, h']
  · have hreturn : code? (text ++ "\r").toList = some (code ++ ['\r']) := by
      rw [String.toList_append]
      exact code?_return h
    have hr := Node.content?_parse_return hempty
    rw [String.empty_append, Node.content?_parse_empty] at hr
    have h' := Node.content?_parse_newline (show code? "\r".toList = some ['\r'] from rfl) a
    rw [hr, nil_andThen] at h'
    have hcut : "\r\n" ++ a = "\r" ++ "\n" ++ a := rfl
    rw [ha, hcut, h', String.append_assoc, ← String.append_assoc, ← String.append_assoc,
      Node.content?_parse_newline hreturn, Node.content?_parse_return h]

theorem content?_replace (m : MarkedLine) (hb : Plain m.before.toList) {text : String} {code : List Char}
    (h : code? text.toList = some code) : content? (Node.parse (m.replace text)) =
      andThen (content? (Node.parse m.before))
        (andThen (content? (Node.parse text)) (content? (Node.parse m.after))) := by
  rw [replace, String.append_assoc, content?_before m hb, content?_after m h]

theorem code?_of_parse {text : String} {ns : List Node} (h : Node.parse text = .ok ns) :
    ∃ code, code? text.toList = some code := by
  have hc := content?_eq_some.mpr ⟨ns, h, rfl⟩
  rw [Node.content?_parse, Option.bind_eq_some_iff] at hc
  obtain ⟨code, hcode, -⟩ := hc
  exact ⟨code, hcode⟩

theorem toList_text (m : MarkedLine) :
    m.text.toList = m.before.toList ++ m.line.toList ++ m.after.toList := by
  simp [text, replace]

theorem plain_before {m : MarkedLine} (h : Plain m.text.toList) : Plain m.before.toList := by
  rw [toList_text] at h
  exact h.of_infix ⟨[], m.line.toList ++ m.after.toList, by simp⟩

theorem plain_line {m : MarkedLine} (h : Plain m.text.toList) : Plain m.line.toList := by
  rw [toList_text] at h
  exact h.of_infix ⟨m.before.toList, m.after.toList, by simp⟩

theorem parse_text {m : MarkedLine} (hp : Plain m.text.toList) {nodes : List Node}
    (h : Node.parse m.text = .ok nodes) : ∃ before ns after, Node.parse m.before = .ok before ∧
      Node.parse m.line = .ok ns ∧ Node.parse m.after = .ok after ∧
      nodes.map Node.unplaced = (before ++ (ns ++ after)).map Node.unplaced := by
  have hc := content?_eq_some.mpr ⟨nodes, h, rfl⟩
  rw [text, content?_replace m (plain_before hp) (plain_line hp).code?] at hc
  obtain ⟨as, cs, ha, hcs, hnodes⟩ := andThen_eq_some.mp hc
  obtain ⟨ls, bs, hls, hbs, rfl⟩ := andThen_eq_some.mp hcs
  obtain ⟨before, hbefore, rfl⟩ := content?_eq_some.mp ha
  obtain ⟨ns, hns, rfl⟩ := content?_eq_some.mp hls
  obtain ⟨after, hafter, rfl⟩ := content?_eq_some.mp hbs
  refine ⟨before, ns, after, hbefore, hns, hafter, ?_⟩
  rw [← hnodes, List.map_append, List.map_append]

theorem parse_replace {m : MarkedLine} (hp : Plain m.before.toList) {text : String}
    {before ns after : List Node} (hb : Node.parse m.before = .ok before) (hn : Node.parse text = .ok ns)
    (ha : Node.parse m.after = .ok after) : ∃ nodes, Node.parse (m.replace text) = .ok nodes ∧
      nodes.map Node.unplaced = (before ++ (ns ++ after)).map Node.unplaced := by
  obtain ⟨code, hcode⟩ := code?_of_parse hn
  apply content?_eq_some.mp
  rw [content?_replace m hp hcode, content?_eq_some.mpr ⟨before, hb, rfl⟩,
    content?_eq_some.mpr ⟨ns, hn, rfl⟩, content?_eq_some.mpr ⟨after, ha, rfl⟩]
  simp [andThen]

end MarkedLine

end Sfz
