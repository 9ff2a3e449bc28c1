import Sfz.Node.Parser
import Sfz.Proofs.Outcome

namespace Sfz

def Node.unplaced : Node → Node
  | .header kind _ => .header kind .start
  | .opcode name value _ => .opcode name value .start
  | .define name value _ => .define name value .start
  | .inclusion path _ => .inclusion path .start

namespace Parser

open Text

def content? (r : Except SyntaxError (List Node)) : Option (List Node) :=
  r.toOption.map (List.map Node.unplaced)

theorem content?_eq_some {r : Except SyntaxError (List Node)} {ns : List Node} :
    content? r = some ns ↔ ∃ nodes, r = .ok nodes ∧ nodes.map Node.unplaced = ns := by
  cases r with
  | error e => simp [content?, Except.toOption]
  | ok nodes => simp [content?, Except.toOption]

theorem content?_cons (n : Node) (r : Except SyntaxError (List Node)) :
    content? (do return n :: (← r)) = (content? r).map (n.unplaced :: ·) := by
  cases r with
  | error e => rfl
  | ok nodes => rfl

def andThen (a b : Option (List Node)) : Option (List Node) :=
  a.bind (fun ns => b.map (ns ++ ·))

theorem andThen_eq_some {a b : Option (List Node)} {ns : List Node} :
    andThen a b = some ns ↔ ∃ as bs, a = some as ∧ b = some bs ∧ as ++ bs = ns := by
  cases a with
  | none => simp [andThen]
  | some as => cases b <;> simp [andThen]

@[simp] theorem nil_andThen (a : Option (List Node)) : andThen (some []) a = a := by
  cases a <;> rfl

@[simp] theorem andThen_nil (a : Option (List Node)) : andThen a (some []) = a := by
  cases a <;> simp [andThen]

theorem andThen_assoc (a b c : Option (List Node)) :
    andThen (andThen a b) c = andThen a (andThen b c) := by
  cases a with
  | none => rfl
  | some as =>
    cases b with
    | none => rfl
    | some bs => cases c <;> simp [andThen]

theorem content?_append (r r' : Except SyntaxError (List Node)) :
    content? (do return (← r) ++ (← r')) = andThen (content? r) (content? r') := by
  cases r with
  | error e => rfl
  | ok nodes =>
    cases r' with
    | error e => rfl
    | ok nodes' => exact congrArg some List.map_append

section Scan

variable {c : Char} {cs name rest : List Char} (s : Span)

theorem scan_nil : scan s [] = .ok [] := by
  rw [scan.eq_def]

theorem scan_blank (hc : isBlank c = true) : scan s (c :: cs) = scan (s.right 1) cs := by
  rw [scan.eq_def s (c :: cs)]
  dsimp only
  rw [if_pos hc]

theorem scan_header {kind : HeaderKind} (hc : ¬isBlank c = true) (ht : tag? (c :: cs) = some (name, rest))
    (hk : HeaderKind.ofName? (String.ofList name) = some kind) :
    scan s (c :: cs) = do return .header kind s :: (← scan (s.right (name.length + 2)) rest) := by
  rw [scan.eq_def s (c :: cs)]
  dsimp only
  rw [if_neg hc]
  split
  next ht' =>
    obtain ⟨rfl, rfl⟩ : name = _ ∧ rest = _ := by simpa [ht] using ht'
    rw [hk]
  next ht' => simp [ht] at ht'

theorem scan_unknown (hc : ¬isBlank c = true) (ht : tag? (c :: cs) = some (name, rest))
    (hk : HeaderKind.ofName? (String.ofList name) = none) :
    scan s (c :: cs) = .error ⟨s, .unknownHeader (String.ofList name)⟩ := by
  rw [scan.eq_def s (c :: cs)]
  dsimp only
  rw [if_neg hc]
  split
  next ht' =>
    obtain ⟨rfl, rfl⟩ : name = _ ∧ rest = _ := by simpa [ht] using ht'
    rw [hk]
  next ht' => simp [ht] at ht'

theorem scan_opcode (hc : ¬isBlank c = true) (ht : tag? (c :: cs) = none)
    (ho : setting? (c :: cs) = some (name, rest)) :
    scan s (c :: cs) = do
      return .opcode (String.ofList name) (String.ofList (unquote (trim (rawValue rest).1))) s ::
        (← scan (s.right (name.length + 1 + (rawValue rest).1.length)) (rawValue rest).2) := by
  rw [scan.eq_def s (c :: cs)]
  dsimp only
  rw [if_neg hc]
  split
  next ht' => simp [ht] at ht'
  next =>
    split
    next ho' =>
      obtain ⟨rfl, rfl⟩ : name = _ ∧ rest = _ := by simpa [ho] using ho'
      rfl
    next ho' => simp [ho] at ho'

theorem scan_unexpected (hc : ¬isBlank c = true) (ht : tag? (c :: cs) = none)
    (ho : setting? (c :: cs) = none) : scan s (c :: cs) = .error ⟨s, .unexpectedInput⟩ := by
  rw [scan.eq_def s (c :: cs)]
  dsimp only
  rw [if_neg hc]
  split
  next ht' => simp [ht] at ht'
  next =>
    split
    next ho' => simp [ho] at ho'
    next => rfl

end Scan

theorem content?_scan (s s' : Span) (cs : List Char) : content? (scan s cs) = content? (scan s' cs) := by
  fun_induction scan s cs generalizing s' with
  | case1 => rw [scan_nil]
  | case2 s c cs hc ih => rw [scan_blank s' hc, ih]
  | case3 s c cs hc name rest ht hk => rw [scan_unknown s' hc ht hk]; rfl
  | case4 s c cs hc name rest ht kind hk ih =>
    rw [scan_header s' hc ht hk, content?_cons, content?_cons, ih]
    rfl
  | case5 s c cs hc ht name rest ho value next ih =>
    rw [scan_opcode s' hc ht ho, content?_cons, content?_cons, ih]
    rfl
  | case6 s c cs hc ht ho => rw [scan_unexpected s' hc ht ho]; rfl

theorem content?_parseLine (n m : Nat) (l : List Char) :
    content? (parseLine n l) = content? (parseLine m l) := by
  cases hd : after? "#define".toList (trimStart l) with
  | some rest => cases h : definition? rest <;> simp only [parseLine, hd, h] <;> rfl
  | none =>
    cases hi : after? "#include".toList (trimStart l) with
    | some rest => cases h : inclusion? rest <;> simp only [parseLine, hd, hi, h] <;> rfl
    | none =>
      simp only [parseLine, hd, hi]
      exact content?_scan _ _ l

theorem content?_parseLines (n m : Nat) (ls : List (List Char)) :
    content? (parseLines n ls) = content? (parseLines m ls) := by
  induction ls generalizing n m with
  | nil => rfl
  | cons l ls ih =>
    rw [parseLines, parseLines, content?_append, content?_append, content?_parseLine n m,
      ih (n + 1) (m + 1)]

theorem content?_parseLines_append (n m : Nat) (as bs : List (List Char)) :
    content? (parseLines n (as ++ bs)) =
      andThen (content? (parseLines n as)) (content? (parseLines m bs)) := by
  induction as generalizing n with
  | nil =>
    rw [List.nil_append, content?_parseLines n m]
    exact (nil_andThen _).symm
  | cons l as ih =>
    rw [List.cons_append, parseLines, parseLines, content?_append, content?_append, ih, andThen_assoc]

theorem parseLines_append {k : Nat} {ls : List (List Char)} {nodes : List Node}
    (h : parseLines k ls = .ok nodes) (ms : List (List Char)) :
    parseLines k (ls ++ ms) = (parseLines (k + ls.length) ms).map (nodes ++ ·) := by
  induction ls generalizing k nodes with
  | nil =>
    obtain rfl := Except.ok.inj h
    rw [List.nil_append, List.length_nil, Nat.add_zero]
    cases parseLines k ms <;> rfl
  | cons l ls ih =>
    simp only [parseLines, bind_eq_ok, pure_eq_ok] at h
    obtain ⟨as, has, bs, hbs, rfl⟩ := h
    rw [List.cons_append, parseLines, has, ih hbs, List.length_cons, Nat.add_comm ls.length, ← Nat.add_assoc]
    cases parseLines (k + 1 + ls.length) ms with
    | error e => rfl
    | ok nodes => exact congrArg Except.ok (List.append_assoc ..).symm

section Return

variable {p : Char → Bool} (cs : List Char)

theorem takeWhile_return (hp : p '\r' = false) : (cs ++ ['\r']).takeWhile p = cs.takeWhile p := by
  induction cs with
  | nil => simp [hp]
  | cons c cs ih => simp [List.takeWhile_cons, ih]

theorem dropWhile_return (hp : p '\r' = false) : (cs ++ ['\r']).dropWhile p = cs.dropWhile p ++ ['\r'] := by
  induction cs with
  | nil => simp [hp]
  | cons c cs ih =>
    rw [List.cons_append, List.dropWhile_cons, List.dropWhile_cons]
    split
    · exact ih
    · rfl

theorem trimStart_return : trimStart (cs ++ ['\r']) = if trimStart cs = [] then [] else trimStart cs ++ ['\r'] := by
  unfold trimStart
  rw [List.dropWhile_append]
  simp only [List.isEmpty_iff]
  rfl

theorem trimEnd_return : trimEnd (cs ++ ['\r']) = trimEnd cs := by
  induction cs with
  | nil => rfl
  | cons c cs ih => rw [List.cons_append, trimEnd, trimEnd, ih]

theorem trim_return : trim (cs ++ ['\r']) = trim cs := by
  unfold trim
  rw [trimStart_return]
  split
  next h => rw [h]
  next => exact trimEnd_return _

theorem tag?_return : tag? (cs ++ ['\r']) = (tag? cs).map (fun r => (r.1, r.2 ++ ['\r'])) := by
  cases cs with
  | nil => rfl
  | cons c cs =>
    by_cases hc : c = '<'
    · subst hc
      simp only [List.cons_append, tag?, takeWhile_return cs (show isTagChar '\r' = false by decide),
        dropWhile_return cs (show isTagChar '\r' = false by decide)]
      cases cs.dropWhile isTagChar with
      | nil => rfl
      | cons d ds =>
        by_cases hd : d = '>'
        · subst hd
          rfl
        · simp [hd]
    · simp [tag?, hc]

theorem setting?_return : setting? (cs ++ ['\r']) = (setting? cs).map (fun r => (r.1, r.2 ++ ['\r'])) := by
  simp only [setting?, takeWhile_return cs (show isNameChar '\r' = false by decide),
    dropWhile_return cs (show isNameChar '\r' = false by decide)]
  cases cs.takeWhile isNameChar with
  | nil => rfl
  | cons c name =>
    cases cs.dropWhile isNameChar with
    | nil => rfl
    | cons d ds =>
      by_cases hd : d = '='
      · subst hd
        rfl
      · simp [hd]

theorem endsValue_return (c : Char) : endsValue (c :: cs ++ ['\r']) = endsValue (c :: cs) := by
  rw [List.cons_append, endsValue, endsValue, ← List.cons_append, tag?_return, trimStart_return,
    Option.isSome_map]
  split
  next h => rw [h]
  next => rw [setting?_return, Option.isSome_map]

theorem rawValue_return : rawValue (cs ++ ['\r']) =
    if (rawValue cs).2 = [] then ((rawValue cs).1 ++ ['\r'], [])
    else ((rawValue cs).1, (rawValue cs).2 ++ ['\r']) := by
  induction cs with
  | nil => rfl
  | cons c cs ih =>
    have he := endsValue_return cs c
    rw [List.cons_append] at he ⊢
    rw [rawValue, rawValue, he, ih]
    cases endsValue (c :: cs) with
    | true => simp
    | false =>
      by_cases hr : (rawValue cs).2 = []
      · simp [hr]
      · simp [hr]

theorem scan_return (s : Span) : scan s (cs ++ ['\r']) = scan s cs := by
  fun_induction scan s cs with
  | case1 s =>
    rw [List.nil_append, scan_blank s (by decide), scan_nil]
  | case2 s c cs hc ih => rw [List.cons_append, scan_blank s hc, ih]
  | case3 s c cs hc name rest ht hk =>
    have ht' : tag? (c :: (cs ++ ['\r'])) = some (name, rest ++ ['\r']) := by
      rw [← List.cons_append, tag?_return, ht]
      rfl
    rw [List.cons_append, scan_unknown s hc ht' hk]
  | case4 s c cs hc name rest ht kind hk ih =>
    have ht' : tag? (c :: (cs ++ ['\r'])) = some (name, rest ++ ['\r']) := by
      rw [← List.cons_append, tag?_return, ht]
      rfl
    rw [List.cons_append, scan_header s hc ht' hk, ih]
  | case5 s c cs hc ht name rest ho value next ih =>
    have ht' : tag? (c :: (cs ++ ['\r'])) = none := by
      rw [← List.cons_append, tag?_return, ht]
      rfl
    have ho' : setting? (c :: (cs ++ ['\r'])) = some (name, rest ++ ['\r']) := by
      rw [← List.cons_append, setting?_return, ho]
      rfl
    rw [List.cons_append, scan_opcode s hc ht' ho', rawValue_return]
    by_cases hr : (rawValue rest).2 = []
    · rw [if_pos hr, trim_return, hr, scan_nil, scan_nil]
    · rw [if_neg hr, ih]
  | case6 s c cs hc ht ho =>
    have ht' : tag? (c :: (cs ++ ['\r'])) = none := by
      rw [← List.cons_append, tag?_return, ht]
      rfl
    have ho' : setting? (c :: (cs ++ ['\r'])) = none := by
      rw [← List.cons_append, setting?_return, ho]
      rfl
    rw [List.cons_append, scan_unexpected s hc ht' ho']

theorem after?_return {ps : List Char} (hp : '\r' ∉ ps) :
    after? ps (cs ++ ['\r']) = (after? ps cs).map (· ++ ['\r']) := by
  induction ps generalizing cs with
  | nil => simp [after?]
  | cons p ps ih =>
    obtain ⟨h, hps⟩ := List.ne_and_not_mem_of_not_mem_cons hp
    cases cs with
    | nil => simp [after?, Ne.symm h]
    | cons c cs =>
      simp only [List.cons_append, after?]
      split
      · exact ih cs hps
      · rfl

theorem definition?_return : definition? (cs ++ ['\r']) = definition? cs := by
  cases cs with
  | nil => rfl
  | cons c cs =>
    simp only [List.cons_append, definition?, trimStart_return]
    cases trimStart cs with
    | nil => rfl
    | cons d body =>
      by_cases hd : d = '$'
      · subst hd
        simp only [reduceCtorEq, ↓reduceIte, List.cons_append,
          takeWhile_return body (show isWordChar '\r' = false by decide),
          dropWhile_return body (show isWordChar '\r' = false by decide), trim_return]
        cases body.dropWhile isWordChar with
        | nil => rfl
        | cons e es => rfl
      · simp [hd]

theorem inclusion?_return : inclusion? (cs ++ ['\r']) = inclusion? cs := by
  cases cs with
  | nil => rfl
  | cons c cs => rw [List.cons_append, inclusion?, inclusion?, trim_return]

theorem parseLine_return (n : Nat) : parseLine n (cs ++ ['\r']) = parseLine n cs := by
  by_cases hb : trimStart cs = []
  · have hb' : trimStart (cs ++ ['\r']) = [] := by
      rw [trimStart_return, if_pos hb]
    simp only [parseLine, hb, hb']
    exact scan_return cs _
  · have hb' : trimStart (cs ++ ['\r']) = trimStart cs ++ ['\r'] := by
      rw [trimStart_return, if_neg hb]
    have hlen : (cs ++ ['\r']).length - (trimStart cs ++ ['\r']).length =
        cs.length - (trimStart cs).length := by
      simp only [List.length_append, List.length_singleton]
      omega
    simp only [parseLine, hb', hlen, after?_return (trimStart cs) (show '\r' ∉ "#define".toList by decide),
      after?_return (trimStart cs) (show '\r' ∉ "#include".toList by decide)]
    cases after? "#define".toList (trimStart cs) with
    | some rest => simp only [Option.map_some, definition?_return]
    | none =>
      cases after? "#include".toList (trimStart cs) with
      | some rest => simp only [Option.map_none, Option.map_some, inclusion?_return]
      | none => exact scan_return cs _

theorem dropReturn_cases : dropReturn cs = cs ∨ cs = dropReturn cs ++ ['\r'] := by
  induction cs with
  | nil => exact .inl rfl
  | cons c cs ih =>
    cases cs with
    | nil =>
      by_cases hc : c = '\r'
      · subst hc
        exact .inr rfl
      · exact .inl (if_neg hc)
    | cons d cs =>
      rcases ih with ih | ih
      · exact .inl (congrArg (c :: ·) ih)
      · exact .inr (congrArg (c :: ·) ih)

theorem parseLine_dropReturn (n : Nat) : parseLine n (dropReturn cs) = parseLine n cs := by
  rcases dropReturn_cases cs with h | h
  · rw [h]
  · rw [← parseLine_return (dropReturn cs) n, ← h]

end Return

end Parser

end Sfz
