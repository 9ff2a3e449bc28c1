import Sfz.Proofs.NodeWriting

/-!
How a line is scanned. A line is blanks, tags and settings, one after the other, up to its end or up to a place
where none of them stands. Each tag and each setting is a node, the text of a setting goes on for as long as it
can, and so a scan that stops early stops before the first setting or after a tag.
-/

namespace Sfz

theorem Span.right_right (s : Span) (m n : Nat) : (s.right m).right n = s.right (m + n) := by
  simp only [right, Nat.add_assoc]

namespace Parser

open Text

inductive Item
  | blank (c : Char)
  | tag (kind : HeaderKind)
  | chunk (name raw : List Char)

namespace Item

def text : Item → List Char
  | .blank c => [c]
  | .tag kind => '<' :: (kind.name.toList ++ ['>'])
  | .chunk name raw => name ++ '=' :: raw

def node? (s : Span) : Item → Option Node
  | .blank _ => none
  | .tag kind => some (.header kind s)
  | .chunk name raw => some (.opcode (String.ofList name) (String.ofList (unquote (trim raw))) s)

def isBlank : Item → Bool
  | .blank _ => true
  | _ => false

theorem length_text_pos (i : Item) : 0 < i.text.length := by
  cases i with
  | blank c => exact Nat.one_pos
  | tag kind => exact Nat.succ_pos _
  | chunk name raw =>
    rw [text, List.length_append, List.length_cons]
    omega

end Item

def written (items : List Item) : List Char :=
  items.flatMap Item.text

def nodesFrom (s : Span) : List Item → List Node
  | [] => []
  | i :: items => (i.node? s).toList ++ nodesFrom (s.right i.text.length) items

theorem written_cons (i : Item) (items : List Item) : written (i :: items) = i.text ++ written items :=
  List.flatMap_cons

theorem length_le_written (items : List Item) : items.length ≤ (written items).length := by
  induction items with
  | nil => exact Nat.le_refl 0
  | cons i items ih =>
    have hi := i.length_text_pos
    rw [written_cons, List.length_append, List.length_cons]
    omega

/-- Items and what follows them. The text of a setting holds no tag and no blank before another setting, and it is
followed by one of these or by nothing. -/
inductive Laid : List Item → List Char → Prop
  | nil (rest : List Char) : Laid [] rest
  | blank {c : Char} {items : List Item} {rest : List Char} (hc : Text.isBlank c = true) (h : Laid items rest) :
      Laid (.blank c :: items) rest
  | tag (kind : HeaderKind) {items : List Item} {rest : List Char} (h : Laid items rest) :
      Laid (.tag kind :: items) rest
  | chunk {name raw : List Char} {items : List Item} {rest : List Char}
      (hname : name ≠ [] ∧ ∀ c ∈ name, isNameChar c = true) (hraw : Inert raw)
      (hend : written items ++ rest = [] ∨ EndsAt (written items ++ rest)) (h : Laid items rest) :
      Laid (.chunk name raw :: items) rest

inductive Stuck : List Char → SyntaxError.Cause → Prop
  | unknown {name : List Char} (rest : List Char) (hname : ∀ c ∈ name, isTagChar c = true)
      (hkind : ∀ kind : HeaderKind, kind.name.toList ≠ name) :
      Stuck ('<' :: (name ++ '>' :: rest)) (.unknownHeader (String.ofList name))
  | unexpected {c : Char} {cs : List Char} (hc : Text.isBlank c = false)
      (htag : ∀ name rest, (∀ d ∈ name, isTagChar d = true) → c :: cs ≠ '<' :: (name ++ '>' :: rest))
      (hname : ∀ name rest, name ≠ [] ∧ (∀ d ∈ name, isNameChar d = true) → c :: cs ≠ name ++ '=' :: rest) :
      Stuck (c :: cs) .unexpectedInput

theorem rawValue_end (cs : List Char) : (rawValue cs).2 = [] ∨ EndsAt (rawValue cs).2 := by
  induction cs with
  | nil => exact .inl rfl
  | cons c cs ih =>
    rw [rawValue]
    split
    next he => exact .inr (endsValue_iff.mp he)
    next => exact ih

inductive Scanned (s : Span) (items : List Item) : List Char → Except SyntaxError (List Node) → Prop
  | done : Scanned s items [] (.ok (nodesFrom s items))
  | stuck {rest : List Char} {cause : SyntaxError.Cause} (h : Stuck rest cause) :
      Scanned s items rest (.error ⟨s.right (written items).length, cause⟩)

theorem Scanned.cons {s : Span} {i : Item} {items : List Item} {rest : List Char}
    {r : Except SyntaxError (List Node)} (h : Scanned (s.right i.text.length) items rest r) :
    Scanned s (i :: items) rest (r.map ((i.node? s).toList ++ ·)) := by
  cases h with
  | done => exact .done
  | stuck h =>
    rw [Span.right_right, ← List.length_append, ← written_cons]
    exact .stuck h

theorem exists_laid (s : Span) (line : List Char) : ∃ items rest, Laid items rest ∧
    written items ++ rest = line ∧ Scanned s items rest (scan s line) := by
  fun_induction scan s line with
  | case1 s => exact ⟨[], [], .nil [], rfl, .done⟩
  | case2 s c cs hc ih =>
    obtain ⟨items, rest, hlaid, rfl, hscanned⟩ := ih
    refine ⟨.blank c :: items, rest, .blank hc hlaid, rfl, ?_⟩
    have hmap := hscanned.cons (i := .blank c)
    generalize scan (s.right 1) (written items ++ rest) = r at hmap
    cases r with
    | error e => exact hmap
    | ok nodes => exact hmap
  | case3 s c cs hc name rest ht hk =>
    obtain ⟨hcs, hname⟩ := tag?_eq_some.mp ht
    refine ⟨[], c :: cs, .nil _, rfl, ?_⟩
    rw [hcs]
    apply Scanned.stuck
    apply Stuck.unknown rest hname
    rintro kind rfl
    rw [String.ofList_toList, HeaderKind.ofName?_name] at hk
    cases hk
  | case4 s c cs hc name rest ht kind hk ih =>
    obtain ⟨hcs, hname⟩ := tag?_eq_some.mp ht
    obtain ⟨items, rest, hlaid, rfl, hscanned⟩ := ih
    have hkind : kind.name.toList = name := by rw [HeaderKind.name_of_ofName? hk, String.toList_ofList]
    have hlength : (Item.tag kind).text.length = name.length + 2 := by simp [Item.text, hkind]
    refine ⟨.tag kind :: items, rest, .tag kind hlaid, ?_, ?_⟩
    · rw [hcs, written_cons, Item.text, hkind]
      simp
    · rw [← hlength] at hscanned ⊢
      exact hscanned.cons
  | case5 s c cs hc ht name rest ho value next ih =>
    obtain ⟨hcs, hname⟩ := setting?_eq_some.mp ho
    obtain ⟨items, rest', hlaid, hwritten, hscanned⟩ := ih
    refine ⟨.chunk name (rawValue rest).1 :: items, rest', ?_, ?_, ?_⟩
    · refine .chunk hname (inert_rawValue rest) ?_ hlaid
      rw [hwritten]
      exact rawValue_end rest
    · rw [hcs, written_cons, Item.text, List.append_assoc, hwritten, List.append_assoc, List.cons_append,
        rawValue_append]
    · have hlength : name.length + 1 + (rawValue rest).1.length =
          (Item.chunk name (rawValue rest).1).text.length := by
        rw [Item.text, List.length_append, List.length_cons]
        omega
      have hnext : next = s.right (Item.chunk name (rawValue rest).1).text.length := congrArg s.right hlength
      rw [hnext] at hscanned ⊢
      exact hscanned.cons
  | case6 s c cs hc ht ho =>
    refine ⟨[], c :: cs, .nil _, rfl, ?_⟩
    apply Scanned.stuck
    apply Stuck.unexpected
    · simpa using hc
    · intro name rest hname hcs
      rw [tag?_eq_some.mpr ⟨hcs, hname⟩] at ht
      cases ht
    · intro name rest hname hcs
      rw [setting?_eq_some.mpr ⟨hcs, hname⟩] at ho
      cases ho

theorem not_stuck_nil (cause : SyntaxError.Cause) : ¬Stuck [] cause := by
  intro h
  cases h

theorem Stuck.unique {rest : List Char} {cause cause' : SyntaxError.Cause} (h : Stuck rest cause)
    (h' : Stuck rest cause') : cause = cause' := by
  cases h with
  | @unknown name more hname hkind =>
    generalize hrest : '<' :: (name ++ '>' :: more) = rest at h'
    cases h' with
    | @unknown name' more' hname' hkind' =>
      have htag := tag?_eq_some.mpr ⟨hrest, hname'⟩
      rw [tag?_eq_some.mpr ⟨rfl, hname⟩] at htag
      obtain ⟨rfl, -⟩ := Prod.mk.inj (Option.some.inj htag)
      rfl
    | unexpected hc htag hsetting => exact absurd hrest.symm (htag _ _ hname)
  | unexpected hc htag hsetting =>
    generalize hrest : _ :: _ = rest at h'
    cases h' with
    | unknown more' hname' hkind' => exact absurd hrest (htag _ _ hname')
    | unexpected hc' htag' hsetting' => rfl

theorem Laid.isBlank_written {items : List Item} {rest : List Char} (h : Laid items rest)
    (hblank : ∀ i ∈ items, i.isBlank = true) : ∀ c ∈ written items, Text.isBlank c = true := by
  induction h with
  | nil rest => simp [written]
  | blank hc h ih =>
    obtain ⟨-, hitems⟩ := List.forall_mem_cons.mp hblank
    exact List.forall_mem_cons.mpr ⟨hc, ih hitems⟩
  | tag kind h ih => cases hblank _ (List.mem_cons_self ..)
  | chunk hname hraw hend h ih => cases hblank _ (List.mem_cons_self ..)

theorem Stuck.not_endsAt {rest : List Char} (h : Stuck rest .unexpectedInput) {blanks : List Char}
    (hblanks : ∀ c ∈ blanks, Text.isBlank c = true) : ¬EndsAt (blanks ++ rest) := by
  cases h with
  | @unexpected c cs hc htag hsetting =>
    -- after the blanks, what ends a value is what a scan goes on with
    have htrim : trimStart (blanks ++ c :: cs) = c :: cs := dropWhile_run hblanks hc
    intro hend
    generalize hx : blanks ++ c :: cs = x at hend htrim
    cases hend with
    | @tag name more hname =>
      have hself : trimStart ('<' :: (name ++ '>' :: more)) = '<' :: (name ++ '>' :: more) := rfl
      exact htag name more hname (htrim.symm.trans hself)
    | @setting front name more hne hfront hname =>
      rw [trimStart_name _ hfront hname] at htrim
      exact hsetting name more hname htrim.symm

def Fresh (items : List Item) : Prop :=
  (∀ i ∈ items, i.isBlank = true) ∨
    ∃ before kind after, items = before ++ .tag kind :: after ∧ ∀ i ∈ after, i.isBlank = true

theorem Laid.fresh {items : List Item} {rest : List Char} (h : Laid items rest)
    (hrest : Stuck rest .unexpectedInput) : Fresh items := by
  have hcons (i : Item) {items : List Item} (hi : ∃ before kind after, items = before ++ .tag kind :: after ∧
      ∀ i ∈ after, i.isBlank = true) : Fresh (i :: items) := by
    obtain ⟨before, kind, after, rfl, hafter⟩ := hi
    exact .inr ⟨i :: before, kind, after, rfl, hafter⟩
  induction h with
  | nil rest => exact .inl (by simp)
  | blank hc h ih =>
    rcases ih hrest with hblank | hi
    · exact .inl (List.forall_mem_cons.mpr ⟨rfl, hblank⟩)
    · exact hcons _ hi
  | tag kind h ih =>
    rcases ih hrest with hblank | hi
    · exact .inr ⟨[], kind, _, rfl, hblank⟩
    · exact hcons _ hi
  | @chunk name raw items rest hname hraw hend h ih =>
    rcases ih hrest with hblank | hi
    · rcases hend with hnil | hend
      · rw [(List.append_eq_nil_iff.mp hnil).2] at hrest
        exact absurd hrest (not_stuck_nil _)
      · exact absurd hend (hrest.not_endsAt (h.isBlank_written hblank))
    · exact hcons _ hi

theorem scan_follows_layout (s : Span) (line : List Char) : ∃ items rest, Laid items rest ∧
    written items ++ rest = line ∧ items.length ≤ line.length ∧
    (∀ nodes, scan s line = .ok nodes ↔ rest = [] ∧ nodesFrom s items = nodes) ∧
    (∀ e, scan s line = .error e ↔ Stuck rest e.cause ∧ e.span = s.right (written items).length) ∧
    (Stuck rest .unexpectedInput → Fresh items) := by
  obtain ⟨items, rest, hlaid, hwritten, hscanned⟩ := exists_laid s line
  refine ⟨items, rest, hlaid, hwritten, ?_, ?_, ?_, hlaid.fresh⟩
  · have hitems := length_le_written items
    rw [← hwritten, List.length_append]
    omega
  · generalize scan s line = r at hscanned
    intro nodes
    cases hscanned with
    | done => simp
    | stuck h =>
      constructor
      · exact nofun
      · rintro ⟨rfl, -⟩
        exact absurd h (not_stuck_nil _)
  · generalize scan s line = r at hscanned
    intro e
    cases hscanned with
    | done =>
      constructor
      · exact nofun
      · rintro ⟨h, -⟩
        exact absurd h (not_stuck_nil _)
    | @stuck rest cause h =>
      constructor
      · intro he
        obtain rfl := Except.error.inj he
        exact ⟨h, rfl⟩
      · rintro ⟨he, hspan⟩
        rw [h.unique he, ← hspan]

theorem scan_follows_layout_snare : ∃ items rest, Laid items rest ∧
    written items ++ rest = "<region>\t?key=1".toList ∧ Stuck rest .unexpectedInput ∧
    (written items).length = 9 ∧ Fresh items := by
  have hscan : scan ⟨3, 1⟩ "<region>\t?key=1".toList = .error ⟨⟨3, 10⟩, .unexpectedInput⟩ := by decide +kernel
  obtain ⟨items, rest, hlaid, hwritten, -, -, herror, hfresh⟩ :=
    scan_follows_layout ⟨3, 1⟩ "<region>\t?key=1".toList
  obtain ⟨hstuck, hspan⟩ := (herror _).mp hscan
  have hlength : 10 = 1 + (written items).length := congrArg Span.column hspan
  exact ⟨items, rest, hlaid, hwritten, hstuck, by omega, hfresh hstuck⟩

end Parser

end Sfz
