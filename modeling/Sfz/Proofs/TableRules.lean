import Sfz.Opcode.Registry
import Sfz.Proofs.Outcome
import Sfz.Proofs.TemplateLanguage

namespace Sfz

structure Listed where
  entry : Entry
  tier : Nat
  kind : MatchKind
  template : Template

namespace Listed

def hit? (name : String) (p : Listed) : Option (Nat × Match) :=
  (p.template.match? name).map (fun slots => (p.tier, ⟨p.entry, p.kind, slots⟩))

def family (entry : Entry) (tier : Nat) (kind : MatchKind → MatchKind) (spellings : List String)
    (t : Template) : List Listed :=
  (if t.isLiteral then ⟨entry, tier, kind .exact, t⟩ else ⟨entry, tier + 1, kind .template, t⟩) ::
    match t.controllerSlot? with
    | some c =>
      (spellings.filter (· ≠ c.spelling)).map (fun s => ⟨entry, tier + 2, kind .variant, c.respell s⟩)
    | none => []

end Listed

namespace Row

def entryType (r : Row) : ValueType :=
  match r.type with
  | .integer => .integer
  | .float => .float
  | .enum => .enum r.options
  | .string => .string
  | .note => .note
  | .path => .path

def entry (r : Row) : Entry :=
  ⟨r.name, r.entryType, ⟨r.min, r.max⟩, r.aliases, r.spellings, r.modulates, r.version⟩

def slotRanges (controller : IndexRange) (r : Row) : SlotRanges :=
  ⟨r.index.filterMap (fun d => (letter? d.1).map (fun l => (l, d.2))), controller⟩

def template? (text : String) (ranges : SlotRanges) : List Template :=
  (Template.compile text ranges).toOption.toList

def listed (controller : IndexRange) (r : Row) : List Listed :=
  (template? r.name (r.slotRanges controller)).flatMap (Listed.family r.entry 0 id r.spellings) ++
    r.aliases.flatMap (fun name =>
      (template? name (aliasRanges (r.slotRanges controller) name)).flatMap
        (Listed.family r.entry 3 (fun _ => .alias) r.spellings))

end Row

def Table.listed (t : Table) : List Listed :=
  t.rows.flatMap (Row.listed t.controllerRange)

def Rule.hit? (name : String) (r : Rule) : Option (Nat × Match) :=
  (r.match? name).map (fun m => (r.tier, m))

namespace Template

theorem pieces_of_literal {cs : List Char} (h : ∀ p ∈ pieces cs, ∃ t, p = .literal t) :
    pieces cs = [] ∧ cs = [] ∨ pieces cs = [.literal cs] := by
  fun_induction pieces cs with
  | case1 => exact .inl ⟨rfl, rfl⟩
  | case2 cs d rest hp hd ih => simp at h
  | case3 c cs hc d rest hp hd ih => simp at h
  | case4 c cs hc hs ih => simp at h
  | case5 c cs hc t rest hp ih =>
    obtain ⟨-, hrest⟩ := List.forall_mem_cons.mp h
    rw [hp] at ih
    rcases ih (List.forall_mem_cons.mpr ⟨⟨t, rfl⟩, hrest⟩) with ⟨he, -⟩ | he
    · simp at he
    · obtain ⟨rfl, rfl⟩ : t = cs ∧ rest = [] := by simpa using he
      exact .inr rfl
  | case6 c cs hc hl ih =>
    obtain ⟨-, hrest⟩ := List.forall_mem_cons.mp h
    rcases ih hrest with ⟨he, rfl⟩ | he
    · exact .inr (by rw [he])
    · exact absurd he (hl cs [])

theorem matchSegments?_literal (t name : List Char) :
    matchSegments? [.literal t] name = if t = name then some [] else none := by
  have he : matchSegments? [.literal t] name =
      (t.isPrefixOf? name).bind (fun rest => if rest.isEmpty then some [] else none) := rfl
  rw [he]
  by_cases hn : t = name
  · subst hn
    have hp : t.isPrefixOf? t = some [] := List.isPrefixOf?_eq_some_iff_append_eq.mpr (by simp)
    simp [hp]
  · rw [if_neg hn, Option.bind_eq_none_iff]
    intro rest hr
    have hr := List.append_eq_of_isPrefixOf?_eq_some hr
    cases rest with
    | nil => exact absurd (by simpa using hr) hn
    | cons c cs => simp

theorem match?_of_isLiteral {text : String} {ranges : SlotRanges} {t : Template}
    (h : compile text ranges = .ok t) (hl : t.isLiteral = true) (name : String) :
    t.match? name = if t.text = name then some [] else none := by
  obtain ⟨rfl, -⟩ := compile_eq_ok h
  have hp := map_piece_withRanges ranges false (pieces text.toList)
  have hall : ∀ p ∈ pieces text.toList, ∃ u, p = .literal u := by
    rw [← hp, List.forall_mem_map]
    intro s hs
    cases s with
    | literal u => exact ⟨u, rfl⟩
    | slot l r => simpa using List.all_eq_true.mp hl _ hs
  have htext : text = name ↔ text.toList = name.toList := String.toList_inj.symm
  simp only [match?, htext]
  rcases pieces_of_literal hall with ⟨he, htl⟩ | he
  · rw [he, htl]
    cases hn : name.toList <;> rfl
  · rw [he]
    exact matchSegments?_literal text.toList name.toList

end Template

namespace Row

theorem declaredRanges_eq_ok {name : String} {index : List (String × IndexRange)}
    {declared : List (Char × IndexRange)} (h : declaredRanges name index = .ok declared) :
    declared = index.filterMap (fun d => (letter? d.1).map (fun l => (l, d.2))) := by
  induction index generalizing declared with
  | nil =>
    cases h
    rfl
  | cons d rest ih =>
    obtain ⟨key, range⟩ := d
    cases hk : letter? key with
    | none => simp [declaredRanges, hk] at h
    | some l =>
      by_cases hr : range.isInverted = true
      · simp [declaredRanges, hk, hr] at h
      · simp only [declaredRanges, hk, hr, Bool.false_eq_true, ↓reduceIte, bind_eq_ok, pure_eq_ok] at h
        obtain ⟨others, ho, rfl⟩ := h
        simp [hk, ih ho]

theorem valueType_eq_ok {r : Row} {type : ValueType} (h : r.valueType = .ok type) :
    type = r.entryType := by
  unfold valueType at h
  unfold entryType
  cases ht : r.type <;> simp only [ht] at h ⊢
  case enum =>
    split at h
    · cases h
    · cases h
      rfl
  all_goals
    cases h
    rfl

theorem patterns_eq_ok {t : Template} {spellings : List String} {isAlias : Bool} {ps : List Pattern}
    (h : patterns t spellings isAlias = .ok ps) :
    ps = basePattern t :: (t.controllerSlot?.map (fun c => variants c spellings)).getD [] := by
  unfold patterns at h
  cases hc : t.controllerSlot? with
  | none =>
    simp only [hc] at h
    split at h
    · cases h
      rfl
    · split at h
      · cases h
        rfl
      · cases h
  | some c =>
    simp only [hc] at h
    split at h
    next he =>
      cases h
      simp [variants, List.isEmpty_iff.mp he]
    next =>
      cases h
      rfl

theorem hit?_basePattern {text : String} {ranges : SlotRanges} {t : Template}
    (h : Template.compile text ranges = .ok t) (entry : Entry) (isAlias : Bool) (name : String) :
    Rule.hit? name ⟨entry, isAlias, basePattern t⟩ =
      (t.match? name).map (fun slots =>
        ((if isAlias then 3 else 0) + (if t.isLiteral then 0 else 1),
          ⟨entry, if isAlias then .alias else if t.isLiteral then .exact else .template, slots⟩)) := by
  by_cases hl : t.isLiteral = true
  · simp only [basePattern, hl, ↓reduceIte, Rule.hit?, Rule.match?, Option.map_map,
      Template.match?_of_isLiteral h hl name]
    rfl
  · simp only [basePattern, hl, Bool.false_eq_true, ↓reduceIte, Rule.hit?, Rule.match?, Option.map_map]
    rfl

theorem hit?_patterns {text : String} {ranges : SlotRanges} {t : Template} {spellings : List String}
    {isAlias : Bool} {ps : List Pattern} (h : Template.compile text ranges = .ok t)
    (hp : patterns t spellings isAlias = .ok ps) (entry : Entry) (name : String) :
    ps.map (fun p => Rule.hit? name ⟨entry, isAlias, p⟩) =
      (Listed.family entry (if isAlias then 3 else 0) (if isAlias then fun _ => .alias else id)
        spellings t).map (Listed.hit? name) := by
  rw [patterns_eq_ok hp, Listed.family, List.map_cons, List.map_cons, hit?_basePattern h]
  congr 1
  · cases isAlias <;> cases hl : t.isLiteral <;> rfl
  · cases t.controllerSlot? with
    | none => rfl
    | some c =>
      simp only [Option.map_some, Option.getD_some, variants, List.map_map]
      apply List.map_congr_left
      intro s _
      simp only [Function.comp_apply, Rule.hit?, Rule.match?, Option.map_map]
      cases isAlias <;> rfl

theorem hit?_aliasPatterns {ranges : SlotRanges} {spellings aliases : List String} {ps : List Pattern}
    (h : aliasPatterns ranges spellings aliases = .ok ps) (entry : Entry) (name : String) :
    ps.map (fun p => Rule.hit? name ⟨entry, true, p⟩) =
      (aliases.flatMap (fun text => (template? text (aliasRanges ranges text)).flatMap
        (Listed.family entry 3 (fun _ => .alias) spellings))).map (Listed.hit? name) := by
  induction aliases generalizing ps with
  | nil =>
    cases h
    rfl
  | cons text rest ih =>
    simp only [aliasPatterns, compileTemplate, bind_eq_ok, pure_eq_ok, mapError_eq_ok] at h
    obtain ⟨t, ht, own, ho, others, hr, rfl⟩ := h
    have htemplate : template? text (aliasRanges ranges text) = [t] := by simp [template?, ht, Except.toOption]
    rw [List.map_append, List.flatMap_cons, List.map_append, hit?_patterns ht ho entry name, ih hr,
      htemplate, List.flatMap_singleton]
    rfl

theorem compile_eq_ok {controller : IndexRange} {r : Row} {c : Entry × List Rule}
    (h : r.compile controller = .ok c) :
    c.1 = r.entry ∧ (∀ rule ∈ c.2, rule.entry = r.entry) ∧
      ∀ name, c.2.map (Rule.hit? name) = (r.listed controller).map (Listed.hit? name) := by
  simp only [compile, compileTemplate, bind_eq_ok, pure_eq_ok, mapError_eq_ok] at h
  obtain ⟨declared, hd, t, ht, -, -, type, hv, -, -, own, ho, others, ha, rfl⟩ := h
  have hentry : (⟨r.name, type, ⟨r.min, r.max⟩, r.aliases, r.spellings, r.modulates, r.version⟩ : Entry) =
      r.entry := by rw [valueType_eq_ok hv, entry]
  have hranges : (⟨declared, controller⟩ : SlotRanges) = r.slotRanges controller := by
    rw [declaredRanges_eq_ok hd, slotRanges]
  rw [hentry]
  rw [hranges] at ht ha
  refine ⟨rfl, ?_, ?_⟩
  · intro rule hm
    rcases List.mem_append.mp hm with hm | hm
    · obtain ⟨p, -, rfl⟩ := List.mem_map.mp hm
      rfl
    · obtain ⟨p, -, rfl⟩ := List.mem_map.mp hm
      rfl
  · intro name
    have htemplate : template? r.name (r.slotRanges controller) = [t] := by
      simp [template?, ht, Except.toOption]
    have hown := hit?_patterns ht ho r.entry name
    have haliases := hit?_aliasPatterns ha r.entry name
    rw [listed, htemplate, List.flatMap_singleton, List.map_append, List.map_append, List.map_map,
      List.map_map, ← haliases]
    exact congrArg (· ++ _) hown

end Row

namespace Table

theorem compileRows_eq_ok {controller : IndexRange} {seen : List String} {rows : List Row}
    {compiled : List (Entry × List Rule)} (h : compileRows controller seen rows = .ok compiled) :
    rows.Forall₂ (fun r c => r.compile controller = .ok c) compiled := by
  induction rows generalizing seen compiled with
  | nil =>
    cases h
    exact .nil
  | cons r rest ih =>
    unfold compileRows at h
    split at h
    · cases h
    · simp only [bind_eq_ok, pure_eq_ok] at h
      obtain ⟨c, hc, others, ho, rfl⟩ := h
      exact .cons hc (ih ho)

theorem compile_eq_ok {t : Table} {compiled : List (Entry × List Rule)} (h : t.compile = .ok compiled) :
    t.rows.Forall₂ (fun r c => r.compile t.controllerRange = .ok c) compiled := by
  simp only [compile] at h
  split at h
  · cases h
  · exact compileRows_eq_ok h

section Compiled

variable {controller : IndexRange} {rows : List Row} {compiled : List (Entry × List Rule)}

theorem entries_eq (h : rows.Forall₂ (fun r c => r.compile controller = .ok c) compiled) :
    compiled.map Prod.fst = rows.map Row.entry := by
  induction h with
  | nil => rfl
  | cons hc _ ih => rw [List.map_cons, List.map_cons, ih, (Row.compile_eq_ok hc).1]

theorem entry_mem (h : rows.Forall₂ (fun r c => r.compile controller = .ok c) compiled) :
    ∀ rule ∈ compiled.flatMap Prod.snd, rule.entry ∈ compiled.map Prod.fst := by
  induction h with
  | nil => simp
  | cons hc _ ih =>
    obtain ⟨hentry, hrules, -⟩ := Row.compile_eq_ok hc
    intro rule hr
    rw [List.flatMap_cons] at hr
    rcases List.mem_append.mp hr with hr | hr
    · rw [hrules rule hr, ← hentry]
      exact List.mem_cons_self
    · exact List.mem_cons_of_mem _ (ih rule hr)

theorem hits_eq (h : rows.Forall₂ (fun r c => r.compile controller = .ok c) compiled) (name : String) :
    (compiled.flatMap Prod.snd).map (Rule.hit? name) =
      (rows.flatMap (Row.listed controller)).map (Listed.hit? name) := by
  induction h with
  | nil => rfl
  | cons hc _ ih =>
    rw [List.flatMap_cons, List.flatMap_cons, List.map_append, List.map_append, ih,
      (Row.compile_eq_ok hc).2.2 name]

end Compiled

end Table

end Sfz
