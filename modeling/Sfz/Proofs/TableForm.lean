import Sfz.Proofs.TableRules
import Sfz.Proofs.TemplateText

namespace Sfz

structure Row.WellFormed (r : Row) : Prop where
  index : ∀ d ∈ r.index, d.2.min ≤ d.2.max ∧ ∃ l ∈ r.name.toList, l.isUpper = true ∧ d.1.toList = [l]
  name : Template.WellFormed r.name
  bounds : ∀ lo ∈ r.min, ∀ hi ∈ r.max, hi.lt lo = false
  options : r.type = .enum → r.options ≠ []
  spellings : ∀ s ∈ r.spellings, s ∈ Template.spellings
  controller : r.spellings ≠ [] →
    ∃ s ∈ Template.spellings, ∃ l ∈ r.name.toList, l.isUpper = true ∧ s.toList ++ [l] <:+: r.name.toList
  aliases : ∀ name ∈ r.aliases, Template.WellFormed name

structure Table.WellFormed (t : Table) : Prop where
  controllers : t.controllerRange.min ≤ t.controllerRange.max
  distinct : (t.rows.map Row.name).Nodup
  rows : ∀ r ∈ t.rows, r.WellFormed

theorem IndexRange.isInverted_iff {range : IndexRange} : range.isInverted = true ↔ ¬range.min ≤ range.max := by
  rw [isInverted, decide_eq_true_eq, Nat.not_le]

namespace Row

open IndexRange (isInverted_iff)

theorem letter?_eq_some {key : String} {l : Char} : letter? key = some l ↔ key.toList = [l] ∧ l.isUpper = true := by
  unfold letter?
  split
  next c hkey =>
    rw [hkey, Option.ite_none_right_eq_some, Option.some.injEq, List.cons.injEq]
    constructor
    · rintro ⟨hc, rfl⟩
      exact ⟨⟨rfl, rfl⟩, hc⟩
    · rintro ⟨⟨rfl, -⟩, hc⟩
      exact ⟨hc, rfl⟩
  next hkey =>
    constructor
    · exact nofun
    · rintro ⟨hl, -⟩
      exact (hkey l hl).elim

theorem declaredRanges_isOk_iff {name : String} {index : List (String × IndexRange)} :
    (∃ declared, declaredRanges name index = .ok declared ∧
      ∀ d ∈ declared, d.1 ∈ name.toList ∧ d.1.isUpper = true) ↔
      ∀ d ∈ index, d.2.min ≤ d.2.max ∧ ∃ l ∈ name.toList, l.isUpper = true ∧ d.1.toList = [l] := by
  induction index with
  | nil => simp [declaredRanges]
  | cons d rest ih =>
    obtain ⟨key, range⟩ := d
    rw [List.forall_mem_cons, ← ih, declaredRanges]
    cases hl : letter? key with
    | none =>
      constructor
      · rintro ⟨declared, hdeclared, -⟩
        cases hdeclared
      · rintro ⟨⟨-, l, -, hup, hkey⟩, -⟩
        rw [letter?_eq_some.mpr ⟨hkey, hup⟩] at hl
        cases hl
    | some l =>
      obtain ⟨hkey, hup⟩ := letter?_eq_some.mp hl
      by_cases hr : range.isInverted = true
      · simp [hr, isInverted_iff.mp hr]
      · have hle : range.min ≤ range.max := Decidable.not_not.mp (mt isInverted_iff.mpr hr)
        simp only [hr, Bool.false_eq_true, ↓reduceIte, bind_eq_ok, pure_eq_ok]
        constructor
        · rintro ⟨declared, ⟨others, hothers, rfl⟩, hin⟩
          obtain ⟨⟨hmem, -⟩, hrest⟩ := List.forall_mem_cons.mp hin
          exact ⟨⟨hle, l, hmem, hup, hkey⟩, others, hothers, hrest⟩
        · rintro ⟨⟨-, m, hmem, -, hm⟩, others, hothers, hrest⟩
          obtain ⟨rfl, -⟩ := List.cons.inj (hkey.symm.trans hm)
          exact ⟨_, ⟨others, hothers, rfl⟩, List.forall_mem_cons.mpr ⟨⟨hmem, hup⟩, hrest⟩⟩

theorem checkBounds_eq_ok_iff {r : Row} :
    r.checkBounds = .ok () ↔ ∀ lo ∈ r.min, ∀ hi ∈ r.max, hi.lt lo = false := by
  unfold checkBounds
  cases r.min with
  | none => simp
  | some lo =>
    cases r.max with
    | none => simp
    | some hi => cases h : hi.lt lo <;> simp [h]

theorem valueType_isOk_iff {r : Row} : (∃ type, r.valueType = .ok type) ↔ (r.type = .enum → r.options ≠ []) := by
  unfold valueType
  cases r.type with
  | enum => cases r.options <;> simp
  | _ => simp

theorem checkSpellings_eq_ok_iff {r : Row} :
    r.checkSpellings = .ok () ↔ ∀ s ∈ r.spellings, s ∈ Template.spellings := by
  have hnone : (∀ s ∈ r.spellings, s ∈ Template.spellings) ↔
      r.spellings.find? (fun s => !Template.spellings.contains s) = none := by
    simp
  rw [hnone, checkSpellings]
  cases r.spellings.find? (fun s => !Template.spellings.contains s) <;> simp

theorem patterns_isOk_iff {t : Template} {spellings : List String} {isAlias : Bool} :
    (∃ ps, patterns t spellings isAlias = .ok ps) ↔
      (isAlias = false → spellings ≠ [] → t.controllerSlot?.isSome = true) := by
  unfold patterns
  cases spellings with
  | nil => simp
  | cons s rest =>
    cases t.controllerSlot? with
    | some c => simp
    | none => cases isAlias <;> simp

theorem aliasPatterns_isOk_iff {ranges : SlotRanges} (hranges : ∀ d ∈ ranges.declared, d.1.isUpper = true)
    {spellings aliases : List String} :
    (∃ ps, aliasPatterns ranges spellings aliases = .ok ps) ↔ ∀ name ∈ aliases, Template.WellFormed name := by
  induction aliases with
  | nil => simp [aliasPatterns]
  | cons name rest ih =>
    have hname : (∃ t, Template.compile name (aliasRanges ranges name) = .ok t) ↔ Template.WellFormed name := by
      rw [Template.compile_isOk_iff, and_iff_left_iff_imp]
      intro _ d hd
      obtain ⟨hd, hmem⟩ := List.mem_filter.mp hd
      exact ⟨by simpa using hmem, hranges d hd⟩
    rw [List.forall_mem_cons, ← ih, ← hname]
    simp only [aliasPatterns, compileTemplate, bind_eq_ok, pure_eq_ok, mapError_eq_ok]
    constructor
    · rintro ⟨ps, t, ht, own, -, others, hothers, -⟩
      exact ⟨⟨t, ht⟩, others, hothers⟩
    · rintro ⟨⟨t, ht⟩, others, hothers⟩
      have hpatterns : ∃ own, patterns t spellings true = .ok own := patterns_isOk_iff.mpr (by simp)
      obtain ⟨own, hown⟩ := hpatterns
      exact ⟨_, t, ht, own, hown, others, hothers, rfl⟩

theorem compile_isOk_iff {controller : IndexRange} {r : Row} :
    (∃ c, r.compile controller = .ok c) ↔ r.WellFormed := by
  simp only [compile, compileTemplate, bind_eq_ok, pure_eq_ok, mapError_eq_ok]
  constructor
  · rintro ⟨c, declared, hdeclared, t, ht, ⟨⟩, hbounds, type, htype, ⟨⟩, hspellings, own, hown, others, hothers, -⟩
    obtain ⟨hname, hletters⟩ := Template.compile_isOk_iff.mp ⟨t, ht⟩
    have hupper : ∀ d ∈ declared, d.1.isUpper = true := fun d hd => (hletters d hd).2
    refine ⟨declaredRanges_isOk_iff.mp ⟨declared, hdeclared, hletters⟩, hname, checkBounds_eq_ok_iff.mp hbounds,
      valueType_isOk_iff.mp ⟨type, htype⟩, checkSpellings_eq_ok_iff.mp hspellings, ?_,
      (aliasPatterns_isOk_iff hupper).mp ⟨others, hothers⟩⟩
    intro hne
    exact (Template.controllerSlot?_isSome ht).mp (patterns_isOk_iff.mp ⟨own, hown⟩ rfl hne)
  · intro h
    obtain ⟨declared, hdeclared, hletters⟩ := declaredRanges_isOk_iff.mpr h.index
    have hname : ∃ t, Template.compile r.name ⟨declared, controller⟩ = .ok t :=
      Template.compile_isOk_iff.mpr ⟨h.name, hletters⟩
    obtain ⟨t, ht⟩ := hname
    obtain ⟨type, htype⟩ := valueType_isOk_iff.mpr h.options
    have hpatterns : ∃ own, patterns t r.spellings false = .ok own :=
      patterns_isOk_iff.mpr fun _ hne => (Template.controllerSlot?_isSome ht).mpr (h.controller hne)
    obtain ⟨own, hown⟩ := hpatterns
    have haliases : ∃ others, aliasPatterns ⟨declared, controller⟩ r.spellings r.aliases = .ok others :=
      (aliasPatterns_isOk_iff fun d hd => (hletters d hd).2).mpr h.aliases
    obtain ⟨others, hothers⟩ := haliases
    exact ⟨_, declared, hdeclared, t, ht, (), checkBounds_eq_ok_iff.mpr h.bounds, type, htype, (),
      checkSpellings_eq_ok_iff.mpr h.spellings, own, hown, others, hothers, rfl⟩

end Row

namespace Table

theorem compileRows_isOk_iff {controller : IndexRange} {seen : List String} {rows : List Row} :
    (∃ c, compileRows controller seen rows = .ok c) ↔
      (∀ r ∈ rows, r.name ∉ seen ∧ r.WellFormed) ∧ (rows.map Row.name).Nodup := by
  induction rows generalizing seen with
  | nil => simp [compileRows]
  | cons r rest ih =>
    rw [List.forall_mem_cons, List.map_cons, List.nodup_cons, compileRows]
    by_cases hseen : r.name ∈ seen
    · simp [hseen]
    · simp only [hseen, List.contains_eq_mem, decide_false, Bool.false_eq_true, ↓reduceIte, bind_eq_ok, pure_eq_ok]
      constructor
      · rintro ⟨-, c, hc, others, hothers, -⟩
        obtain ⟨hrest, hnodup⟩ := ih.mp ⟨others, hothers⟩
        refine ⟨⟨⟨not_false, Row.compile_isOk_iff.mp ⟨c, hc⟩⟩, ?_⟩, ?_, hnodup⟩
        · intro q hq
          exact ⟨fun h => (hrest q hq).1 (List.mem_cons_of_mem _ h), (hrest q hq).2⟩
        · intro hmem
          obtain ⟨q, hq, hname⟩ := List.mem_map.mp hmem
          exact (hrest q hq).1 (hname ▸ List.mem_cons_self)
      · rintro ⟨⟨⟨-, hwf⟩, hrest⟩, hfresh, hnodup⟩
        obtain ⟨c, hc⟩ := Row.compile_isOk_iff.mpr hwf
        have hothers : ∃ others, compileRows controller (r.name :: seen) rest = .ok others := by
          refine ih.mpr ⟨fun q hq => ⟨?_, (hrest q hq).2⟩, hnodup⟩
          rw [List.mem_cons, not_or]
          exact ⟨fun h => hfresh (h ▸ List.mem_map_of_mem hq), (hrest q hq).1⟩
        obtain ⟨others, hothers⟩ := hothers
        exact ⟨_, c, hc, others, hothers, rfl⟩

theorem compileRows_eq_error {controller : IndexRange} {seen : List String} {rows : List Row} {e : TableError}
    (h : compileRows controller seen rows = .error e) :
    ∃ before row after, rows = before ++ row :: after ∧
      (∃ c, compileRows controller seen before = .ok c) ∧
      compileRows controller seen (before ++ [row]) = .error e ∧
      (row.name ∈ seen ++ before.map Row.name ∧ e = .duplicate row.name ∨
        row.name ∉ seen ++ before.map Row.name ∧ row.compile controller = .error e) := by
  induction rows generalizing seen with
  | nil => cases h
  | cons r rest ih =>
    rw [compileRows] at h
    split at h
    next hseen =>
      cases h
      refine ⟨[], r, rest, rfl, ⟨[], rfl⟩, ?_, .inl ⟨by simpa using hseen, rfl⟩⟩
      rw [List.nil_append, compileRows, if_pos hseen]
    next hseen =>
      rcases bind_eq_error.mp h with hr | ⟨c, hc, h⟩
      · refine ⟨[], r, rest, rfl, ⟨[], rfl⟩, ?_, .inr ⟨by simpa using hseen, hr⟩⟩
        rw [List.nil_append, compileRows, if_neg hseen, hr]
        rfl
      · rcases bind_eq_error.mp h with hrest | ⟨others, -, h⟩
        · obtain ⟨before, row, after, rfl, ⟨bs, hbs⟩, hcut, hwhy⟩ := ih hrest
          refine ⟨r :: before, row, after, rfl, ⟨c :: bs, ?_⟩, ?_, ?_⟩
          · rw [compileRows, if_neg hseen, hc, hbs]
            rfl
          · rw [List.cons_append, compileRows, if_neg hseen, hc, hcut]
            rfl
          · have hnames : row.name ∈ seen ++ (r :: before).map Row.name ↔
                row.name ∈ (r.name :: seen) ++ before.map Row.name := by
              simp [or_left_comm]
            rw [hnames]
            exact hwhy
        · cases h

theorem compile_of_le (t : Table) (h : t.controllerRange.min ≤ t.controllerRange.max) :
    t.compile = compileRows t.controllerRange [] t.rows := by
  rw [compile, if_neg (mt IndexRange.isInverted_iff.mp (not_not.mpr h))]

theorem compile_isOk_iff {t : Table} : (∃ c, t.compile = .ok c) ↔ t.WellFormed := by
  by_cases hle : t.controllerRange.min ≤ t.controllerRange.max
  · rw [compile_of_le t hle, compileRows_isOk_iff]
    simp only [List.not_mem_nil, not_false_eq_true, true_and]
    constructor
    · rintro ⟨hrows, hnodup⟩
      exact ⟨hle, hnodup, hrows⟩
    · intro h
      exact ⟨h.rows, h.distinct⟩
  · rw [compile, if_pos (IndexRange.isInverted_iff.mpr hle)]
    constructor
    · rintro ⟨c, hc⟩
      cases hc
    · intro h
      exact (hle h.controllers).elim

end Table

namespace Registry

theorem build_isOk_iff {t : Table} : (∃ r, build t = .ok r) ↔ t.WellFormed := by
  simp only [build, map_eq_ok, ← Table.compile_isOk_iff]
  constructor
  · rintro ⟨r, c, hc, -⟩
    exact ⟨c, hc⟩
  · rintro ⟨c, hc⟩
    exact ⟨_, c, hc, rfl⟩

theorem build_eq_error_iff (t : Table) (h : t.controllerRange.min ≤ t.controllerRange.max) {e : TableError} :
    build t = .error e ↔ Table.compileRows t.controllerRange [] t.rows = .error e := by
  rw [build, Table.compile_of_le t h]
  cases Table.compileRows t.controllerRange [] t.rows <;> simp [Except.map]

/-- A table is accepted exactly if it is well-formed, and gives its rows as entries. What is reported of any other
table is settled by its rows up to the first faulty one. -/
theorem build_accepts_wellFormed (t : Table) :
    ((∃ r, build t = .ok r) ↔ t.WellFormed) ∧
      (∀ r, build t = .ok r → r.entries = t.rows.map Row.entry) ∧
      ∀ e, build t = .error e → t.controllerRange.min ≤ t.controllerRange.max →
        ∃ before row after, t.rows = before ++ row :: after ∧
          ({ t with rows := before } : Table).WellFormed ∧
          (row.name ∈ before.map Row.name ∨ ¬row.WellFormed) ∧
          build { t with rows := before ++ [row] } = .error e ∧
          (row.name ∈ before.map Row.name → e = .duplicate row.name) ∧
          (row.name ∉ before.map Row.name → build { t with rows := [row] } = .error e) := by
  refine ⟨build_isOk_iff, ?_, ?_⟩
  · intro r h
    obtain ⟨compiled, hcompile, rfl⟩ := map_eq_ok.mp h
    exact Table.entries_eq (Table.compile_eq_ok hcompile)
  · intro e h hle
    have hrows : Table.compileRows t.controllerRange [] t.rows = .error e := (build_eq_error_iff t hle).mp h
    obtain ⟨before, row, after, hsplit, hbefore, hcut, hwhy⟩ := Table.compileRows_eq_error hrows
    have hwf : ({ t with rows := before } : Table).WellFormed := by
      rw [← Table.compile_isOk_iff, Table.compile_of_le { t with rows := before } hle]
      exact hbefore
    have hcut : build { t with rows := before ++ [row] } = .error e :=
      (build_eq_error_iff { t with rows := before ++ [row] } hle).mpr hcut
    rcases hwhy with ⟨hname, he⟩ | ⟨hfresh, hrow⟩
    · exact ⟨before, row, after, hsplit, hwf, .inl hname, hcut, fun _ => he, fun hfresh => absurd hname hfresh⟩
    · have hbad : ¬row.WellFormed := by
        intro hgood
        obtain ⟨c, hc⟩ := Row.compile_isOk_iff.mpr hgood
        rw [hrow] at hc
        cases hc
      refine ⟨before, row, after, hsplit, hwf, .inr hbad, hcut, fun hname => absurd hname hfresh, fun _ => ?_⟩
      rw [build_eq_error_iff { t with rows := [row] } hle, Table.compileRows, if_neg (by simp), hrow]
      rfl

theorem build_accepts_wellFormed_bands :
    let band : Row :=
      { name := "eqN_bw_onccX", type := .float, index := [("N", ⟨1, 3⟩)], spellings := ["_cc"],
        aliases := ["eqN_bwccX", "bandwidth"] }
    let trigger : Row := { name := "trigger", type := .enum, options := ["attack", "release"] }
    let rows : List Row := [band, trigger, { name := "trigger", type := .enum }, { name := "loN1" }]
    (∃ r, build { rows := [band, trigger] } = .ok r ∧ r.entries = [band.entry, trigger.entry]) ∧
      build { rows := rows } = .error (.duplicate "trigger") ∧
      ∃ before row after, rows = before ++ row :: after ∧
        (row.name ∈ before.map Row.name ∨ ¬row.WellFormed) ∧
        build { rows := before ++ [row] } = .error (.duplicate "trigger") := by
  intro band trigger rows
  constructor
  · have hs : (build { rows := [band, trigger] }).toOption.isSome = true := by decide
    cases h : build { rows := [band, trigger] } with
    | error e => simp [h, Except.toOption] at hs
    | ok r => exact ⟨r, rfl, (build_accepts_wellFormed _).2.1 r h⟩
  · have hrange : (0 : Nat) ≤ 255 := by decide
    have h : build { rows := rows } = .error (.duplicate "trigger") :=
      (build_eq_error_iff { rows := rows } hrange).mpr (by decide)
    obtain ⟨before, row, after, hsplit, -, hbad, hcut, -⟩ := (build_accepts_wellFormed _).2.2 _ h hrange
    exact ⟨h, before, row, after, hsplit, hbad, hcut⟩

end Registry

end Sfz
