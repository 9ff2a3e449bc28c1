import Mathlib.Data.List.Find
import Sfz.Proofs.TableRules

namespace Sfz

section Least

variable {α : Type}

def leads (hits : List (Nat × α)) (h : Nat × α) : Bool :=
  hits.all (fun g => h.1 ≤ g.1)

def least (hits : List (Nat × α)) : Option (Nat × α) :=
  hits.find? (leads hits)

theorem leads_iff {hits : List (Nat × α)} {h : Nat × α} :
    leads hits h = true ↔ ∀ g ∈ hits, h.1 ≤ g.1 := by
  simp [leads]

theorem least_cons_cons_of_le {a b : Nat × α} (h : a.1 ≤ b.1) (rest : List (Nat × α)) :
    least (a :: b :: rest) = least (a :: rest) := by
  have hleads : leads (a :: b :: rest) = leads (a :: rest) := by
    funext x
    rw [Bool.eq_iff_iff]
    simp only [leads_iff, List.forall_mem_cons]
    exact ⟨fun hx => ⟨hx.1, hx.2.2⟩, fun hx => ⟨hx.1, hx.1.trans h, hx.2⟩⟩
  rw [least, hleads, least]
  by_cases ha : leads (a :: rest) a = true
  · rw [List.find?_cons_of_pos ha, List.find?_cons_of_pos ha]
  · have hb : ¬ leads (a :: rest) b = true := by
      intro hb
      rw [leads_iff] at ha hb
      exact ha (fun g hg => h.trans (hb g hg))
    rw [List.find?_cons_of_neg ha, List.find?_cons_of_neg hb, List.find?_cons_of_neg ha]

theorem least_cons_cons_of_lt {a b : Nat × α} (h : b.1 < a.1) (rest : List (Nat × α)) :
    least (a :: b :: rest) = least (b :: rest) := by
  have hleads : leads (a :: b :: rest) = leads (b :: rest) := by
    funext x
    rw [Bool.eq_iff_iff]
    simp only [leads_iff, List.forall_mem_cons]
    exact ⟨fun hx => hx.2, fun hx => ⟨hx.1.trans h.le, hx⟩⟩
  have ha : ¬ leads (b :: rest) a = true := by
    intro ha
    have hab := leads_iff.mp ha b (by simp)
    omega
  rw [least, hleads, List.find?_cons_of_neg ha, least]

theorem least_eq_none_iff {hits : List (Nat × α)} : least hits = none ↔ hits = [] := by
  constructor
  · intro h
    cases hits with
    | nil => rfl
    | cons a rest =>
      exfalso
      induction rest generalizing a with
      | nil => simp [least, leads] at h
      | cons b rest ih =>
        rcases Nat.lt_or_ge b.1 a.1 with hlt | hle
        · exact ih b (least_cons_cons_of_lt hlt rest ▸ h)
        · exact ih a (least_cons_cons_of_le hle rest ▸ h)
  · rintro rfl
    rfl

theorem least_filter_append (p : Nat → Bool) (hits : List (Nat × α)) :
    least (hits.filter (fun h => p h.1) ++ hits.filter (fun h => !p h.1)) = least hits := by
  have hleads : leads (hits.filter (fun h => p h.1) ++ hits.filter (fun h => !p h.1)) = leads hits := by
    funext x
    exact (List.filter_append_perm (fun h : Nat × α => p h.1) hits).all_eq
  rw [least, hleads, least, List.find?_append, List.find?_filter, List.find?_filter]
  cases hx : hits.find? (leads hits) with
  | none =>
    have hnone (q : Nat × α → Bool) : hits.find? (fun x => q x ∧ leads hits x) = none := by
      rw [List.find?_eq_none] at hx ⊢
      intro y hy hq
      exact hx y hy (of_decide_eq_true hq).2
    rw [hnone, hnone]
    rfl
  | some x =>
    have hmem := List.mem_of_find?_eq_some hx
    have hmin := leads_iff.mp (List.find?_some hx)
    -- the hits of the least number are all in one group, and the other group has none of them
    have hsame : ∀ y ∈ hits, leads hits y = true → p y.1 = p x.1 := by
      intro y hy hq
      rw [Nat.le_antisymm (leads_iff.mp hq x hmem) (hmin y hy)]
    have hgroup (q : Nat × α → Bool) (b : Bool) (hq : ∀ y ∈ hits, leads hits y = true → q y = b) :
        hits.find? (fun y => q y ∧ leads hits y) = if b then some x else none := by
      cases b with
      | true =>
        rw [if_pos rfl, ← hx]
        apply List.find?_congr
        intro y hy
        cases hb : leads hits y with
        | false => simp
        | true => simp [hq y hy hb]
      | false =>
        rw [if_neg Bool.false_ne_true, List.find?_eq_none]
        intro y hy hd
        obtain ⟨hqy, hb⟩ := of_decide_eq_true hd
        exact Bool.false_ne_true ((hq y hy hb).symm.trans hqy)
    rw [hgroup _ (p x.1) hsame, hgroup _ (!p x.1) (fun y hy hb => by rw [hsame y hy hb])]
    cases p x.1 <;> rfl

end Least

namespace Rule

/-- Passing over rules that are too late to win loses nothing. -/
theorem bestFrom_eq_least (name : String) (best : Option (Nat × Match)) (rules : List Rule) :
    bestFrom name best rules = least (best.toList ++ rules.filterMap (hit? name)) := by
  induction rules generalizing best with
  | nil => cases best <;> simp [bestFrom, least, leads]
  | cons r rest ih =>
    cases hm : r.match? name with
    | none =>
      have hh : hit? name r = none := by rw [hit?, hm]; rfl
      simp only [bestFrom, hm, List.filterMap_cons_none hh, ite_self, ih]
    | some m =>
      have hh : hit? name r = some (r.tier, m) := by rw [hit?, hm]; rfl
      simp only [bestFrom, hm, List.filterMap_cons_some hh, ih]
      cases best with
      | none => rfl
      | some b =>
        by_cases hb : b.1 ≤ r.tier
        · simp only [Option.any_some, hb, decide_true, ↓reduceIte]
          exact (least_cons_cons_of_le hb _).symm
        · simp only [Option.any_some, hb, decide_false, Bool.false_eq_true, ↓reduceIte]
          exact (least_cons_cons_of_lt (Nat.not_le.mp hb) _).symm

theorem best?_eq_least (name : String) (rules : List Rule) :
    best? name rules = (least (rules.filterMap (hit? name))).map Prod.snd := by
  rw [best?, bestFrom_eq_least]
  rfl

def isExactTier (n : Nat) : Bool :=
  n % 3 == 0

theorem indexed_of_match? {r : Rule} {name : String} {m : Match} (h : r.match? name = some m) :
    decide (r.exactKey? = some name) = isExactTier r.tier ∧
      decide (r.shapeKey? = some (String.ofList (Template.shapeOf name.toList))) =
        !isExactTier r.tier := by
  obtain ⟨slots, hp, -⟩ := Option.map_eq_some_iff.mp h
  obtain ⟨entry, isAlias, pattern⟩ := r
  cases pattern with
  | exact text =>
    have ht : text = name := (Option.ite_none_right_eq_some.mp hp).1
    subst ht
    cases isAlias <;> simp [exactKey?, shapeKey?, isExactTier, tier, Pattern.tier]
  | template t =>
    have hs := Template.shapeOf_eq_shape hp
    cases isAlias <;> simp [exactKey?, shapeKey?, hs, isExactTier, tier, Pattern.tier]
  | variant t =>
    have hs := Template.shapeOf_eq_shape hp
    cases isAlias <;> simp [exactKey?, shapeKey?, hs, isExactTier, tier, Pattern.tier]

theorem filterMap_hit?_filter {p : Rule → Bool} {q : Nat → Bool} {name : String}
    (h : ∀ r m, match? r name = some m → p r = q r.tier) (rules : List Rule) :
    (rules.filter p).filterMap (hit? name) = (rules.filterMap (hit? name)).filter (fun x => q x.1) := by
  induction rules with
  | nil => rfl
  | cons r rest ih =>
    cases hm : r.match? name with
    | none =>
      have hh : hit? name r = none := by rw [hit?, hm]; rfl
      rw [List.filterMap_cons_none hh, ← ih, List.filter_cons]
      split
      · exact List.filterMap_cons_none hh
      · rfl
    | some m =>
      have hh : hit? name r = some (r.tier, m) := by rw [hit?, hm]; rfl
      rw [List.filterMap_cons_some hh, List.filter_cons, List.filter_cons, h r m hm]
      cases hq : q r.tier with
      | false => simpa using ih
      | true => simpa [hh] using ih

theorem hits_of_text (name : String) (rules : List Rule) :
    (rules.filter (fun r => r.exactKey? = some name)).filterMap (hit? name) =
      (rules.filterMap (hit? name)).filter (fun h => isExactTier h.1) :=
  filterMap_hit?_filter (fun _ _ hm => (indexed_of_match? hm).1) rules

theorem hits_of_shape (name : String) (rules : List Rule) :
    (rules.filter (fun r =>
        r.shapeKey? = some (String.ofList (Template.shapeOf name.toList)))).filterMap (hit? name) =
      (rules.filterMap (hit? name)).filter (fun h => !isExactTier h.1) :=
  filterMap_hit?_filter (q := fun n => !isExactTier n) (fun _ _ hm => (indexed_of_match? hm).2) rules

end Rule

namespace Buckets

theorem get_add (key? : Rule → Option String) (b : Buckets) (r : Rule) (k : String) :
    (b.add key? r).get k = b.get k ++ if key? r = some k then [r] else [] := by
  unfold add get
  cases hk : key? r with
  | none => simp
  | some k' =>
    by_cases he : k' = k
    · subst he
      simp [Std.HashMap.getD_eq_getD_getElem?]
    · simp [Std.HashMap.getD_alter, he]

theorem get_foldl_add (key? : Rule → Option String) (rules : List Rule) (b : Buckets) (k : String) :
    Buckets.get (rules.foldl (add key?) b) k = b.get k ++ rules.filter (fun r => key? r = some k) := by
  induction rules generalizing b with
  | nil => simp
  | cons r rest ih =>
    rw [List.foldl_cons, ih, get_add, List.append_assoc]
    by_cases hk : key? r = some k <;> simp [hk]

theorem get_ofRules (key? : Rule → Option String) (rules : List Rule) (k : String) :
    (ofRules key? rules).get k = rules.filter (fun r => key? r = some k) := by
  rw [ofRules, get_foldl_add]
  simp [get]

end Buckets

def Table.scan (t : Table) (name : String) : Option Match :=
  (least (t.listed.filterMap (Listed.hit? name))).map Prod.snd

namespace Registry

theorem exact_get (compiled : List (Entry × List Rule)) (name : String) :
    (ofCompiled compiled).exact.get name =
      (ofCompiled compiled).rules.filter (fun rule => rule.exactKey? = some name) :=
  Buckets.get_ofRules _ _ _

theorem shaped_get (compiled : List (Entry × List Rule)) (shape : String) :
    (ofCompiled compiled).shaped.get shape =
      (ofCompiled compiled).rules.filter (fun rule => rule.shapeKey? = some shape) :=
  Buckets.get_ofRules _ _ _

theorem mem_candidates {compiled : List (Entry × List Rule)} {rule : Rule} {name : String} {m : Match}
    (hr : rule ∈ (ofCompiled compiled).rules) (hm : rule.match? name = some m) :
    rule ∈ (ofCompiled compiled).candidates name := by
  obtain ⟨hexact, hshaped⟩ := Rule.indexed_of_match? hm
  rw [candidates, exact_get, shaped_get, List.mem_append, List.mem_filter, List.mem_filter, hexact,
    hshaped]
  cases Rule.isExactTier rule.tier
  · exact .inr ⟨hr, rfl⟩
  · exact .inl ⟨hr, rfl⟩

theorem lookup_eq_least (compiled : List (Entry × List Rule)) (name : String) :
    (ofCompiled compiled).lookup name =
      (least ((ofCompiled compiled).rules.filterMap (Rule.hit? name))).map Prod.snd := by
  rw [lookup, candidates, exact_get, shaped_get, Rule.best?_eq_least, List.filterMap_append,
    Rule.hits_of_text, Rule.hits_of_shape, least_filter_append]

/-- The order of the two buckets does not matter: no text and no shape compete within one tier. -/
theorem lookup_eq_best?_swap (compiled : List (Entry × List Rule)) (name : String) :
    let r := ofCompiled compiled
    r.lookup name = Rule.best? name
      (r.shaped.get (String.ofList (Template.shapeOf name.toList)) ++ r.exact.get name) := by
  intro r
  have hswap := least_filter_append (fun n => !Rule.isExactTier n) (r.rules.filterMap (Rule.hit? name))
  simp only [Bool.not_not] at hswap
  rw [lookup_eq_least, Rule.best?_eq_least, exact_get, shaped_get, List.filterMap_append,
    Rule.hits_of_text, Rule.hits_of_shape, hswap]

/-- For every table that is accepted, the index gives the answer of the scan. -/
theorem lookup_eq_scan {t : Table} {r : Registry} (h : build t = .ok r) (name : String) :
    r.lookup name = t.scan name ∧
      (r.lookup name = none ↔ ∀ p ∈ t.listed, p.template.match? name = none) ∧
      r.entries = t.rows.map Row.entry ∧
      (∀ rule ∈ r.rules, rule.entry ∈ r.entries ∧
        (rule.match? name ≠ none → rule ∈ r.candidates name)) ∧
      r.lookup name = Rule.best? name
        (r.shaped.get (String.ofList (Template.shapeOf name.toList)) ++ r.exact.get name) := by
  obtain ⟨compiled, hcompile, rfl⟩ := map_eq_ok.mp h
  have hrows := Table.compile_eq_ok hcompile
  have hhits : (ofCompiled compiled).rules.filterMap (Rule.hit? name) =
      t.listed.filterMap (Listed.hit? name) := by
    have he := congrArg (List.filterMap id) (Table.hits_eq hrows name)
    rwa [List.filterMap_map, List.filterMap_map] at he
  have hlookup := lookup_eq_least compiled name
  rw [hhits] at hlookup
  refine ⟨hlookup, ?_, Table.entries_eq hrows, ?_, lookup_eq_best?_swap compiled name⟩
  · rw [hlookup, Option.map_eq_none_iff, least_eq_none_iff, List.filterMap_eq_nil_iff]
    simp only [Listed.hit?, Option.map_eq_none_iff]
  · intro rule hr
    refine ⟨Table.entry_mem hrows rule hr, ?_⟩
    intro hm
    obtain ⟨m, hm⟩ := Option.ne_none_iff_exists'.mp hm
    exact mem_candidates hr hm

theorem lookup_bandwidth_of_second_band :
    let first : Row :=
      { name := "eqN_bwccX", type := .float, index := [("N", ⟨1, 3⟩)], spellings := ["_oncc", "cc"],
        aliases := ["eq2_bw_oncc7"] }
    let second : Row := { name := "eq2_bw_onccX", type := .integer }
    ∃ r, build { rows := [first, second] } = .ok r ∧
      r.lookup "eq2_bw_oncc7" = some ⟨second.entry, .template, [('X', 7)]⟩ ∧
      r.lookup "eq3_bw_oncc7" = some ⟨first.entry, .variant, [('N', 3), ('X', 7)]⟩ := by
  intro first second
  have hs : (build { rows := [first, second] }).toOption.isSome = true := by decide
  cases h : build { rows := [first, second] } with
  | error e => simp [h, Except.toOption] at hs
  | ok r =>
    refine ⟨r, rfl, ?_, ?_⟩
    · exact (lookup_eq_scan h _).1.trans (by decide)
    · exact (lookup_eq_scan h _).1.trans (by decide)

end Registry

end Sfz
