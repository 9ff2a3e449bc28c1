import Mathlib.Tactic.Linarith
import Sfz.Check.Value
import Sfz.Proofs.NumberTexts

namespace Sfz

open Number

namespace Binary64

theorem div_le_roundDiv (n d : Nat) : n / d ≤ roundDiv n d := by
  unfold roundDiv
  dsimp only
  split <;> omega

theorem nearest_one (n : Nat) :
    nearest n 1 = roundDiv n (2 ^ gapExponent n) * 2 ^ gapExponent n := by
  rw [nearest, Nat.div_one, Nat.one_mul]
  rfl

theorem nearest_of_dvd {n : Nat} (h : 2 ^ gapExponent n ∣ n) : nearest n 1 = n := by
  have hpos : 0 < 2 ^ gapExponent n := Nat.two_pow_pos _
  have hround : roundDiv n (2 ^ gapExponent n) = n / 2 ^ gapExponent n := by
    simp [roundDiv, Nat.mod_eq_zero_of_dvd h, hpos.ne]
  rw [nearest_one, hround, Nat.div_mul_cancel h]

theorem two_pow_log2_le_nearest {n : Nat} (hn : n ≠ 0) : 2 ^ n.log2 ≤ nearest n 1 := by
  have hself := Nat.log2_self_le hn
  by_cases hlog : n.log2 < 52
  · have hgap : gapExponent n = 0 := by
      unfold gapExponent
      omega
    rwa [nearest_of_dvd (by simp [hgap])]
  · have hexp : 2 ^ n.log2 = 2 ^ 52 * 2 ^ gapExponent n := by
      rw [← Nat.pow_add, gapExponent, Nat.add_sub_cancel' (by omega)]
    have hdiv : 2 ^ 52 ≤ n / 2 ^ gapExponent n := by
      rw [Nat.le_div_iff_mul_le (Nat.two_pow_pos _), ← hexp]
      exact hself
    rw [nearest_one, hexp]
    exact Nat.mul_le_mul_right _ (hdiv.trans (div_le_roundDiv _ _))

theorem nearest_exact {k : Nat} (hk : k < 2 ^ 53) (e : Nat) : nearest (k * 2 ^ e) 1 = k * 2 ^ e := by
  apply nearest_of_dvd
  have hexp : gapExponent (k * 2 ^ e) ≤ e := by
    by_cases hz : k = 0
    · simp [hz, gapExponent]
    · have hlog : (k * 2 ^ e).log2 < 53 + e := by
        rw [Nat.log2_lt (Nat.mul_ne_zero hz (Nat.two_pow_pos e).ne'), Nat.pow_add]
        exact Nat.mul_lt_mul_of_pos_right hk (Nat.two_pow_pos e)
      unfold gapExponent
      omega
  exact Dvd.dvd.mul_left (Nat.pow_dvd_pow 2 hexp) k

theorem le_nearest {k : Nat} (hk : 2 ^ 53 ≤ k) (e : Nat) : 2 ^ 53 * 2 ^ e ≤ nearest (k * 2 ^ e) 1 := by
  have hle : 2 ^ (53 + e) ≤ k * 2 ^ e := by
    rw [Nat.pow_add]
    exact Nat.mul_le_mul_right _ hk
  have hne : k * 2 ^ e ≠ 0 := Nat.mul_ne_zero (by omega) (Nat.two_pow_pos e).ne'
  rw [← Nat.pow_add]
  exact (Nat.pow_le_pow_right (by omega) ((Nat.le_log2 hne).mpr hle)).trans (two_pow_log2_le_nearest hne)

theorem exists_one_eq : ∃ e, one = 2 ^ e := by
  unfold one
  generalize 1074 = e
  exact ⟨e, rfl⟩

theorem one_pos : 0 < one := by
  obtain ⟨e, he⟩ := exists_one_eq
  rw [he]
  exact Nat.two_pow_pos e

theorem one_lt_limit : 2 ^ 53 * one < limit := by
  decide +kernel

theorem ofRatio_one_cases (s : Bool) (m : Nat) :
    m < 2 ^ 53 ∧ ofRatio s m 1 = .finite s (m * one) ∨
      2 ^ 53 ≤ m ∧ ((∃ u, 2 ^ 53 * one ≤ u ∧ ofRatio s m 1 = .finite s u) ∨ ofRatio s m 1 = .infinite s) := by
  obtain ⟨e, he⟩ := exists_one_eq
  rcases Nat.lt_or_ge m (2 ^ 53) with hm | hm
  · have hlimit : m * one < limit := (Nat.mul_lt_mul_of_pos_right hm one_pos).trans one_lt_limit
    have hunits : nearest (m * one) 1 = m * one := by
      rw [he]
      exact nearest_exact hm e
    refine .inl ⟨hm, ?_⟩
    rw [ofRatio, hunits]
    exact if_pos hlimit
  · have hunits : 2 ^ 53 * one ≤ nearest (m * one) 1 := by
      rw [he]
      exact le_nearest hm e
    refine .inr ⟨hm, ?_⟩
    unfold ofRatio
    dsimp only
    split
    · exact .inl ⟨_, hunits, rfl⟩
    · exact .inr rfl

def IsWhole (x : Binary64) (a : Int) : Prop :=
  ∃ s u, x = .finite s u ∧ signedUnits s u = a * one

theorem signedUnits_mul_one (s : Bool) (m : Nat) : signedUnits s (m * one) = signed s m * one := by
  generalize one = unit
  cases s <;> simp [signedUnits, signed]

theorem signedUnits_beyond {a : Int} (ha : a.natAbs < 2 ^ 53) (s : Bool) {m u : Nat} (hm : 2 ^ 53 ≤ m)
    (hu : 2 ^ 53 * one ≤ u) : (signedUnits s u < a * one ↔ signed s m < a) ∧
      (a * one < signedUnits s u ↔ a < signed s m) := by
  have hpos : (0 : Int) < one := by exact_mod_cast one_pos
  have hu' : (2 ^ 53 : Int) * one ≤ u := by exact_mod_cast hu
  have hlow : -(2 ^ 53 : Int) * one < a * one := Int.mul_lt_mul_of_pos_right (by omega) hpos
  have hhigh : a * one < (2 ^ 53 : Int) * one := Int.mul_lt_mul_of_pos_right (by omega) hpos
  cases s with
  | true =>
    simp only [signedUnits, signed, if_true]
    constructor <;> constructor <;> intro _ <;> omega
  | false =>
    simp only [signedUnits, signed, Bool.false_eq_true, if_false]
    constructor <;> constructor <;> intro _ <;> omega

theorem lt_ofRatio_iff {x : Binary64} {a : Int} (hx : x.IsWhole a) (ha : a.natAbs < 2 ^ 53) (s : Bool)
    (m : Nat) : ((ofRatio s m 1).lt x = true ↔ signed s m < a) ∧
      (x.lt (ofRatio s m 1) = true ↔ a < signed s m) := by
  obtain ⟨t, u, rfl, hu⟩ := hx
  have hpos : (0 : Int) < one := by exact_mod_cast one_pos
  rcases ofRatio_one_cases s m with ⟨-, h⟩ | ⟨hm, ⟨v, hv, h⟩ | h⟩
  · rw [h]
    simp only [lt, decide_eq_true_eq, hu, signedUnits_mul_one]
    exact ⟨Int.mul_lt_mul_right hpos, Int.mul_lt_mul_right hpos⟩
  · rw [h]
    simp only [lt, decide_eq_true_eq, hu]
    exact signedUnits_beyond ha s hm hv
  · rw [h]
    cases s with
    | true => simp [lt, signed]; omega
    | false => simp [lt, signed]; omega

def Bounding (x : Binary64) (a : Int) : Prop :=
  x.IsWhole a ∧ a.natAbs < 2 ^ 53

theorem exists_bounding {bound : Option Binary64} {whole : Option Int} (h : Option.Rel Bounding bound whole)
    {x : Binary64} (hx : x ∈ bound) : ∃ a, x.IsWhole a ∧ a.natAbs < 2 ^ 53 := by
  cases h with
  | none => simp at hx
  | some hb =>
    obtain rfl := Option.mem_some_iff.mp hx
    exact ⟨_, hb⟩

end Binary64

namespace Bounds

variable {b : Bounds} {value : String} {p : Problem}

theorem check?_eq_none_iff {n : Binary64} : b.check? value n = none ↔
    (∀ lo ∈ b.min, n.lt lo = false) ∧ ∀ hi ∈ b.max, hi.lt n = false := by
  obtain ⟨min, max⟩ := b
  cases min <;> cases max <;> simp [check?]

theorem check?_congr {n m : Binary64} (hmin : ∀ lo ∈ b.min, n.lt lo = m.lt lo)
    (hmax : ∀ hi ∈ b.max, hi.lt n = hi.lt m) : b.check? value n = b.check? value m := by
  obtain ⟨min, max⟩ := b
  cases min with
  | none =>
    cases max with
    | none => rfl
    | some hi => simp only [check?, hmax hi rfl]
  | some lo =>
    cases max with
    | none => simp only [check?, hmin lo rfl]
    | some hi => simp only [check?, hmin lo rfl, hmax hi rfl]

def warningText? (b : Bounds) (value : String) : Option String :=
  match b.min, b.max with
  | some lo, some hi => some (value ++ " not in range " ++ lo.boundText ++ " to " ++ hi.boundText)
  | some lo, none => some (value ++ " less than minimum of " ++ lo.boundText)
  | none, some hi => some (value ++ " greater than maximum of " ++ hi.boundText)
  | none, none => none

theorem check?_eq_some {n : Binary64} (h : b.check? value n = some p) :
    p.severity = .warning ∧ b.warningText? value = some p.message := by
  obtain ⟨min, max⟩ := b
  cases min <;> cases max <;>
    simp only [check?, Option.ite_none_right_eq_some, reduceCtorEq, Option.some.injEq] at h
  all_goals
    obtain ⟨-, rfl⟩ := h
    exact ⟨rfl, rfl⟩

section Whole

variable {lo hi : Option Int}

theorem lt_min_iff (hmin : Option.Rel Binary64.Bounding b.min lo) (s : Bool) (m : Nat) :
    (∀ x ∈ b.min, (Binary64.ofRatio s m 1).lt x = false) ↔ ∀ a ∈ lo, a ≤ signed s m := by
  generalize b.min = min at hmin ⊢
  cases hmin with
  | none => simp
  | some h =>
    have hlt := (Binary64.lt_ofRatio_iff h.1 h.2 s m).1
    simp [← Bool.not_eq_true, hlt]

theorem max_lt_iff (hmax : Option.Rel Binary64.Bounding b.max hi) (s : Bool) (m : Nat) :
    (∀ x ∈ b.max, x.lt (Binary64.ofRatio s m 1) = false) ↔ ∀ a ∈ hi, signed s m ≤ a := by
  generalize b.max = max at hmax ⊢
  cases hmax with
  | none => simp
  | some h =>
    have hlt := (Binary64.lt_ofRatio_iff h.1 h.2 s m).2
    simp [← Bool.not_eq_true, hlt]

theorem check?_whole_congr (hmin : Option.Rel Binary64.Bounding b.min lo)
    (hmax : Option.Rel Binary64.Bounding b.max hi) {s t : Bool} {m k : Nat}
    (h : signed s m = signed t k) :
    b.check? value (.ofRatio s m 1) = b.check? value (.ofRatio t k 1) := by
  apply check?_congr
  · intro x hx
    obtain ⟨a, hb, ha⟩ := Binary64.exists_bounding hmin hx
    rw [Bool.eq_iff_iff, (Binary64.lt_ofRatio_iff hb ha s m).1, (Binary64.lt_ofRatio_iff hb ha t k).1, h]
  · intro x hx
    obtain ⟨a, hb, ha⟩ := Binary64.exists_bounding hmax hx
    rw [Bool.eq_iff_iff, (Binary64.lt_ofRatio_iff hb ha s m).2, (Binary64.lt_ofRatio_iff hb ha t k).2, h]

end Whole

end Bounds

theorem Number.signed_natAbs (n : Int) : signed (n < 0) n.natAbs = n := by
  unfold signed
  by_cases h : n < 0
  · rw [if_pos (decide_eq_true h)]
    omega
  · rw [if_neg (by simpa using h)]
    omega

namespace Entry

variable {e : Entry} {value : String}

theorem numberOf?_integer_eq_none_iff {cs : List Char} : numberOf? .integer cs = none ↔
    cs ∉ integerText.matches' ∧ Note.parse? cs = none := by
  simp [numberOf?, integerValue?, noteValue?, mem_integerText, ← integer?_eq_some_iff,
    ← Option.isSome_iff_exists]

/-- No text is both a whole number and a note name, so it does not matter which is tried first. -/
theorem numberOf?_note (cs : List Char) : numberOf? .note cs = numberOf? .integer cs := by
  cases h : integer? cs with
  | none => simp [numberOf?, integerValue?, h]
  | some n =>
    have hnote := Note.parse?_eq_none_of_denotes (integer?_eq_some_iff.mp h)
    simp [numberOf?, noteValue?, hnote]

theorem numberOf?_float_eq_none_iff {cs : List Char} :
    numberOf? .float cs = none ↔ cs ∉ decimalText.matches' := by
  simp [numberOf?, ← Decimal.parse?_isSome]

theorem check?_of_number {n : Binary64} (ht : e.type = .integer ∨ e.type = .note ∨ e.type = .float)
    (hn : numberOf? e.type value.toList = some n) : e.check? value = e.bounds.check? value n := by
  rcases ht with ht | ht | ht <;> rw [ht] at hn <;> simp only [check?, ht, hn]

theorem check?_of_no_number (ht : e.type = .integer ∨ e.type = .note ∨ e.type = .float)
    (hn : numberOf? e.type value.toList = none) : e.check? value = some (.wrongType e.type value) := by
  rcases ht with ht | ht | ht <;> rw [ht] at hn <;> simp only [check?, ht, hn]

theorem error_iff_of_numeric (ht : e.type = .integer ∨ e.type = .note ∨ e.type = .float) :
    (∃ p, e.check? value = some p ∧ p.severity = .error) ↔ numberOf? e.type value.toList = none := by
  constructor
  · rintro ⟨p, hp, herror⟩
    cases hn : numberOf? e.type value.toList with
    | none => rfl
    | some n =>
      rw [check?_of_number ht hn] at hp
      rw [(Bounds.check?_eq_some hp).1] at herror
      exact absurd herror (by decide)
  · intro hn
    exact ⟨_, check?_of_no_number ht hn, rfl⟩

theorem no_error_of_enum {options : List String} (ht : e.type = .enum options) {p : Problem}
    (hp : e.check? value = some p) : p.severity = .warning := by
  simp only [check?, ht, Option.ite_none_left_eq_some, Option.some.injEq] at hp
  rw [← hp.2]
  rfl

theorem error_iff_outside_grammar :
    (∃ p, e.check? value = some p ∧ p.severity = .error) ↔
      (e.type = .integer ∨ e.type = .note) ∧ value.toList ∉ integerText.matches' ∧
          Note.parse? value.toList = none ∨
        e.type = .float ∧ value.toList ∉ decimalText.matches' := by
  cases ht : e.type with
  | integer => simp [error_iff_of_numeric, ht, numberOf?_integer_eq_none_iff]
  | note => simp [error_iff_of_numeric, ht, numberOf?_note, numberOf?_integer_eq_none_iff]
  | float => simp [error_iff_of_numeric, ht, numberOf?_float_eq_none_iff]
  | enum options =>
    constructor
    · rintro ⟨p, hp, herror⟩
      rw [no_error_of_enum ht hp] at herror
      exact absurd herror (by decide)
    · simp
  | string => simp [check?, ht]
  | path => simp [check?, ht]

theorem check?_integer_eq_note {e f : Entry} (he : e.type = .integer) (hf : f.type = .note)
    (hb : e.bounds = f.bounds) : e.check? value = f.check? value ∨
      e.check? value = some (.wrongType .integer value) ∧
        f.check? value = some (.wrongType .note value) := by
  have hnumber : numberOf? f.type value.toList = numberOf? e.type value.toList := by
    rw [he, hf, numberOf?_note]
  cases hn : numberOf? e.type value.toList with
  | none =>
    rw [check?_of_no_number (.inl he) hn, check?_of_no_number (.inr (.inl hf)) (hnumber.trans hn), he, hf]
    exact .inr ⟨rfl, rfl⟩
  | some n =>
    rw [check?_of_number (.inl he) hn, check?_of_number (.inr (.inl hf)) (hnumber.trans hn), hb]
    exact .inl rfl

/-- An error is found exactly on the texts outside the grammar of a type. No text is both a whole number
and a note name, so integers and notes take the same values, and every whole number is a decimal. -/
theorem errors_match_grammars (value : String) :
    (∀ e : Entry, (∃ p, e.check? value = some p ∧ p.severity = .error) ↔
      (e.type = .integer ∨ e.type = .note) ∧ value.toList ∉ integerText.matches' ∧
          Note.parse? value.toList = none ∨
        e.type = .float ∧ value.toList ∉ decimalText.matches') ∧
    ¬ (value.toList ∈ integerText.matches' ∧ (Note.parse? value.toList).isSome = true) ∧
    (∀ e f : Entry, e.type = .integer → f.type = .note → e.bounds = f.bounds →
      (e.check? value = none ↔ f.check? value = none) ∧
      ∀ p, p.severity = .warning → (e.check? value = some p ↔ f.check? value = some p)) ∧
    (value.toList ∈ integerText.matches' → value.toList ∈ decimalText.matches') := by
  refine ⟨fun e => error_iff_outside_grammar, ?_, ?_, ?_⟩
  · rintro ⟨hi, hn⟩
    obtain ⟨n, hden⟩ := mem_integerText.mp hi
    simp [Note.parse?_eq_none_of_denotes hden] at hn
  · intro e f he hf hb
    rcases check?_integer_eq_note he hf hb with h | ⟨h, h'⟩
    · rw [h]
      exact ⟨Iff.rfl, fun _ _ => Iff.rfl⟩
    · rw [h, h']
      refine ⟨by simp, fun p hp => ?_⟩
      have hne (t : ValueType) : some (Problem.wrongType t value) ≠ some p := by
        rintro ⟨⟩
        simp [Problem.severity] at hp
      exact iff_of_false (hne _) (hne _)
  · intro hi
    obtain ⟨negative, ds, hd, hc⟩ := mem_signed.mp hi
    exact mem_decimalText.mpr ⟨negative, ds, .inl (mem_digits.mp hd), hc⟩

def plain (type : ValueType) (bounds : Bounds) : Entry :=
  ⟨"x", type, bounds, [], [], none, none⟩

theorem errors_match_grammars_wide :
    "-99999999999999999999".toList ∈ decimalText.matches' ∧
      (∀ b, ¬ ∃ p, (plain .note b).check? "-99999999999999999999" = some p ∧ p.severity = .error) ∧
      (∀ b, (plain .integer b).check? "-99999999999999999999" = none ↔
        (plain .note b).check? "-99999999999999999999" = none) ∧
      (∃ p, (plain .float ⟨none, none⟩).check? "-." = some p ∧ p.severity = .error) := by
  have hwide : "-99999999999999999999".toList ∈ integerText.matches' :=
    mem_signed.mpr ⟨true, "99999999999999999999".toList, mem_digits.mpr (by decide), by decide⟩
  obtain ⟨herror, -, hsame, hdecimal⟩ := errors_match_grammars "-99999999999999999999"
  refine ⟨hdecimal hwide, ?_, fun b => (hsame (plain .integer b) (plain .note b) rfl rfl rfl).1, ?_⟩
  · intro b
    rw [herror]
    rintro (⟨-, hnot, -⟩ | ⟨hfloat, -⟩)
    · exact hnot hwide
    · simp [plain] at hfloat
  · refine ((errors_match_grammars "-.").1 _).mpr (.inr ⟨rfl, ?_⟩)
    rw [← Decimal.parse?_isSome]
    decide

theorem check?_of_denotes (ht : e.type = .integer ∨ e.type = .note) {n : Int}
    (hn : Denotes value.toList n) : e.check? value = e.bounds.check? value (.ofRatio (n < 0) n.natAbs 1) := by
  have hi := integer?_eq_some_iff.mpr hn
  have hnumber : numberOf? .integer value.toList = some (.ofInt n) := by
    simp [numberOf?, integerValue?, hi]
  rcases ht with ht | ht
  · exact check?_of_number (.inl ht) (by rw [ht, hnumber]; rfl)
  · exact check?_of_number (.inr (.inl ht)) (by rw [ht, numberOf?_note, hnumber]; rfl)

/-- A whole number of any width is compared with whole bounds exactly: nothing is reported if it lies
between them, otherwise one warning. It is the same whether the number is rounded from its value or from
its text. -/
theorem whole_numbers_checked_exactly {e : Entry} (ht : e.type = .integer ∨ e.type = .note)
    {lo hi : Option Int} (hmin : Option.Rel Binary64.Bounding e.bounds.min lo)
    (hmax : Option.Rel Binary64.Bounding e.bounds.max hi) {value : String} {n : Int}
    (hn : Denotes value.toList n) :
    (e.check? value = none ↔ (∀ a ∈ lo, a ≤ n) ∧ ∀ a ∈ hi, n ≤ a) ∧
    (∀ p, e.check? value = some p →
      p.severity = .warning ∧ e.bounds.warningText? value = some p.message) ∧
    ∃ d, Decimal.parse? value.toList = some d ∧ e.check? value = e.bounds.check? value d.toBinary64 := by
  rw [check?_of_denotes ht hn]
  refine ⟨?_, fun p hp => Bounds.check?_eq_some hp, ?_⟩
  · rw [Bounds.check?_eq_none_iff, Bounds.lt_min_iff hmin, Bounds.max_lt_iff hmax, signed_natAbs]
  · obtain ⟨negative, ds, hd, hc, hv⟩ := hn
    rw [hc]
    refine ⟨_, Decimal.parse?_digits negative hd, ?_⟩
    apply Bounds.check?_whole_congr hmin hmax
    rw [signed_natAbs, hv, digitsValue_eq_ofDigits]

def wideBounds : Bounds :=
  ⟨some (.finite true (9600 * Binary64.one)), some (.finite false (9007199254740991 * Binary64.one))⟩

theorem whole_numbers_checked_exactly_wide :
    (plain .integer wideBounds).check? "9007199254740991" = none ∧
      (∃ p, (plain .integer wideBounds).check? "9007199254740993" = some p ∧ p.severity = .warning) ∧
      ∃ p, (plain .note wideBounds).check? "-99999999999999999999" = some p ∧ p.severity = .warning := by
  have hmin : Option.Rel Binary64.Bounding wideBounds.min (some (-9600)) :=
    .some ⟨⟨true, _, rfl, Binary64.signedUnits_mul_one true 9600⟩, by decide⟩
  have hmax : Option.Rel Binary64.Bounding wideBounds.max (some 9007199254740991) :=
    .some ⟨⟨false, _, rfl, Binary64.signedUnits_mul_one false 9007199254740991⟩, by decide⟩
  have hwarn (type : ValueType) (ht : type = .integer ∨ type = .note) (value : String) (n : Int)
      (hn : integer? value.toList = some n) (hout : n < -9600 ∨ 9007199254740991 < n) :
      ∃ p, (plain type wideBounds).check? value = some p ∧ p.severity = .warning := by
    obtain ⟨hnone, hsome, -⟩ := whole_numbers_checked_exactly (e := plain type wideBounds) ht hmin hmax
      (integer?_eq_some_iff.mp hn)
    cases hc : (plain type wideBounds).check? value with
    | none =>
      have hin := hnone.mp hc
      simp at hin
      omega
    | some p => exact ⟨p, rfl, (hsome p hc).1⟩
  refine ⟨?_, hwarn _ (.inl rfl) _ 9007199254740993 (by decide) (by omega),
    hwarn _ (.inr rfl) _ (-99999999999999999999) (by decide) (by omega)⟩
  have hn : integer? "9007199254740991".toList = some 9007199254740991 := by decide
  refine (whole_numbers_checked_exactly (e := plain .integer wideBounds) (.inl rfl) hmin hmax
    (integer?_eq_some_iff.mp hn)).1.mpr ⟨?_, ?_⟩
  · simp
  · simp

end Entry

end Sfz
