import Mathlib.Computability.RegularExpressions
import Mathlib.Data.Nat.Digits.Defs
import Sfz.Number.Decimal
import Sfz.Number.Note

namespace Sfz.Number

open RegularExpression

theorem isDigits_iff {run : List Char} :
    isDigits run = true ↔ run ≠ [] ∧ ∀ c ∈ run, c.isDigit = true := by
  simp [isDigits]

theorem isDigit_iff_mem {c : Char} : c.isDigit = true ↔ c ∈ "0123456789".toList := by
  simp [Char.isDigit, Char.ext_iff, UInt32.le_iff_toNat_le, ← UInt32.toNat_inj]
  omega

theorem span_run {run rest : List Char} (hall : ∀ c ∈ run, c.isDigit = true)
    (hd : rest.head?.any Char.isDigit = false) :
    (run ++ rest).takeWhile Char.isDigit = run ∧ (run ++ rest).dropWhile Char.isDigit = rest := by
  rw [List.takeWhile_append_of_pos hall, List.dropWhile_append_of_pos hall]
  cases rest with
  | nil => simp
  | cons c cs =>
    have hc : c.isDigit = false := by simpa using hd
    simp [hc]

theorem span_digits {ds : List Char} (hall : ∀ c ∈ ds, c.isDigit = true) :
    ds.takeWhile Char.isDigit = ds ∧ ds.dropWhile Char.isDigit = [] := by
  simpa using span_run hall (rfl : ([] : List Char).head?.any Char.isDigit = false)

theorem index?_eq_some_iff {cs : List Char} {n : Nat} :
    index? cs = some n ↔ isDigits cs = true ∧ digitsValue cs ≤ maxIndex ∧ digitsValue cs = n := by
  unfold index?
  by_cases hd : isDigits cs = true <;> by_cases hm : digitsValue cs ≤ maxIndex <;> simp [hd, hm]

theorem digitsValue_eq_ofDigits (cs : List Char) :
    digitsValue cs = Nat.ofDigits 10 (cs.reverse.map digitValue) := by
  induction cs using List.reverseRecOn with
  | nil => rfl
  | append_singleton cs c ih =>
    rw [List.reverse_append, List.reverse_singleton, List.singleton_append, List.map_cons,
      Nat.ofDigits_cons, ← ih]
    simp [digitsValue, Nat.add_comm]

theorem digitsValue_toDigits (n : Nat) : digitsValue (Nat.toDigits 10 n) = n :=
  Nat.ofDigitChars_ten_toDigits

theorem isDigits_toDigits (n : Nat) : isDigits (Nat.toDigits 10 n) = true :=
  isDigits_iff.mpr ⟨Nat.toDigits_ne_nil,
    fun _ hc => Nat.isDigit_of_mem_toDigits (by decide) (by decide) hc⟩

def minus (negative : Bool) : List Char :=
  if negative then ['-'] else []

theorem minus_sign (cs : List Char) : minus (sign cs).1 ++ (sign cs).2 = cs := by
  unfold sign
  split <;> simp [minus]

theorem sign_minus (negative : Bool) {body : List Char} (h : body.head? ≠ some '-') :
    sign (minus negative ++ body) = (negative, body) := by
  cases negative with
  | true => rfl
  | false =>
    cases body with
    | nil => rfl
    | cons c cs =>
      have hc : c ≠ '-' := by simpa using h
      simp [minus, sign, hc]

theorem head_ne_minus {ds : List Char} (h : ∀ c ∈ ds, c.isDigit = true) : ds.head? ≠ some '-' := by
  intro hm
  have hd := h '-' (List.mem_of_head? hm)
  revert hd
  decide

def Denotes (cs : List Char) (n : Int) : Prop :=
  ∃ negative ds, isDigits ds = true ∧ cs = minus negative ++ ds ∧
    n = signed negative (Nat.ofDigits 10 (ds.reverse.map digitValue))

theorem integer?_eq_some_iff {cs : List Char} {n : Int} : integer? cs = some n ↔ Denotes cs n := by
  constructor
  · intro h
    have hc := minus_sign cs
    unfold integer? at h
    rcases hs : sign cs with ⟨negative, ds⟩
    rw [hs] at h hc
    dsimp only at h
    split at h
    next hd =>
      refine ⟨negative, ds, hd, hc.symm, ?_⟩
      rw [← digitsValue_eq_ofDigits]
      exact (Option.some.inj h).symm
    next => simp at h
  · rintro ⟨negative, ds, hd, rfl, rfl⟩
    have hs := sign_minus negative (head_ne_minus (isDigits_iff.mp hd).2)
    rw [integer?, hs, ← digitsValue_eq_ofDigits]
    exact if_pos hd

theorem word?_eq_some_iff {cs : List Char} {n : Int} :
    word? cs = some n ↔ Denotes cs n ∧ minWord ≤ n ∧ n ≤ maxWord := by
  simp [word?, Option.filter_eq_some_iff, integer?_eq_some_iff]

theorem index?_eq_some_iff_word? {cs : List Char} {k : Int} (hk : 0 < k) :
    index? cs = some k.toNat ↔ word? cs = some k ∧ k ≤ maxIndex := by
  rw [index?_eq_some_iff, word?_eq_some_iff]
  constructor
  · rintro ⟨hd, hmax, hv⟩
    have hkv : (digitsValue cs : Int) = k := by omega
    refine ⟨⟨⟨false, cs, hd, rfl, ?_⟩, ?_, ?_⟩, ?_⟩
    · rw [← digitsValue_eq_ofDigits]
      exact hkv.symm
    · simp only [minWord]
      omega
    · simp only [maxWord, maxIndex] at hmax ⊢
      omega
    · omega
  · rintro ⟨⟨⟨negative, ds, hd, rfl, hv⟩, -, -⟩, hmax⟩
    rw [← digitsValue_eq_ofDigits] at hv
    cases negative with
    | true =>
      simp only [signed, if_true] at hv
      omega
    | false =>
      simp only [signed, Bool.false_eq_true, if_false] at hv
      simp only [minus, Bool.false_eq_true, if_false, List.nil_append]
      exact ⟨hd, by omega, by omega⟩

section Languages

def digit : RegularExpression Char :=
  "0123456789".toList.foldr (fun c r => char c + r) 0

/-- The texts `-?[0-9]+`. -/
def integerText : RegularExpression Char :=
  (1 + char '-') * (digit * digit.star)

/-- The texts `-?([0-9]+(\.[0-9]*)?|\.[0-9]+)`. -/
def decimalText : RegularExpression Char :=
  (1 + char '-') *
    (digit * digit.star * (1 + char '.' * digit.star) + char '.' * (digit * digit.star))

variable {cs : List Char}

theorem mem_foldr_char (choices : List Char) :
    cs ∈ (choices.foldr (fun c r => char c + r) 0).matches' ↔ ∃ c ∈ choices, cs = [c] := by
  induction choices with
  | nil => simp [Language.notMem_zero]
  | cons c choices ih =>
    rw [List.foldr_cons, matches'_add, Language.mem_add, ih, List.exists_mem_cons_iff]
    exact Iff.rfl

theorem mem_digit : cs ∈ digit.matches' ↔ ∃ c, c.isDigit = true ∧ cs = [c] := by
  simp only [digit, mem_foldr_char, isDigit_iff_mem]

theorem mem_star_digit : cs ∈ digit.star.matches' ↔ ∀ c ∈ cs, c.isDigit = true := by
  rw [matches'_star, Language.mem_kstar]
  constructor
  · rintro ⟨words, rfl, hw⟩ c hc
    obtain ⟨word, hword, hc⟩ := List.mem_flatten.mp hc
    obtain ⟨d, hd, rfl⟩ := mem_digit.mp (hw word hword)
    rwa [List.mem_singleton.mp hc]
  · intro h
    refine ⟨cs.map (fun c => [c]), (List.flatMap_singleton' cs).symm, ?_⟩
    intro word hword
    obtain ⟨c, hc, rfl⟩ := List.mem_map.mp hword
    exact mem_digit.mpr ⟨c, h c hc, rfl⟩

theorem mem_digits : cs ∈ (digit * digit.star).matches' ↔ isDigits cs = true := by
  rw [matches'_mul, Language.mem_mul, isDigits_iff]
  constructor
  · rintro ⟨a, ha, b, hb, rfl⟩
    obtain ⟨c, hc, rfl⟩ := mem_digit.mp ha
    exact ⟨by simp, List.forall_mem_cons.mpr ⟨hc, mem_star_digit.mp hb⟩⟩
  · rintro ⟨hne, hd⟩
    obtain ⟨c, rest, rfl⟩ := List.exists_cons_of_ne_nil hne
    obtain ⟨hc, hrest⟩ := List.forall_mem_cons.mp hd
    exact ⟨[c], mem_digit.mpr ⟨c, hc, rfl⟩, rest, mem_star_digit.mpr hrest, rfl⟩

theorem mem_signed {r : RegularExpression Char} :
    cs ∈ ((1 + char '-') * r).matches' ↔ ∃ negative body, body ∈ r.matches' ∧ cs = minus negative ++ body := by
  rw [matches'_mul, Language.mem_mul]
  constructor
  · rintro ⟨a, ha, body, hb, rfl⟩
    rw [matches'_add, Language.mem_add, matches'_epsilon, Language.mem_one, matches'_char] at ha
    rcases ha with rfl | rfl
    · exact ⟨false, body, hb, rfl⟩
    · exact ⟨true, body, hb, rfl⟩
  · rintro ⟨negative, body, hb, rfl⟩
    refine ⟨minus negative, ?_, body, hb, rfl⟩
    cases negative with
    | false => exact .inl rfl
    | true => exact .inr rfl

theorem mem_integerText : cs ∈ integerText.matches' ↔ ∃ n, Denotes cs n := by
  simp only [integerText, mem_signed, mem_digits]
  constructor
  · rintro ⟨negative, ds, hd, rfl⟩
    exact ⟨_, negative, ds, hd, rfl, rfl⟩
  · rintro ⟨n, negative, ds, hd, rfl, -⟩
    exact ⟨negative, ds, hd, rfl⟩

def Pointed (body : List Char) : Prop :=
  isDigits body = true ∨ ∃ whole fraction, body = whole ++ '.' :: fraction ∧
    (∀ c ∈ whole, c.isDigit = true) ∧ (∀ c ∈ fraction, c.isDigit = true) ∧ ¬ (whole = [] ∧ fraction = [])

theorem Pointed.head_ne_minus {body : List Char} (h : Pointed body) : body.head? ≠ some '-' := by
  rcases h with h | ⟨whole, fraction, rfl, hw, -, -⟩
  · exact Number.head_ne_minus (isDigits_iff.mp h).2
  · cases whole with
    | nil => simp
    | cons c whole => simpa using Number.head_ne_minus hw

theorem mem_decimalText :
    cs ∈ decimalText.matches' ↔ ∃ negative body, Pointed body ∧ cs = minus negative ++ body := by
  have hbody (body : List Char) : body ∈ (digit * digit.star * (1 + char '.' * digit.star) +
      char '.' * (digit * digit.star)).matches' ↔ Pointed body := by
    rw [matches'_add, Language.mem_add, matches'_mul, Language.mem_mul, matches'_mul (char '.'),
      Language.mem_mul]
    constructor
    · rintro (⟨whole, hw, tail, ht, rfl⟩ | ⟨point, hp, fraction, hf, rfl⟩)
      · have hw := mem_digits.mp hw
        rw [matches'_add, Language.mem_add, matches'_mul, Language.mem_mul] at ht
        rcases ht with ht | ⟨point, hp, fraction, hf, rfl⟩
        · obtain rfl : tail = [] := ht
          exact .inl (by rwa [List.append_nil])
        · obtain rfl : point = ['.'] := hp
          exact .inr ⟨whole, fraction, rfl, (isDigits_iff.mp hw).2, mem_star_digit.mp hf,
            fun h => (isDigits_iff.mp hw).1 h.1⟩
      · obtain rfl : point = ['.'] := hp
        have hf := isDigits_iff.mp (mem_digits.mp hf)
        exact .inr ⟨[], fraction, rfl, by simp, hf.2, fun h => hf.1 h.2⟩
    · rintro (hd | ⟨whole, fraction, rfl, hw, hf, hne⟩)
      · exact .inl ⟨body, mem_digits.mpr hd, [], .inl rfl, List.append_nil body⟩
      · cases whole with
        | nil =>
          have hd : isDigits fraction = true := isDigits_iff.mpr ⟨fun h => hne ⟨rfl, h⟩, hf⟩
          exact .inr ⟨['.'], rfl, fraction, mem_digits.mpr hd, rfl⟩
        | cons c whole =>
          have hd : isDigits (c :: whole) = true := isDigits_iff.mpr ⟨by simp, hw⟩
          exact .inl ⟨c :: whole, mem_digits.mpr hd, '.' :: fraction,
            .inr ⟨['.'], rfl, fraction, mem_star_digit.mpr hf, rfl⟩, rfl⟩
  simp only [decimalText, mem_signed, hbody]

end Languages

end Sfz.Number

namespace Sfz.Decimal

open Number

theorem parse?_digits (negative : Bool) {ds : List Char} (hd : isDigits ds = true) :
    parse? (minus negative ++ ds) = some ⟨negative, digitsValue ds, 0⟩ := by
  obtain ⟨hne, hall⟩ := isDigits_iff.mp hd
  obtain ⟨htake, hdrop⟩ := span_digits hall
  rw [parse?, sign_minus negative (head_ne_minus hall)]
  simp [htake, hdrop, hne]

theorem parse?_isSome_iff (cs : List Char) : (parse? cs).isSome = true ↔ Pointed (sign cs).2 := by
  unfold parse?
  obtain ⟨negative, body⟩ := sign cs
  have hsplit := List.takeWhile_append_dropWhile (p := Char.isDigit) (l := body)
  have hwhole (c : Char) (hc : c ∈ body.takeWhile Char.isDigit) : c.isDigit = true :=
    List.all_eq_true.mp List.all_takeWhile c hc
  constructor
  · intro h
    dsimp only at h
    split at h
    next hrest =>
      rw [hrest, List.append_nil] at hsplit
      rw [hsplit] at h hwhole
      exact .inl (isDigits_iff.mpr ⟨by rintro rfl; simp at h, hwhole⟩)
    next fraction hrest =>
      rw [hrest] at hsplit
      split at h
      next hf =>
        simp only [Bool.and_eq_true, List.all_eq_true, Bool.not_eq_true', Bool.and_eq_false_iff,
          List.isEmpty_eq_false_iff] at hf
        exact .inr ⟨_, fraction, hsplit.symm, hwhole, hf.1, not_and_or.mpr hf.2⟩
      next => simp at h
    next => simp at h
  · rintro (hd | ⟨whole, fraction, rfl, hw, hf, hne⟩)
    · obtain ⟨hne, hall⟩ := isDigits_iff.mp hd
      obtain ⟨htake, hdrop⟩ := span_digits hall
      simp [htake, hdrop, hne]
    · have hpoint : ('.' :: fraction).head?.any Char.isDigit = false := rfl
      obtain ⟨htake, hdrop⟩ := span_run hw hpoint
      simpa [htake, hdrop] using ⟨hf, not_and_or.mp hne⟩

theorem parse?_isSome {cs : List Char} : (parse? cs).isSome = true ↔ cs ∈ decimalText.matches' := by
  rw [parse?_isSome_iff, mem_decimalText]
  constructor
  · intro h
    exact ⟨(sign cs).1, (sign cs).2, h, (minus_sign cs).symm⟩
  · rintro ⟨negative, body, hb, rfl⟩
    rwa [sign_minus negative hb.head_ne_minus]

end Sfz.Decimal

namespace Sfz.Note

open Number

theorem pitchClass?_of_isDigit {c : Char} (h : c.isDigit = true) : pitchClass? c.toLower = none := by
  have hall : "0123456789".toList.all (fun c => (pitchClass? c.toLower).isNone) = true := by decide
  exact Option.isNone_iff_eq_none.mp (List.all_eq_true.mp hall c (isDigit_iff_mem.mp h))

theorem parse?_eq_none_of_denotes {cs : List Char} {n : Int} (h : Denotes cs n) : parse? cs = none := by
  obtain ⟨negative, ds, hd, rfl, -⟩ := h
  obtain ⟨hne, hall⟩ := isDigits_iff.mp hd
  cases negative with
  | true => rfl
  | false =>
    obtain ⟨c, rest, rfl⟩ := List.exists_cons_of_ne_nil hne
    simp [minus, parse?, pitchClass?_of_isDigit (hall c (List.mem_cons_self ..))]

end Sfz.Note
