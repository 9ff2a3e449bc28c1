import Sfz.Proofs.NumberTexts

namespace Sfz.Note

open Number

def naturals : List (Char × Int) :=
  [('c', 0), ('d', 2), ('e', 4), ('f', 5), ('g', 7), ('a', 9), ('b', 11)]

inductive Accidental
  | natural
  | sharp
  | flat
  deriving DecidableEq

namespace Accidental

def text : Accidental → List Char
  | .natural => []
  | .sharp => ['#']
  | .flat => ['b']

def shift : Accidental → Int
  | .natural => 0
  | .sharp => 1
  | .flat => -1

theorem shift_injective : Function.Injective shift := by
  intro a b h
  cases a <;> cases b <;> simp [shift] at h ⊢

end Accidental

structure Name where
  letter : Char
  accidental : Accidental
  octave : List Char
  deriving DecidableEq

namespace Name

structure Spells (name : Name) (cs : List Char) : Prop where
  letter : 'a' ≤ name.letter ∧ name.letter ≤ 'g'
  octave : name.octave ∈ integerText.matches'
  text : cs.map Char.toLower = name.letter :: (name.accidental.text ++ name.octave)

/-- The number of a name is counted from `c` in the octave before the one of zero. -/
def Counts (name : Name) (octave n : Int) : Prop :=
  Denotes name.octave octave ∧ (-1 ≤ octave ∧ octave ≤ 9) ∧
    ∃ pitch, (name.letter, pitch) ∈ naturals ∧ n = 12 * (octave + 1) + pitch + name.accidental.shift

end Name

theorem pitchClass?_eq_some_iff {c : Char} {pitch : Int} :
    pitchClass? c = some pitch ↔ (c, pitch) ∈ naturals := by
  unfold pitchClass?
  split
  case h_8 hc hd he hf hg ha hb =>
    have hletter : c ∉ naturals.map Prod.fst := by
      simp only [naturals, List.map_cons, List.map_nil, List.mem_cons, List.not_mem_nil, or_false, not_or]
      exact ⟨hc, hd, he, hf, hg, ha, hb⟩
    exact iff_of_false nofun (fun h => hletter (List.mem_map_of_mem h))
  all_goals simp [naturals, eq_comm]

theorem letter_of_mem_naturals {c : Char} {pitch : Int} (h : (c, pitch) ∈ naturals) : 'a' ≤ c ∧ c ≤ 'g' := by
  have hall : naturals.all (fun p => 'a' ≤ p.1 && p.1 ≤ 'g') = true := by decide
  simpa using List.all_eq_true.mp hall _ h

theorem accidental_cases (cs : List Char) :
    ∃ a : Accidental, cs = a.text ++ (accidental cs).2 ∧ (accidental cs).1 = a.shift := by
  unfold accidental
  split
  · exact ⟨.sharp, rfl, rfl⟩
  · exact ⟨.flat, rfl, rfl⟩
  · exact ⟨.natural, rfl, rfl⟩

theorem accidental_octave {octave : List Char} (h : octave ∈ integerText.matches') (a : Accidental) :
    accidental (a.text ++ octave) = (a.shift, octave) := by
  obtain ⟨n, negative, ds, hd, rfl, -⟩ := mem_integerText.mp h
  obtain ⟨hne, hall⟩ := isDigits_iff.mp hd
  obtain ⟨d, ds, rfl⟩ := List.exists_cons_of_ne_nil hne
  have hdigit := hall d (List.mem_cons_self ..)
  have hsharp : d ≠ '#' := by rintro rfl; simp at hdigit
  have hflat : d ≠ 'b' := by rintro rfl; simp at hdigit
  cases a <;> cases negative <;> simp [Accidental.text, Accidental.shift, minus, accidental, hsharp, hflat]

theorem Name.Spells.unique {a b : Name} {cs : List Char} (ha : a.Spells cs) (hb : b.Spells cs) : a = b := by
  obtain ⟨hletter, hrest⟩ := List.cons.inj (ha.text.symm.trans hb.text)
  have hparts : (a.accidental.shift, a.octave) = (b.accidental.shift, b.octave) := by
    rw [← accidental_octave ha.octave, ← accidental_octave hb.octave, hrest]
  obtain ⟨hshift, hoctave⟩ := Prod.mk.inj hparts
  obtain ⟨letter, accidental, octave⟩ := a
  rw [Name.mk.injEq]
  exact ⟨hletter, Accidental.shift_injective hshift, hoctave⟩

section Words

def addWords? (a b : Int64) : Option Int64 :=
  if a.toBitVec.saddOverflow b.toBitVec then none else some (a + b)

def mulWords? (a b : Int64) : Option Int64 :=
  if a.toBitVec.smulOverflow b.toBitVec then none else some (a * b)

def keyWord? (octave pitch shift : Int64) : Option Int64 := do
  let octaves ← addWords? octave 1
  let first ← mulWords? octaves 12
  let natural ← addWords? first pitch
  addWords? natural shift

theorem toInt_ofInt {n : Int} (h : minWord ≤ n ∧ n ≤ maxWord) : (Int64.ofInt n).toInt = n :=
  Int64.toInt_ofInt_of_le h.1 (Int.lt_add_one_of_le h.2)

theorem word_of_small {n : Int} (h : -2 ≤ n ∧ n ≤ 132) : minWord ≤ n ∧ n ≤ maxWord := by
  simp only [minWord, maxWord]
  omega

theorem addWords?_ofInt {a b : Int} (ha : minWord ≤ a ∧ a ≤ maxWord) (hb : minWord ≤ b ∧ b ≤ maxWord)
    (h : minWord ≤ a + b ∧ a + b ≤ maxWord) : addWords? (.ofInt a) (.ofInt b) = some (.ofInt (a + b)) := by
  have hfits : (Int64.ofInt a).toBitVec.saddOverflow (Int64.ofInt b).toBitVec = false := by
    simp only [BitVec.saddOverflow, Int64.toInt_toBitVec, toInt_ofInt ha, toInt_ofInt hb]
    simp only [minWord, maxWord] at h
    simp
    omega
  rw [addWords?, hfits, Int64.ofInt_add]
  rfl

theorem mulWords?_ofInt {a b : Int} (ha : minWord ≤ a ∧ a ≤ maxWord) (hb : minWord ≤ b ∧ b ≤ maxWord)
    (h : minWord ≤ a * b ∧ a * b ≤ maxWord) : mulWords? (.ofInt a) (.ofInt b) = some (.ofInt (a * b)) := by
  have hfits : (Int64.ofInt a).toBitVec.smulOverflow (Int64.ofInt b).toBitVec = false := by
    simp only [BitVec.smulOverflow, Int64.toInt_toBitVec, toInt_ofInt ha, toInt_ofInt hb]
    simp only [minWord, maxWord] at h
    simp
    omega
  rw [mulWords?, hfits, Int64.ofInt_mul]
  rfl

theorem keyWord?_ofInt {octave pitch shift : Int} (ho : -1 ≤ octave ∧ octave ≤ 9) (hp : 0 ≤ pitch ∧ pitch ≤ 11)
    (hs : -1 ≤ shift ∧ shift ≤ 1) : keyWord? (.ofInt octave) (.ofInt pitch) (.ofInt shift) =
      some (.ofInt (12 * (octave + 1) + pitch + shift)) := by
  have hone : (1 : Int64) = .ofInt 1 := by decide
  have htwelve : (12 : Int64) = .ofInt 12 := by decide
  have hoctaves := addWords?_ofInt (a := octave) (b := 1) (word_of_small (by omega)) (word_of_small (by omega))
    (word_of_small (by omega))
  have hfirst := mulWords?_ofInt (a := octave + 1) (b := 12) (word_of_small (by omega))
    (word_of_small (by omega)) (word_of_small (by omega))
  have hnatural := addWords?_ofInt (a := (octave + 1) * 12) (b := pitch) (word_of_small (by omega))
    (word_of_small (by omega)) (word_of_small (by omega))
  have hkey := addWords?_ofInt (a := (octave + 1) * 12 + pitch) (b := shift) (word_of_small (by omega))
    (word_of_small (by omega)) (word_of_small (by omega))
  rw [keyWord?, hone, htwelve]
  simp only [hoctaves, hfirst, hnatural, hkey, Option.bind_eq_bind, Option.bind_some, Int.mul_comm]

theorem keyWord?_eq_some_iff {octave pitch shift n : Int} (ho : -1 ≤ octave ∧ octave ≤ 9)
    (hp : 0 ≤ pitch ∧ pitch ≤ 11) (hs : -1 ≤ shift ∧ shift ≤ 1) (hn : 0 ≤ n ∧ n ≤ 127) :
    keyWord? (.ofInt octave) (.ofInt pitch) (.ofInt shift) = some (.ofInt n) ↔
      n = 12 * (octave + 1) + pitch + shift := by
  rw [keyWord?_ofInt ho hp hs, Option.some.injEq]
  constructor
  · intro h
    have hword := congrArg Int64.toInt h
    rw [toInt_ofInt (word_of_small (by omega)), toInt_ofInt (word_of_small (by omega))] at hword
    exact hword.symm
  · rintro rfl
    rfl

end Words

theorem pitch_of_mem_naturals {c : Char} {pitch : Int} (h : (c, pitch) ∈ naturals) : 0 ≤ pitch ∧ pitch ≤ 11 := by
  have hall : naturals.all (fun p => 0 ≤ p.2 && p.2 ≤ 11) = true := by decide
  simpa using List.all_eq_true.mp hall _ h

theorem Accidental.shift_range (a : Accidental) : -1 ≤ a.shift ∧ a.shift ≤ 1 := by
  cases a <;> decide

theorem accidental_range (cs : List Char) : -1 ≤ (accidental cs).1 ∧ (accidental cs).1 ≤ 1 := by
  obtain ⟨a, -, hshift⟩ := accidental_cases cs
  rw [hshift]
  exact a.shift_range

/-- The key is the one that the computation in words comes to. -/
theorem parse?_eq_some_iff {cs : List Char} {n : Int} : parse? cs = some n ↔
    ∃ c rest pitch octave, cs.map Char.toLower = c :: rest ∧ pitchClass? c = some pitch ∧
      word? (accidental rest).2 = some octave ∧ (-1 ≤ octave ∧ octave ≤ 9) ∧
      keyWord? (.ofInt octave) (.ofInt pitch) (.ofInt (accidental rest).1) = some (.ofInt n) ∧
      0 ≤ n ∧ n ≤ 127 := by
  unfold parse?
  cases cs.map Char.toLower with
  | nil => simp
  | cons c rest =>
    simp only [Option.bind_eq_bind, Option.bind_eq_some_iff, Option.guard_eq_some', Option.pure_def,
      Option.some.injEq, List.cons.injEq]
    constructor
    · rintro ⟨pitch, hp, octave, ho, -, hrange, -, hkey, rfl⟩
      have hpitch := pitch_of_mem_naturals (pitchClass?_eq_some_iff.mp hp)
      exact ⟨c, rest, pitch, octave, ⟨rfl, rfl⟩, hp, ho, hrange,
        (keyWord?_eq_some_iff hrange hpitch (accidental_range rest) hkey).mpr (by omega), hkey⟩
    · rintro ⟨c, rest, pitch, octave, ⟨rfl, rfl⟩, hp, ho, hrange, hword, hkey⟩
      have hpitch := pitch_of_mem_naturals (pitchClass?_eq_some_iff.mp hp)
      have hn := (keyWord?_eq_some_iff hrange hpitch (accidental_range rest) hkey).mp hword
      exact ⟨pitch, hp, octave, ho, (), hrange, (), by omega, by omega⟩

theorem word?_eq_some_of_octave {cs : List Char} {octave : Int} (hd : Denotes cs octave)
    (h : -1 ≤ octave ∧ octave ≤ 9) : word? cs = some octave := by
  refine word?_eq_some_iff.mpr ⟨hd, ?_⟩
  simp only [minWord, maxWord]
  omega

theorem Name.Counts.keyWord? {name : Name} {octave n pitch : Int} (h : name.Counts octave n)
    (hp : (name.letter, pitch) ∈ naturals) :
    keyWord? (.ofInt octave) (.ofInt pitch) (.ofInt name.accidental.shift) = some (.ofInt n) := by
  obtain ⟨-, hrange, pitch', hp', rfl⟩ := h
  have hpitch : pitch' = pitch := by
    have hclass := pitchClass?_eq_some_iff.mpr hp'
    rw [pitchClass?_eq_some_iff.mpr hp] at hclass
    exact (Option.some.inj hclass).symm
  rw [keyWord?_ofInt hrange (pitch_of_mem_naturals hp) name.accidental.shift_range, hpitch]

theorem parse?_iff_counts {cs : List Char} {n : Int} : parse? cs = some n ↔
    ∃ name : Name, name.Spells cs ∧ ∃ octave, name.Counts octave n ∧ 0 ≤ n ∧ n ≤ 127 := by
  rw [parse?_eq_some_iff]
  constructor
  · rintro ⟨c, rest, pitch, octave, hcs, hp, ho, hrange, hword, hkey⟩
    obtain ⟨a, htext, hshift⟩ := accidental_cases rest
    have hd := (word?_eq_some_iff.mp ho).1
    have hc := pitchClass?_eq_some_iff.mp hp
    have hpitch := pitch_of_mem_naturals hc
    have hn := (keyWord?_eq_some_iff hrange hpitch (accidental_range rest) hkey).mp hword
    refine ⟨⟨c, a, (accidental rest).2⟩, ⟨letter_of_mem_naturals hc, mem_integerText.mpr ⟨octave, hd⟩, ?_⟩,
      octave, ⟨hd, hrange, pitch, hc, ?_⟩, hkey⟩
    · rw [hcs, ← htext]
    · rw [hn, hshift]
  · rintro ⟨name, hs, octave, hcounts, hkey⟩
    have ⟨hd, hrange, pitch, hc, _⟩ := hcounts
    refine ⟨name.letter, _, pitch, octave, hs.text, pitchClass?_eq_some_iff.mpr hc, ?_, hrange, ?_, hkey⟩
    · rw [accidental_octave hs.octave]
      exact word?_eq_some_of_octave hd hrange
    · rw [accidental_octave hs.octave]
      exact hcounts.keyWord? hc

/-- A text denotes a key exactly if it spells a note between the least and the greatest key. It spells one note
at most, and whenever the key of a spelled note is computed, no step overflows. -/
theorem names_denote_one_key (s : String) :
    (∀ n, parse? s.toList = some n ↔
      ∃ name : Name, name.Spells s.toList ∧ ∃ octave, name.Counts octave n ∧ 0 ≤ n ∧ n ≤ 127) ∧
    (∀ a b : Name, a.Spells s.toList → b.Spells s.toList → a = b) ∧
    ∀ (name : Name) (octave pitch n : Int), name.Spells s.toList → name.Counts octave n →
      (name.letter, pitch) ∈ naturals →
        keyWord? (.ofInt octave) (.ofInt pitch) (.ofInt name.accidental.shift) = some (.ofInt n) :=
  ⟨fun _ => parse?_iff_counts, fun _ _ => Name.Spells.unique, fun _ _ _ _ _ => Name.Counts.keyWord?⟩

theorem names_denote_one_key_flat :
    parse? "Bb00004".toList = some 70 ∧ (∀ name : Name, name.Spells "Bb00004".toList →
      name = ⟨'b', .flat, "00004".toList⟩) ∧
      keyWord? (.ofInt 4) (.ofInt 11) (.ofInt (-1)) = some (.ofInt 70) := by
  obtain ⟨hkey, hunique, hword⟩ := names_denote_one_key "Bb00004"
  have hd : Denotes "00004".toList 4 := integer?_eq_some_iff.mp (by decide)
  have hs : (⟨'b', .flat, "00004".toList⟩ : Name).Spells "Bb00004".toList :=
    ⟨by decide, mem_integerText.mpr ⟨4, hd⟩, by decide⟩
  have hc : (⟨'b', .flat, "00004".toList⟩ : Name).Counts 4 70 := ⟨hd, by decide, 11, by decide, by decide⟩
  have hread := (hkey 70).mpr ⟨_, hs, 4, hc, by decide⟩
  have hfits := hword _ 4 11 70 hs hc (by decide)
  exact ⟨hread, fun name hname => hunique _ _ hname hs, hfits⟩

end Sfz.Note
