namespace Sfz

variable {ε δ α β : Type}

theorem bind_eq_ok {r : Except ε α} {next : α → Except ε β} {value : β} :
    r >>= next = .ok value ↔ ∃ first, r = .ok first ∧ next first = .ok value := by
  cases r with
  | error e => simp [bind, Except.bind]
  | ok first => simp [bind, Except.bind]

theorem bind_eq_error {r : Except ε α} {next : α → Except ε β} {e : ε} :
    r >>= next = .error e ↔ r = .error e ∨ ∃ first, r = .ok first ∧ next first = .error e := by
  cases r with
  | error e => simp [bind, Except.bind]
  | ok first => simp [bind, Except.bind]

theorem pure_eq_ok {first value : α} : (pure first : Except ε α) = .ok value ↔ first = value := by
  simp [pure, Except.pure]

theorem map_eq_ok {r : Except ε α} {g : α → β} {value : β} :
    r.map g = .ok value ↔ ∃ first, r = .ok first ∧ g first = value := by
  cases r with
  | error e => simp [Except.map]
  | ok first => simp [Except.map]

theorem mapError_eq_ok {r : Except ε α} {g : ε → δ} {value : α} :
    r.mapError g = .ok value ↔ r = .ok value := by
  cases r with
  | error e => exact ⟨nofun, nofun⟩
  | ok first =>
    constructor
    · intro h
      exact congrArg Except.ok (Except.ok.inj h)
    · intro h
      exact congrArg Except.ok (Except.ok.inj h)

end Sfz
