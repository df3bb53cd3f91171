/-!
# Computations that succeed or fail

How a result of a composed computation, or its failure, comes from those of its parts.
-/

namespace DigitiserSums

variable {ε ε' α β : Type}

theorem bind_eq_ok_iff {x : Except ε α} {f : α → Except ε β} {b : β} :
    (x >>= f) = .ok b ↔ ∃ a, x = .ok a ∧ f a = .ok b := by
  cases x with
  | error e =>
      constructor
      · intro h
        contradiction
      · intro h
        obtain ⟨a, h, -⟩ := h
        contradiction
  | ok a =>
      constructor
      · intro h
        exact ⟨a, rfl, h⟩
      · intro h
        obtain ⟨a', h, hf⟩ := h
        cases h
        exact hf

theorem bind_eq_error_iff {x : Except ε α} {f : α → Except ε β} {e : ε} :
    (x >>= f) = .error e ↔ x = .error e ∨ ∃ a, x = .ok a ∧ f a = .error e := by
  cases x <;> simp [bind, Except.bind]

theorem map_eq_ok_iff {x : Except ε α} {f : α → β} {b : β} :
    x.map f = .ok b ↔ ∃ a, x = .ok a ∧ f a = b := by
  cases x with
  | error e => simp [Except.map]
  | ok a => simp [Except.map]

theorem map_eq_error_iff {x : Except ε α} {f : α → β} {e : ε} :
    x.map f = .error e ↔ x = .error e := by
  cases x <;> simp [Except.map]

theorem mapError_eq_ok_iff {x : Except ε α} {f : ε → ε'} {a : α} :
    x.mapError f = .ok a ↔ x = .ok a := by
  cases x with
  | error e => exact ⟨nofun, nofun⟩
  | ok a' => exact ⟨fun h => by cases h; rfl, fun h => by cases h; rfl⟩

theorem toOption_eq_some_iff {x : Except ε α} {a : α} : x.toOption = some a ↔ x = .ok a := by
  cases x with
  | error e => exact ⟨nofun, nofun⟩
  | ok a' => exact ⟨fun h => by cases h; rfl, fun h => by cases h; rfl⟩

/-- An optional part succeeds when it is missing or succeeds by itself. -/
theorem mapM_eq_ok_iff {f : α → Except ε β} {o : Option α} {p : Option β} :
    o.mapM f = .ok p ↔ (o = none ∧ p = none) ∨ ∃ a b, o = some a ∧ f a = .ok b ∧ p = some b := by
  cases o with
  | none =>
      constructor
      · intro h
        cases h
        exact .inl ⟨rfl, rfl⟩
      · intro h
        rcases h with ⟨-, rfl⟩ | ⟨a, b, h, -⟩
        · rfl
        · contradiction
  | some a =>
      change (f a).map some = .ok p ↔ _
      rw [map_eq_ok_iff]
      constructor
      · intro h
        obtain ⟨b, hb, rfl⟩ := h
        exact .inr ⟨a, b, rfl, hb, rfl⟩
      · intro h
        rcases h with ⟨h, -⟩ | ⟨a', b, h, hb, rfl⟩
        · contradiction
        · cases h
          exact ⟨b, hb, rfl⟩

end DigitiserSums
