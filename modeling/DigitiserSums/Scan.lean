/-!
# Stepping through a list

`scan` runs a machine over a list and keeps what every step gives. A `Feed` runs it lazily: it is
asked for one result at a time and takes no more inputs than the next result needs.
-/

namespace DigitiserSums

variable {σ ι ο : Type}

/-- Steps through the inputs in order and keeps what each step gives, with the state reached. -/
def scan (step : σ → ι → ο × σ) (s : σ) : List ι → List ο × σ
  | [] => ([], s)
  | i :: inputs =>
    let (o, s) := step s i
    let (rest, s) := scan step s inputs
    (o :: rest, s)

@[simp] theorem scan_nil (step : σ → ι → ο × σ) (s : σ) : scan step s [] = ([], s) :=
  rfl

@[simp] theorem scan_cons (step : σ → ι → ο × σ) (s : σ) (i : ι) (inputs : List ι) :
    scan step s (i :: inputs) =
      ((step s i).1 :: (scan step (step s i).2 inputs).1, (scan step (step s i).2 inputs).2) :=
  rfl

theorem length_scan (step : σ → ι → ο × σ) (s : σ) (inputs : List ι) :
    (scan step s inputs).1.length = inputs.length := by
  induction inputs generalizing s with
  | nil => rfl
  | cons i inputs ih => simp [ih]

theorem scan_append (step : σ → ι → ο × σ) (s : σ) (xs ys : List ι) :
    scan step s (xs ++ ys) =
      ((scan step s xs).1 ++ (scan step (scan step s xs).2 ys).1,
        (scan step (scan step s xs).2 ys).2) := by
  induction xs generalizing s with
  | nil => rfl
  | cons i xs ih => simp [ih]

/-- A machine in some state with the inputs that it has not taken yet. -/
structure Feed (σ ι : Type) where
  state : σ
  source : List ι
deriving DecidableEq, Repr

namespace Feed

variable (step : σ → ι → Option ο × σ)

/-- Takes inputs up to the one that gives a result; without such an input, takes them all. -/
def next (f : Feed σ ι) : Option ο × Feed σ ι :=
  go f.state f.source
where
  go (s : σ) : List ι → Option ο × Feed σ ι
    | [] => (none, ⟨s, []⟩)
    | i :: source =>
      match step s i with
      | (some o, s) => (some o, ⟨s, source⟩)
      | (none, s) => go s source

/-- Asks for at most `n` results, and stops at the first that does not come. -/
def take : Nat → Feed σ ι → List ο × Feed σ ι
  | 0, f => ([], f)
  | n + 1, f =>
    match f.next step with
    | (none, f) => ([], f)
    | (some o, f) =>
      let (rest, f) := take n f
      (o :: rest, f)

/-- Asks for every result. As each takes an input, there are no more of them than inputs. -/
def drain (f : Feed σ ι) : List ο × Feed σ ι :=
  f.take step (f.source.length + 1)

def results (f : Feed σ ι) : List ο :=
  (scan step f.state f.source).1.filterMap id

theorem results_cons (s : σ) (i : ι) (source : List ι) :
    results step ⟨s, i :: source⟩ =
      (step s i).1.toList ++ results step ⟨(step s i).2, source⟩ := by
  simp only [results, scan_cons, List.filterMap_cons, id]
  cases (step s i).1 <;> rfl

theorem results_append (s : σ) (xs ys : List ι) :
    results step ⟨s, xs ++ ys⟩ =
      results step ⟨s, xs⟩ ++ results step ⟨(scan step s xs).2, ys⟩ := by
  simp [results, scan_append]

/-- Asking for one result neither loses nor repeats any. -/
theorem results_eq_next (f : Feed σ ι) :
    f.results step = (f.next step).1.toList ++ (f.next step).2.results step := by
  obtain ⟨s, source⟩ := f
  induction source generalizing s with
  | nil => rfl
  | cons i source ih =>
    simp only [results, next, next.go, scan_cons, List.filterMap_cons, id]
    rcases h : step s i with ⟨_ | o, t⟩
    · simpa [results, next] using ih t
    · simp

/-- A result takes an input at least. -/
theorem length_source_next {f g : Feed σ ι} {o : ο} (h : f.next step = (some o, g)) :
    g.source.length < f.source.length := by
  obtain ⟨s, source⟩ := f
  induction source generalizing s with
  | nil => cases h
  | cons i source ih =>
    simp only [next, next.go] at h
    split at h
    · cases h
      exact Nat.lt_succ_self _
    · exact Nat.lt_succ_of_lt (ih _ h)

/-- Without a result, no input is left. -/
theorem source_next_eq_nil {f g : Feed σ ι} (h : f.next step = (none, g)) : g.source = [] := by
  obtain ⟨s, source⟩ := f
  induction source generalizing s with
  | nil =>
    cases h
    rfl
  | cons i source ih =>
    simp only [next, next.go] at h
    split at h
    · cases h
    · exact ih _ h

/-- Asking for more results than there are inputs gives all of them. -/
theorem take_fst_of_length_lt {n : Nat} {f : Feed σ ι} (h : f.source.length < n) :
    (f.take step n).1 = f.results step := by
  induction n generalizing f with
  | zero => omega
  | succ n ih =>
    rw [results_eq_next]
    rcases hnext : f.next step with ⟨_ | o, g⟩
    · simp [take, hnext, results, source_next_eq_nil step hnext]
    · have hlength := length_source_next step hnext
      simp [take, hnext, ih (f := g) (by omega)]

theorem drain_fst (f : Feed σ ι) : (f.drain step).1 = f.results step :=
  take_fst_of_length_lt step (Nat.lt_succ_self _)

end Feed

end DigitiserSums
