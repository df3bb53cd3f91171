import DigitiserSums.Proofs.History

/-!
# Two runs side by side

A statement about two runs is proved of one step: what the steps give is related and so are the
states after them, if the states before them and the inputs are. From this it holds at every place of
two streams. What is seen of a session at a push is what it gives and both of its counts.
-/

namespace DigitiserSums

/-! ## Two machines -/

section Scan

variable {σ τ ι κ ο π : Type} {step : σ → ι → ο × σ} {step' : τ → κ → π × τ}
  (States : σ → τ → Prop) (Inputs : ι → κ → Prop) (Outputs : ο → π → Prop)

/-- What one pair of steps keeps, a pair of runs keeps at every place. -/
theorem scan_forall₂
    (hstep : ∀ s t i k, States s t → Inputs i k →
      Outputs (step s i).1 (step' t k).1 ∧ States (step s i).2 (step' t k).2)
    {s : σ} {t : τ} (h : States s t) {inputs : List ι} {inputs' : List κ}
    (hinputs : List.Forall₂ Inputs inputs inputs') :
    List.Forall₂ Outputs (scan step s inputs).1 (scan step' t inputs').1 ∧
      States (scan step s inputs).2 (scan step' t inputs').2 := by
  induction hinputs generalizing s t with
  | nil => exact ⟨.nil, h⟩
  | cons hinput _ ih =>
      have hfirst := hstep _ _ _ _ h hinput
      have hrest := ih hfirst.2
      exact ⟨.cons hfirst.1 hrest.1, hrest.2⟩

end Scan

/-! ## Sessions as they are seen -/

namespace Session

/-- What is seen of a session at a push: what it gives, and both counts after it. -/
structure Sight where
  reply : Except SampleOutOfRange (Option Emission)
  samplesReceived : Position
  sumsEmitted : Position
deriving DecidableEq

/-- A push as it is seen. A sample that is refused leaves the session as it is. -/
def see (s : Session) (x : Sample) : Sight × Session :=
  let (reply, next) := s.orKeep (s.push x)
  (⟨reply, next.samplesReceived, next.sumsEmitted⟩, next)

/-- What is seen of a session at the samples of a stream, in order. -/
def sights (s : Session) (stream : List Sample) : List Sight :=
  (scan see s stream).1

theorem see_of_ok {s : Session} {x : Sample} {reply : Option Emission × Session}
    (h : s.push x = .ok reply) :
    s.see x = (⟨.ok reply.1, reply.2.samplesReceived, reply.2.sumsEmitted⟩, reply.2) := by
  rw [see, h]
  rfl

theorem see_of_error {s : Session} {x : Sample} {e : SampleOutOfRange}
    (h : s.push x = .error e) :
    s.see x = (⟨.error e, s.samplesReceived, s.sumsEmitted⟩, s) := by
  rw [see, h]
  rfl

end Session

end DigitiserSums
