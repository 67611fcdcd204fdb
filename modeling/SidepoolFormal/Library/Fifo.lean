import SidepoolFormal.Library.Run
import Mathlib.Data.List.Infix

/-!
# First in, first out

A system has a queue when every step takes entries from the front of a list or
puts entries at its back, and its label tells which.  Over a run what was taken
and what is still there is what was put, in that order.
-/

namespace SidepoolFormal.Library

variable {S L J : Type}

structure Fifo (step : S → L → S → Prop) (J : Type) where
  queue : S → List J
  pushed : L → List J
  popped : L → List J
  moves : ∀ {s l s'}, step s l s' → queue s ++ pushed l = popped l ++ queue s'

namespace Fifo

variable {step : S → L → S → Prop} (fifo : Fifo step J) {s₀ s : S} {trace : List L}

/-- All that was put into the queue in a run. -/
def ins (trace : List L) : List J := trace.flatMap fifo.pushed

/-- All that was taken from it. -/
def outs (trace : List L) : List J := trace.flatMap fifo.popped

theorem balance (run : Run step s₀ trace s) :
    fifo.queue s₀ ++ fifo.ins trace = fifo.outs trace ++ fifo.queue s := by
  induction run with
  | nil => simp [ins, outs]
  | @snoc trace s s' l run next ih =>
      calc fifo.queue s₀ ++ fifo.ins (trace ++ [l])
          = (fifo.queue s₀ ++ fifo.ins trace) ++ fifo.pushed l := by simp [ins]
        _ = fifo.outs trace ++ (fifo.queue s ++ fifo.pushed l) := by rw [ih, List.append_assoc]
        _ = fifo.outs (trace ++ [l]) ++ fifo.queue s' := by
            rw [fifo.moves next]
            simp [outs]

/-- Entries leave an empty queue in the order in which they came. -/
theorem outs_in_order (run : Run step s₀ trace s) (empty : fifo.queue s₀ = []) :
    fifo.outs trace <+: fifo.ins trace := by
  have balance := fifo.balance run
  rw [empty, List.nil_append] at balance
  exact ⟨_, balance.symm⟩

/-- When the queue is empty again, all that came has left. -/
theorem outs_eq (run : Run step s₀ trace s) (empty : fifo.queue s₀ = [])
    (drained : fifo.queue s = []) : fifo.outs trace = fifo.ins trace := by
  have balance := fifo.balance run
  rw [empty, drained, List.nil_append, List.append_nil] at balance
  exact balance.symm

end Fifo

end SidepoolFormal.Library
