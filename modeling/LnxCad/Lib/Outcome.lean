/-!
# Parts of a function

A part of a function goes on with a value, or makes the function return, or does not come
to an end.
-/

/-- What a part of a function comes to. -/
inductive Outcome (ρ α : Type) where
  | next (a : α)
  | ret (r : ρ)
  | stuck

namespace Outcome

variable {ρ α β : Type}

/-- One part after the other. -/
def bind (x : Outcome ρ α) (f : α → Outcome ρ β) : Outcome ρ β :=
  match x with
  | .next a => f a
  | .ret r => .ret r
  | .stuck => .stuck

instance : Monad (Outcome ρ) where
  pure := Outcome.next
  bind := Outcome.bind

/-- What the function returns. -/
def result : Outcome ρ α → Option ρ
  | .next _ => none
  | .ret r => some r
  | .stuck => none

@[simp]
theorem next_bind (a : α) (f : α → Outcome ρ β) :
  (Outcome.next a >>= f) = f a
  := rfl

@[simp]
theorem ret_bind (r : ρ) (f : α → Outcome ρ β) :
  (Outcome.ret r >>= f) = Outcome.ret r
  := rfl

end Outcome
