import Mathlib.Tactic

/-!
# Programs that fork

A process runs a program over a state of its own.  The program may fork: the child goes on with
the same program and a copy of the state, and only the value of the call tells the two apart.  A
process that does not return to the caller of the program exits, or becomes another image.  What
the system decides, such as whether a fork succeeds, is a choice.

A run gives what became of the process that was started, and of every process forked off on the
way.  What is said about them holds of a program if it holds along all its branches, and the rules
follow the way a program is put together.
-/

/-- How a process ends: it exits with a status, or becomes an image. -/
inductive Ending (β : Type) where
  | exited (status : ℕ)
  | became (image : β)
deriving DecidableEq

/-- The ways a program can go on. -/
inductive Forking (β α : Type) where
  | ret (a : α)
  | stop (e : Ending β)
  | choose (next : Bool → Forking β α)
  | fork (parent child : Forking β α)

/-- The value of a call of `fork`. -/
inductive Forked where
  | failed
  | parent
  | child
deriving DecidableEq

namespace Forking

variable {σ β α γ : Type}

/-- One program behind another. -/
def bind (f : α → Forking β γ) : Forking β α → Forking β γ
  | ret a => f a
  | stop e => stop e
  | choose next => choose fun b => (next b).bind f
  | fork parent child => fork (parent.bind f) (child.bind f)

/-- Along all branches, a process that returns satisfies `Q`, and one that ends `E`; both are told
whether it is the process that was started. -/
def All (Q : Bool → α → Prop) (E : Bool → Ending β → Prop) : Bool → Forking β α → Prop
  | main, ret a => Q main a
  | main, stop e => E main e
  | main, choose next => ∀ b, (next b).All Q E main
  | main, fork parent child => parent.All Q E main ∧ child.All Q E false

/-- There is no fork on any branch. -/
def Single : Forking β α → Prop
  | ret _ => True
  | stop _ => True
  | choose next => ∀ b, (next b).Single
  | fork _ _ => False

theorem Single.bind {m : Forking β α} {f : α → Forking β γ} (hm : m.Single)
    (hf : ∀ a, (f a).Single) :
  (m.bind f).Single
  := by
  induction m with
  | ret a => exact hf a
  | stop e => trivial
  | choose next ih => exact fun b => ih b (hm b)
  | fork parent child => exact hm.elim

/-- A bound for the number of processes that become images, where `k` bounds it for what follows a
return. -/
def images (k : α → ℕ) : Forking β α → ℕ
  | ret a => k a
  | stop (.exited _) => 0
  | stop (.became _) => 1
  | choose next => max ((next false).images k) ((next true).images k)
  | fork parent child => parent.images k + child.images k

end Forking

/-! ### Programs over the state of a process -/

/-- A program over states of type `σ`. -/
def Program (σ β α : Type) := σ → Forking β (α × σ)

namespace Program

variable {σ β α γ : Type}

instance : Monad (Program σ β) where
  pure a := fun s => .ret (a, s)
  bind m f := fun s => (m s).bind fun x => f x.1 x.2

/-- The state of the process. -/
def get : Program σ β σ := fun s => .ret (s, s)

/-- The state is changed. -/
def modify (f : σ → σ) : Program σ β Unit := fun s => .ret ((), f s)

/-- The system decides. -/
def choose : Program σ β Bool := fun s => .choose fun b => .ret (b, s)

/-- `_exit`. -/
def exit (status : ℕ) : Program σ β Unit := fun _ => .stop (.exited status)

/-- A call of the `exec` family: the process becomes an image, or goes on. -/
def exec (image : σ → β) : Program σ β Unit :=
  fun s => .choose fun b => if b then .stop (.became (image s)) else .ret ((), s)

/-- `fork`, which may fail. -/
def fork : Program σ β Forked :=
  fun s => .choose fun b =>
    if b then .fork (.ret (.parent, s)) (.ret (.child, s)) else .ret (.failed, s)

/-- Along all branches from a state, a process that returns satisfies `Q`, and one that ends
`E`. -/
def All (Q : Bool → α → σ → Prop) (E : Bool → Ending β → Prop) (main : Bool) (m : Program σ β α)
    (s : σ) : Prop :=
  (m s).All (fun main x => Q main x.1 x.2) E main

variable {Q : Bool → α → σ → Prop} {E : Bool → Ending β → Prop} {main : Bool} {s : σ}

/-- There is no fork on any branch, from any state. -/
def Single (m : Program σ β α) : Prop := ∀ s, (m s).Single

theorem Single.bind {m : Program σ β α} {f : α → Program σ β γ} (hm : Single m)
    (hf : ∀ a, Single (f a)) :
  Single (m >>= f)
  := fun s => Forking.Single.bind (hm s) fun x => hf x.1 x.2

/-- A bound for the number of processes that become images. -/
def images (k : α → σ → ℕ) (m : Program σ β α) (s : σ) : ℕ := (m s).images fun x => k x.1 x.2

/-- A program is run by a child, if there is one; the caller is told whether. -/
def forkChild (m : Program σ β Unit) : Program σ β Bool := do
  match ← fork with
  | .failed => pure false
  | .parent => pure true
  | .child =>
      m
      pure false

/-- A program is run by the child of a child, which has exited at once; the caller goes on. -/
def doubleFork (m : Program σ β Unit) : Program σ β Unit := do
  match ← fork with
  | .child =>
      match ← fork with
      | .child => m
      | _ => exit 0
  | _ => pure ()

end Program
