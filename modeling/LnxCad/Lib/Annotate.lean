import LnxCad.Lib.Interrupt

/-!
# Programs with a record

A program can be run beside a record of what it does.  The steps that write the record
read the state of the program and leave it alone, so without the record the program is the
one it was.
-/

namespace Prog

variable {σ ω α β : Type}

/-- A program that leaves the record alone. -/
def lift (m : Prog σ α) : Prog (σ × ω) α :=
  fun t => ((m t.1).1.map (·, t.2), (m t.1).2.1, (m t.1).2.2, t.2)

/-- A step that writes the record. -/
def note (f : σ × ω → ω) : Prog (σ × ω) Unit := step fun t => ((), t.1, f t)

/-- A program with a record returns what the one without returns, and ends in the same
state. -/
def Annotates (m' : Prog (σ × ω) α) (m : Prog σ α) : Prop :=
  ∀ t, m'.result t = m.result t.1 ∧ (m'.final t).1 = m.final t.1

namespace Annotates

variable {m : Prog σ α} {m' : Prog (σ × ω) α}

theorem pure (a : α) :
  Annotates (Pure.pure a : Prog (σ × ω) α) (Pure.pure a)
  := by
  intro t
  exact ⟨rfl, rfl⟩

theorem lift (m : Prog σ α) :
  Annotates (m.lift : Prog (σ × ω) α) m
  := by
  intro t
  exact ⟨rfl, rfl⟩

theorem bind {f : α → Prog σ β} {f' : α → Prog (σ × ω) β}
    (hm : Annotates m' m) (hf : ∀ a, Annotates (f' a) (f a)) :
  Annotates (m' >>= f') (m >>= f)
  := by
  intro t
  obtain ⟨hresult, hfinal⟩ := hm t
  obtain ⟨hresult', hfinal'⟩ := hf (m'.result t) (m'.final t)
  rw [hfinal, hresult] at hresult' hfinal'
  rw [result_bind, result_bind, final_bind, final_bind, hresult]
  exact ⟨hresult', hfinal'⟩

/-- A note in front of a program. -/
theorem note_bind {f : σ × ω → ω} {m' : Unit → Prog (σ × ω) α} (h : Annotates (m' ()) m) :
  Annotates (note f >>= m') m
  := by
  intro t
  apply h (t.1, f t)

end Annotates

/-- A program that leaves the record alone. -/
theorem lift_record (m : Prog σ α) :
  Inert (fun t : σ × ω => t.2) m.lift
  := by
  intro P t ht
  constructor
  · intro u hu
    obtain ⟨s, -, rfl⟩ := List.mem_map.mp hu
    apply ht
  · apply ht

/-- What a program does to a view of its state it does beside a record. -/
theorem Inert.lift {υ : Type} {view : σ → υ} {m : Prog σ α} (h : Inert view m) :
  Inert (fun t : σ × ω => (view t.1, t.2)) m.lift
  := by
  intro P t ht
  obtain ⟨hvisited, hfinal⟩ := h (fun v => P (v, t.2)) t.1 ht
  constructor
  · intro u hu
    obtain ⟨s, hs, rfl⟩ := List.mem_map.mp hu
    apply hvisited s hs
  · apply hfinal

end Prog
