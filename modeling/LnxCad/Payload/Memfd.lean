import LnxCad.Lib.Custody
import LnxCad.Lib.WriteAll
import LnxCad.Lz4.Sequences
import LnxCad.Payload.Header
import LnxCad.Zx0.RoundTrip

/-!
# Programs in memory

The watchdog unpacks the graphical program into a sealed file in memory, or into a temporary file if
there is none; the graphical program puts its tools into one as well.  Whatever the system calls do,
either all of the program is in the file, or nothing is kept.
-/

namespace LnxCad.Payload

/-! ### `prepare_gui_memfd` -/

/-- What a call of `write` returned, and whether `errno` is `EINTR` then. -/
structure WriteCall where
  n : ℤ
  eintr : Bool

/-- The temporary files. -/
inductive FallbackPath where
  | shm
  | tmp
deriving DecidableEq

/-- What `prepare_gui_memfd` has to give back. -/
inductive Resource where
  | fd (n : ℕ)
  | file (path : FallbackPath)
  | decBuf
deriving DecidableEq

/-- What `prepare_gui_memfd` leaves: the value returned, `fallback_path`, what was acquired and
released, what is in the file, and whether it is sealed. -/
structure Prepared where
  value : Option ℕ
  fallback : Option FallbackPath
  log : List (Deal Resource)
  file : Bytes
  sealed : Bool

/-- The descriptor, and the temporary file if there is one. -/
def kept (fd : ℕ) : Option FallbackPath → Multiset Resource
  | none => {.fd fd}
  | some path => {.file path, .fd fd}

/-- The program is behind the descriptor that was returned, in a sealed file or in a temporary one,
and nothing else is kept; or nothing is kept at all. -/
def Prepared.Sound (x : Bytes) (p : Prepared) : Prop :=
  match p.value with
  | some fd =>
      p.file = x ∧ (p.fallback = none → p.sealed = true)
        ∧ Custody.held p.log = some (kept fd p.fallback)
  | none => Custody.held p.log = some 0

variable {calls : MemfdCalls} {decompress : Bytes → Option (ℤ × Bytes)} {x : Bytes}

/-- A call of `write`, as `init_busybox_memfd` takes it. -/
def WriteCall.busybox (c : WriteCall) : WriteAll.Call :=
  if c.n ≤ 0 then if c.eintr then .interrupted else .failed else .wrote c.n.toNat

/-- `init_busybox_memfd`: the descriptor it keeps, what was acquired and released, and what is in the
file; `none` if it never comes to an end.  The file is sealed if that can be done. -/
def initBusyboxMemfd (memfd : Option ℕ) (writes : List WriteCall) (busybox_data : Bytes) :
    Option (Option ℕ × List (Deal ℕ) × Bytes) :=
  match memfd with
  | none => some (none, [], [])
  | some fd => do
      let (done, file) ← WriteAll.run (writes.map WriteCall.busybox) busybox_data []
      if done = false then some (none, [.acquire fd, .use fd, .release fd], file)
      else some (some fd, [.acquire fd, .use fd, .use fd], file)

/-- The tools are all behind the descriptor that is kept, or none is kept. -/
theorem initBusyboxMemfd_sound {memfd : Option ℕ} {writes : List WriteCall} {busybox_data : Bytes}
    {value : Option ℕ} {log : List (Deal ℕ)} {file : Bytes}
    (h : initBusyboxMemfd memfd writes busybox_data = some (value, log, file)) :
  (∀ fd, value = some fd → file = busybox_data ∧ Custody.held log = some {fd})
    ∧ (value = none → Custody.held log = some 0)
  := by
  unfold initBusyboxMemfd at h
  cases memfd with
  | none =>
      cases h
      refine ⟨?_, fun _ => rfl⟩
      rintro fd ⟨⟩
  | some fd =>
      dsimp only at h
      rw [Option.bind_eq_bind, Option.bind_eq_some_iff] at h
      obtain ⟨⟨done, file'⟩, hrun, h⟩ := h
      obtain ⟨-, hdone⟩ := WriteAll.run_spec hrun
      dsimp only at h
      cases done with
      | false =>
          rw [if_pos rfl] at h
          cases h
          refine ⟨?_, fun _ => by simp [Custody.held, Custody.heldFrom, Deal.perform]⟩
          rintro fd ⟨⟩
      | true =>
          rw [if_neg (by decide)] at h
          cases h
          refine ⟨?_, ?_⟩
          · rintro fd ⟨⟩
            exact ⟨hdone rfl, by simp [Custody.held, Custody.heldFrom, Deal.perform]⟩
          · intro hnone
            cases hnone

/-! ### From the packer to the watchdog -/

end LnxCad.Payload
