import LnxCad.Lib.Lz4Block
import LnxCad.Lib.Trace
import LnxCad.Lz4.Decompress

/-!
# Lengths and copies

What lies ahead of the read pointer is a list of bytes.  A length is read back from the
bytes that continue its half byte, and the copies put into the output what the format says.
All accesses stay in their arrays, except for those of literals that are not there.
-/

namespace LnxCad.Lz4

open Lz4Block

/-! ### Accesses -/

/-- The access is in its arrays; a byte of the output is read only where one has been
produced before. -/
def Access.Safe (size cap : ℤ) : Access → Prop
  | .read i => 0 ≤ i ∧ i < size
  | .copy .src s d => 0 ≤ s ∧ s < size ∧ 0 ≤ d ∧ d < cap
  | .copy .dst s d => 0 ≤ s ∧ s < d ∧ d < cap

/-- The accesses made so far are in their arrays. -/
def Memory.AllSafe (m : Memory) : Prop := ∀ a ∈ m.accesses, a.Safe m.src.length m.dst.length

/-- Some accesses are made, all in their arrays. -/
structure Memory.Steps (m m' : Memory) : Prop where
  src : m'.src = m.src
  length : m'.dst.length = m.dst.length
  emits : Emits (fun a => a.Safe m.src.length m.dst.length) m.accesses m'.accesses

namespace Memory.Steps

variable {m m' m'' : Memory}

theorem refl (m : Memory) :
  m.Steps m
  := ⟨rfl, rfl, Emits.refl _ _⟩

theorem trans (h : m.Steps m') (h' : m'.Steps m'') :
  m.Steps m''
  := by
  refine ⟨h'.src.trans h.src, h'.length.trans h.length, h.emits.trans ?_⟩
  have hemits := h'.emits
  rw [h.src, h.length] at hemits
  exact hemits

theorem note {a : Access} (h : a.Safe m.src.length m.dst.length) :
  m.Steps (m.note a)
  := ⟨rfl, rfl, Emits.single h⟩

/-- A byte is copied. -/
theorem put {a : Access} (h : a.Safe m.src.length m.dst.length) (i : ℕ) (v : UInt8) :
  m.Steps { m.note a with dst := m.dst.set i v }
  := ⟨rfl, List.length_set, Emits.single h⟩

theorem allSafe (h : m.Steps m') (hm : m.AllSafe) :
  m'.AllSafe
  := by
  obtain ⟨as, has, hsafe⟩ := h.emits
  intro a ha
  rw [has, List.mem_append] at ha
  rw [h.src, h.length]
  obtain ha | ha := ha
  · exact hm a ha
  · exact hsafe a ha

end Memory.Steps

variable (outside : Region → ℤ → UInt8) {m : Memory}

/-! ### What lies ahead -/

theorem load_src {ip : ℕ} {b : UInt8} {rest : Bytes} (h : m.src.drop ip = b :: rest) :
  m.load outside .src ip = b
  := by
  have hget : m.src[ip]? = some b := by
    rw [← List.head?_drop, h]
    rfl
  simp [Memory.load, Memory.array, hget]

/-- What lies ahead is in the array. -/
theorem lt_of_drop_eq_cons {bytes : Bytes} {ip : ℕ} {b : UInt8} {rest : Bytes}
    (h : bytes.drop ip = b :: rest) :
  ip < bytes.length ∧ bytes.drop (ip + 1) = rest
  := by
  constructor
  · have hlen := congrArg List.length h
    rw [List.length_drop, List.length_cons] at hlen
    omega
  · rw [← List.drop_drop, h]
    rfl

theorem drop_add_of_eq_append {bytes pre rest : Bytes} {ip : ℕ} (h : bytes.drop ip = pre ++ rest) :
  bytes.drop (ip + pre.length) = rest
  := by
  rw [← List.drop_drop, h, List.drop_left]

theorem Memory.Steps.read {ip : ℕ} (h : ip < m.src.length) :
  m.Steps (m.note (.read ip))
  := by
  apply Memory.Steps.note
  constructor
  · omega
  · omega

/-! ### Lengths -/

/-- A byte of 255 is added, and another one follows. -/
theorem addLength_more
    {v ip : ℕ} {rest : Bytes} (h : m.src.drop ip = 255 :: rest) (hv : v + 255 < 2 ^ 31) (fuel : ℕ) :
  addLength outside m.src.length (fuel + 1) v ip m
    = addLength outside m.src.length fuel (v + 255 : ℕ) (ip + 1 : ℕ) (m.note (.read ip))
  := by
  obtain ⟨hlt, -⟩ := lt_of_drop_eq_cons h
  have hvalue : ((255 : UInt8).toNat : ℤ) = 255 := rfl
  rw [addLength, if_neg (by omega), load_src outside h]
  dsimp only
  rw [if_pos rfl, hvalue, int32_eq (by omega) (by omega)]
  push_cast
  rfl

/-- The bytes of a long length are added up. -/
theorem addLength_run
    {k r : ℕ} {rest : Bytes} {v ip : ℕ} (h : m.src.drop ip = List.replicate k 255 ++ UInt8.ofNat r :: rest)
    (hr : r < 255) (hv : v + (255 * k + r) < 2 ^ 31) {fuel : ℕ} (hfuel : k < fuel) :
  ∃ m', addLength outside m.src.length fuel v ip m
      = .next (((v + (255 * k + r) : ℕ) : ℤ), ((ip + (k + 1) : ℕ) : ℤ), m')
    ∧ m.Steps m' ∧ m'.dst = m.dst
  := by
  obtain ⟨fuel, rfl⟩ := Nat.exists_eq_succ_of_ne_zero (Nat.ne_zero_of_lt hfuel)
  induction k generalizing m v ip fuel with
  | zero =>
      rw [List.replicate_zero, List.nil_append] at h
      obtain ⟨hlt, -⟩ := lt_of_drop_eq_cons h
      have hvalue : (UInt8.ofNat r).toNat = r := by
        rw [UInt8.toNat_ofNat']
        omega
      have hne : UInt8.ofNat r ≠ 255 := by
        intro heq
        rw [heq] at hvalue
        have : (255 : UInt8).toNat = 255 := rfl
        omega
      refine ⟨m.note (.read ip), ?_, Memory.Steps.read hlt, rfl⟩
      rw [addLength, if_neg (by omega), load_src outside h]
      dsimp only
      rw [if_neg hne, hvalue, int32_eq (by omega) (by omega)]
      congr 2
      push_cast
      ring
  | succ k ih =>
      rw [List.replicate_succ, List.cons_append] at h
      obtain ⟨hlt, hrest⟩ := lt_of_drop_eq_cons h
      obtain ⟨fuel, rfl⟩ := Nat.exists_eq_succ_of_ne_zero (Nat.ne_zero_of_lt (Nat.lt_of_succ_lt_succ hfuel))
      obtain ⟨m', hrun, hsteps, hdst⟩ := ih (m := m.note (.read ip)) (v := v + 255) hrest
        (by omega) fuel (by omega)
      refine ⟨m', ?_, (Memory.Steps.read hlt).trans hsteps, hdst⟩
      rw [addLength_more outside h (show v + 255 < 2 ^ 31 by omega)]
      rw [show v + (255 * (k + 1) + r) = v + 255 + (255 * k + r) by ring,
        show ip + (k + 1 + 1) = ip + 1 + (k + 1) by ring]
      exact hrun

/-- Bytes of 255 up to the end of the input are no length. -/
theorem addLength_open
    {k v ip : ℕ} (h : m.src.drop ip = List.replicate k 255) (hv : v + 255 * k < 2 ^ 31) {fuel : ℕ}
    (hfuel : k < fuel) :
  ∃ m', addLength outside m.src.length fuel v ip m = .ret (-1, m') ∧ m.Steps m'
  := by
  obtain ⟨fuel, rfl⟩ := Nat.exists_eq_succ_of_ne_zero (Nat.ne_zero_of_lt hfuel)
  induction k generalizing m v ip fuel with
  | zero =>
      rw [List.replicate_zero, List.drop_eq_nil_iff] at h
      refine ⟨m, ?_, Memory.Steps.refl m⟩
      rw [addLength, if_pos (by omega)]
  | succ k ih =>
      rw [List.replicate_succ] at h
      obtain ⟨hlt, hrest⟩ := lt_of_drop_eq_cons h
      have hnext : v + 255 < 2 ^ 31 := lt_of_le_of_lt (by omega) hv
      obtain ⟨fuel, rfl⟩ := Nat.exists_eq_succ_of_ne_zero (Nat.ne_zero_of_lt (Nat.lt_of_succ_lt_succ hfuel))
      obtain ⟨m', hrun, hsteps⟩ := ih (m := m.note (.read ip)) (v := v + 255) hrest
        (by omega) fuel (by omega)
      refine ⟨m', ?_, (Memory.Steps.read hlt).trans hsteps⟩
      rw [addLength_more outside h hnext]
      exact hrun

/-- A length is read back. -/
theorem wholeLength_eq
    {n ip : ℕ} {rest : Bytes} (h : m.src.drop ip = lengthBytes n ++ rest) (hn : n < 2 ^ 31) {fuel : ℕ}
    (hfuel : (m.src.drop ip).length < fuel) :
  ∃ m', wholeLength outside m.src.length fuel (min n 15) ip m
      = .next ((n : ℤ), ((ip + (lengthBytes n).length : ℕ) : ℤ), m')
    ∧ m.Steps m' ∧ m'.dst = m.dst
  := by
  by_cases hshort : n < 15
  · refine ⟨m, ?_, Memory.Steps.refl m, rfl⟩
    rw [lengthBytes_short hshort, wholeLength, if_neg (by omega), min_eq_left (by omega)]
    rfl
  · obtain ⟨k, r, hr, rfl⟩ : ∃ k r, r < 255 ∧ n = 15 + (255 * k + r) :=
      ⟨(n - 15) / 255, (n - 15) % 255, Nat.mod_lt _ (by omega), by omega⟩
    rw [lengthBytes_run hr, List.append_assoc, List.singleton_append] at h
    have hlen := congrArg List.length h
    rw [List.length_append, List.length_replicate] at hlen
    obtain ⟨m', hrun, hsteps, hdst⟩ := addLength_run outside h hr hn (show k < fuel by omega)
    refine ⟨m', ?_, hsteps, hdst⟩
    rw [wholeLength, if_pos (by omega), lengthBytes_run hr, List.length_append, List.length_replicate]
    exact hrun

/-- A half byte starts a length, or the input ends in it. -/
theorem wholeLength_cases
    {half ip : ℕ} (hhalf : half < 16) (hsize : (m.src.drop ip).length ≤ 2 ^ 23) {fuel : ℕ}
    (hfuel : (m.src.drop ip).length < fuel) :
  (∃ n rest, half = min n 15 ∧ n + 4 < 2 ^ 31 ∧ m.src.drop ip = lengthBytes n ++ rest)
    ∨ ∃ m', wholeLength outside m.src.length fuel half ip m = .ret (-1, m') ∧ m.Steps m'
  := by
  by_cases hlong : half = 15
  · obtain ⟨k, r, rest, hr, hrun⟩ | hall := run_cases (m.src.drop ip)
    · have hlen := congrArg List.length hrun
      rw [List.length_append, List.length_replicate] at hlen
      refine Or.inl ⟨15 + (255 * k + r), rest, by omega, by omega, ?_⟩
      rw [lengthBytes_run hr, List.append_assoc, List.singleton_append, hrun]
    · right
      obtain ⟨m', hrun, hsteps⟩ := addLength_open outside (v := 15) hall (by omega) hfuel
      refine ⟨m', ?_, hsteps⟩
      rw [wholeLength, if_pos hlong]
      exact hrun
  · refine Or.inl ⟨half, m.src.drop ip, by omega, by omega, ?_⟩
    rw [lengthBytes_short (by omega)]
    rfl

/-! ### Copies -/

/-- A byte is copied to the end of the output. -/
theorem take_set_concat {out : Bytes} {d : ℕ} (h : d < out.length) (v : UInt8) :
  (out.set d v).take (d + 1) = out.take d ++ [v]
  := by
  rw [List.take_add_one, List.take_set_of_le (le_refl d), List.getElem?_set_self h]
  rfl

/-- Literals that are there are copied. -/
theorem lz4CopyBytes_src
    {n d s : ℕ} (hs : s + n ≤ m.src.length) (hd : d + n ≤ m.dst.length) :
  ((lz4CopyBytes outside .src n d s m).dst.take (d + n) = m.dst.take d ++ (m.src.drop s).take n)
    ∧ m.Steps (lz4CopyBytes outside .src n d s m)
  := by
  induction n generalizing d s m with
  | zero => exact ⟨by simp [lz4CopyBytes], Memory.Steps.refl m⟩
  | succ n ih =>
      have hdrop := List.drop_eq_getElem_cons (show s < m.src.length by omega)
      have hload : m.load outside .src s = m.src[s] := load_src outside hdrop
      rw [lz4CopyBytes, hload, Int.toNat_natCast]
      have hnext := ih (m := { m.note (.copy .src s d) with dst := m.dst.set d m.src[s] }) (d := d + 1)
        (s := s + 1) (show s + 1 + n ≤ m.src.length by omega) (by
          rw [List.length_set]
          omega)
      push_cast at hnext
      refine ⟨?_, ?_⟩
      · rw [show d + (n + 1) = d + 1 + n by omega, hnext.1, take_set_concat (by omega), hdrop,
          List.take_succ_cons, List.append_assoc]
        rfl
      · refine Memory.Steps.trans (Memory.Steps.put ?_ d _) hnext.2
        exact ⟨by omega, by omega, by omega, by omega⟩

/-- Some accesses are made. -/
theorem lz4CopyBytes_emits (r : Region) (n : ℕ) (d s : ℤ) (m : Memory) :
  (lz4CopyBytes outside r n d s m).src = m.src
    ∧ (lz4CopyBytes outside r n d s m).dst.length = m.dst.length
    ∧ Emits (fun _ => True) m.accesses (lz4CopyBytes outside r n d s m).accesses
  := by
  induction n generalizing d s m with
  | zero => exact ⟨rfl, rfl, Emits.refl _ _⟩
  | succ n ih =>
      obtain ⟨hsrc, hlength, hemits⟩ := ih (d + 1) (s + 1)
        { m.note (.copy r s d) with dst := m.dst.set d.toNat (m.load outside r s) }
      exact ⟨hsrc, hlength.trans List.length_set, (Emits.single trivial).trans hemits⟩

/-- Of literals that are not all there, one is read behind the input. -/
theorem lz4CopyBytes_beyond
    {n d s : ℕ} (hs : s ≤ m.src.length) (h : m.src.length < s + n) :
  ∃ i : ℤ, .copy .src m.src.length i ∈ (lz4CopyBytes outside .src n d s m).accesses
  := by
  induction n generalizing d s m with
  | zero => omega
  | succ n ih =>
      obtain ⟨-, -, as, has, -⟩ := lz4CopyBytes_emits outside .src n (d + 1) (s + 1)
        { m.note (.copy .src s d) with dst := m.dst.set d (m.load outside .src s) }
      by_cases hlast : s = m.src.length
      · refine ⟨d, ?_⟩
        rw [lz4CopyBytes, Int.toNat_natCast, has]
        apply List.mem_append_left
        simp [Memory.note, hlast]
      · have hnext := ih (m := { m.note (.copy .src s d) with
          dst := m.dst.set d (m.load outside .src s) }) (d := d + 1) (s := s + 1)
          (show s + 1 ≤ m.src.length by omega) (show m.src.length < s + 1 + n by omega)
        rw [lz4CopyBytes, Int.toNat_natCast]
        push_cast at hnext
        exact hnext

/-- A match is copied, over itself if need be. -/
theorem lz4CopyBytes_dst
    {n d offset : ℕ} (hone : 1 ≤ offset) (hoffset : offset ≤ d) (hd : d + n ≤ m.dst.length) :
  ((lz4CopyBytes outside .dst n d (d - offset : ℕ) m).dst.take (d + n)
      = copyBack offset n (m.dst.take d))
    ∧ m.Steps (lz4CopyBytes outside .dst n d (d - offset : ℕ) m)
  := by
  induction n generalizing d m with
  | zero => exact ⟨rfl, Memory.Steps.refl m⟩
  | succ n ih =>
      have hlt : d - offset < m.dst.length := by omega
      have hload : m.load outside .dst (d - offset : ℕ) = m.dst[d - offset] := by
        simp [Memory.load, Memory.array, List.getElem?_eq_getElem hlt]
      have hnext := ih (m := { m.note (.copy .dst (d - offset : ℕ) d) with
        dst := m.dst.set d m.dst[d - offset] }) (d := d + 1) (by omega) (by
          rw [List.length_set]
          omega)
      rw [show d + 1 - offset = d - offset + 1 by omega] at hnext
      rw [lz4CopyBytes, hload, Int.toNat_natCast]
      push_cast at hnext
      refine ⟨?_, ?_⟩
      · have hlength : (m.dst.take d).length = d := by
          rw [List.length_take]
          omega
        have hback : (m.dst.take d).getD (d - offset) 0 = m.dst[d - offset] := by
          rw [List.getD_eq_getElem?_getD, List.getElem?_take_of_lt (by omega),
            List.getElem?_eq_getElem hlt]
          rfl
        rw [show d + (n + 1) = d + 1 + n by omega, hnext.1, take_set_concat (by omega), copyBack,
          hlength, hback]
      · refine Memory.Steps.trans (Memory.Steps.put ?_ d _) hnext.2
        exact ⟨by omega, by omega, by omega⟩

end LnxCad.Lz4
