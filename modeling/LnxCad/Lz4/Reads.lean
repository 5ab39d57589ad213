import LnxCad.Lz4.Sequences

/-!
# What the decompressor reads

All accesses are made in their arrays unless some literals are announced that are not all
there and for which the output has room: those are copied from behind the input.
-/

namespace LnxCad.Lz4

open Lz4Block

/-- Behind some sequences, `n` literals are announced that are not all there. -/
def Overrun (src : Bytes) (ss : List Sequence) (n : ℕ) : Prop :=
  ∃ low rest, low < 16 ∧ ReachBack 0 ss ∧ src = encodeSequences ss ++ (header n low ++ rest)
    ∧ rest.length < n

/-- The function returns, all accesses have been in their arrays, and literals that are not all
there have been refused. -/
def Contained (src : Bytes) : Option (ℤ × Memory) → Prop
  | some (value, m) => m.AllSafe ∧ ((∃ ss n, Overrun src ss n) → value = -1)
  | none => False

variable (outside : Region → ℤ → UInt8) {m : Memory} {ip op : ℕ}

/-! ### One turn of the loop -/

/-- The literals are refused or the input has ended, or there is a length of literals for which
there is room. -/
theorem copyLiterals_cases
    (op : ℕ) (hsize : m.src.length ≤ 2 ^ 23) {fuel : ℕ} (hfuel : (m.src.drop ip).length < fuel + 1) :
  (∃ value m', copyLiterals outside m.src.length m.dst.length fuel ip op m = .ret (value, m')
      ∧ m.Steps m')
    ∨ ∃ n low rest, low < 16 ∧ n < 2 ^ 31 ∧ m.src.drop ip = header n low ++ rest
      ∧ op + n ≤ m.dst.length
  := by
  cases hahead : m.src.drop ip with
  | nil =>
      left
      rw [List.drop_eq_nil_iff] at hahead
      refine ⟨int32 op, m, ?_, Memory.Steps.refl m⟩
      rw [copyLiterals, if_pos (by omega)]
  | cons t rest =>
      obtain ⟨hlt, hrest⟩ := lt_of_drop_eq_cons hahead
      rw [List.length_drop] at hfuel
      have ht := t.toNat_lt
      have hsize' : ((m.note (.read ip)).src.drop (ip + 1)).length ≤ 2 ^ 23 := by
        rw [show (m.note (.read ip)).src = m.src from rfl, List.length_drop]
        omega
      have hfuel' : ((m.note (.read ip)).src.drop (ip + 1)).length < fuel := by
        rw [show (m.note (.read ip)).src = m.src from rfl, List.length_drop]
        omega
      have hcases := wholeLength_cases outside (show t.toNat / 16 < 16 by omega) hsize' hfuel'
      obtain ⟨n, rest', hn, hbound, hlength⟩ | ⟨m', hrun, hsteps⟩ := hcases
      · have hheader : m.src.drop ip = header n (t.toNat % 16) ++ rest' := by
          have hrest' : rest = lengthBytes n ++ rest' := hrest.symm.trans hlength
          rw [hahead, header, ← hn, token_toNat, List.cons_append, hrest']
        by_cases htight : m.dst.length < op + n
        · left
          obtain ⟨m', hrun, hsteps⟩ := copyLiterals_tight outside hheader (by omega) (by omega)
            htight (by rw [List.length_drop]; omega)
          exact ⟨_, m', hrun, hsteps⟩
        · right
          exact ⟨n, t.toNat % 16, rest', by omega, by omega, hahead ▸ hheader, by omega⟩
      · left
        refine ⟨-1, m', ?_, (Memory.Steps.read hlt).trans hsteps⟩
        rw [copyLiterals, if_neg (by omega), load_src outside hahead]
        dsimp only
        push_cast at hrun
        rw [show (m.note (.read ip)).src = m.src from rfl] at hrun
        rw [hrun]
        rfl

/-- The match is refused or the input has ended, or there is an offset that does not reach back
too far and a length. -/
theorem copyMatch_cases
    (token op : ℕ) (hsize : m.src.length ≤ 2 ^ 23) {fuel : ℕ}
    (hfuel : (m.src.drop ip).length < fuel + 2) :
  (∃ value m', copyMatch outside m.src.length m.dst.length fuel token ip op m = .ret (value, m')
      ∧ m.Steps m')
    ∨ ∃ offset n rest, 1 ≤ offset ∧ offset ≤ 65535 ∧ offset ≤ op ∧ token % 16 = min n 15
      ∧ m.src.drop ip = offsetBytes offset ++ (lengthBytes n ++ rest)
  := by
  match hahead : m.src.drop ip with
  | [] =>
      left
      rw [List.drop_eq_nil_iff] at hahead
      refine ⟨int32 op, m, ?_, Memory.Steps.refl m⟩
      rw [copyMatch, if_pos (by omega)]
  | [b] =>
      left
      obtain ⟨hlt, hrest⟩ := lt_of_drop_eq_cons hahead
      rw [List.drop_eq_nil_iff] at hrest
      refine ⟨-1, m, ?_, Memory.Steps.refl m⟩
      rw [copyMatch, if_neg (by omega), if_pos (by omega)]
  | a :: b :: rest =>
      obtain ⟨hlt, hsecond⟩ := lt_of_drop_eq_cons hahead
      obtain ⟨hlt', hrest⟩ := lt_of_drop_eq_cons hsecond
      rw [List.length_drop] at hfuel
      have ha := a.toNat_lt
      have hb := b.toNat_lt
      have hread : m.Steps ((m.note (.read ip)).note (.read (ip + 1))) :=
        (Memory.Steps.read hlt).trans (Memory.Steps.read (show ip + 1 < m.src.length from hlt'))
      have hoffset : lz4Read16 outside ip m
          = (a.toNat + 256 * b.toNat, (m.note (.read ip)).note (.read (ip + 1))) := by
        have hsnd : m.load outside .src ((ip : ℤ) + 1) = _ := load_src outside hsecond
        rw [lz4Read16, load_src outside hahead, hsnd]
      by_cases hzero : a.toNat + 256 * b.toNat = 0
      · left
        refine ⟨-1, _, ?_, hread⟩
        rw [copyMatch, if_neg (by omega), if_neg (by omega), hoffset]
        exact if_pos hzero
      by_cases hfar : op < a.toNat + 256 * b.toNat
      · left
        refine ⟨-1, _, ?_, hread⟩
        rw [copyMatch, if_neg (by omega), if_neg (by omega), hoffset]
        dsimp only
        rw [if_neg hzero, if_pos (by omega)]
      have hsrc : ((m.note (.read ip)).note (.read (ip + 1))).src = m.src := rfl
      have hsize' : (((m.note (.read ip)).note (.read (ip + 1))).src.drop (ip + 1 + 1)).length
          ≤ 2 ^ 23 := by
        rw [hsrc, List.length_drop]
        omega
      have hfuel' : (((m.note (.read ip)).note (.read (ip + 1))).src.drop (ip + 1 + 1)).length
          < fuel := by
        rw [hsrc, List.length_drop]
        omega
      have hcases := wholeLength_cases outside (show token % 16 < 16 by omega) hsize' hfuel'
      obtain ⟨n, rest', hn, -, hlength⟩ | ⟨m', hrun, hsteps⟩ := hcases
      · right
        refine ⟨a.toNat + 256 * b.toNat, n, rest', by omega, by omega, by omega, hn, ?_⟩
        have hrest' : rest = lengthBytes n ++ rest' := hrest.symm.trans hlength
        rw [offsetBytes_toNat, hrest']
        rfl
      · left
        refine ⟨-1, m', ?_, hread.trans hsteps⟩
        rw [copyMatch, if_neg (by omega), if_neg (by omega), hoffset]
        dsimp only
        rw [if_neg hzero, if_neg (by omega)]
        rw [hsrc] at hrun
        rw [show (ip : ℤ) + 2 = ((ip + 1 + 1 : ℕ) : ℤ) by push_cast; ring, hrun]
        rfl

/-- In a turn the function returns, or announced literals are copied that are not all there, or
there is a sequence ahead. -/
theorem Decoded.turn
    {ss : List Sequence} (h : Decoded ss ip op m) (hsize : m.src.length ≤ 2 ^ 23) {fuel : ℕ}
    (hfuel : (m.src.drop ip).length < fuel + 1) :
  (∃ value m', lz4Loop outside m.src.length m.dst.length (fuel + 1) ip op m = .ret (value, m')
      ∧ m'.src = m.src ∧ m'.AllSafe)
    ∨ (∃ n low rest, low < 16 ∧ m.src.drop ip = header n low ++ rest ∧ rest.length < n
      ∧ op + n ≤ m.dst.length)
    ∨ ∃ s rest, m.src.drop ip = Sequence.encode s ++ rest ∧ s.offset ≤ op + s.literals.length
  := by
  obtain ⟨value, m', hrun, hsteps⟩ | ⟨n, low, rest, hlow, hn, hheader, hfits⟩ :=
    copyLiterals_cases outside op hsize hfuel
  · left
    refine ⟨value, m', ?_, hsteps.src, hsteps.allSafe h.safe⟩
    rw [lz4Loop, hrun]
    rfl
  by_cases hthere : rest.length < n
  · exact Or.inr (Or.inl ⟨n, low, rest, hlow, hheader, hthere, hfits⟩)
  have hlength : (rest.take n).length = n := List.length_take_of_le (Nat.le_of_not_lt hthere)
  have hliterals : m.src.drop ip = header (rest.take n).length low ++ (rest.take n ++ rest.drop n) := by
    rw [hlength, List.take_append_drop]
    exact hheader
  obtain ⟨m₁, hrun₁, hsteps₁, -⟩ :=
    copyLiterals_fits outside hliterals hlow (hlength.symm ▸ hn) (hlength.symm ▸ hfits) hfuel
  rw [hlength] at hrun₁
  have hahead := drop_add_of_eq_append (drop_add_of_eq_append hliterals)
  rw [hlength, ← hsteps₁.src] at hahead
  have hfuel₁ : (m₁.src.drop (ip + (header n low).length + n)).length < fuel + 2 := by
    rw [hsteps₁.src, List.length_drop]
    rw [List.length_drop] at hfuel
    omega
  have hmatch := copyMatch_cases outside (min n 15 * 16 + low) (op + n) (hsteps₁.src ▸ hsize) hfuel₁
  obtain ⟨value, m', hrun, hsteps⟩ | ⟨offset, k, rest', hone, hmax, hback, htoken, hmatch⟩ := hmatch
  · left
    rw [hsteps₁.src, hsteps₁.length] at hrun
    refine ⟨value, m', ?_, hsteps.src.trans hsteps₁.src,
      hsteps.allSafe (hsteps₁.allSafe h.safe)⟩
    rw [lz4Loop, hrun₁, Outcome.next_bind]
    dsimp only
    rw [hrun]
    rfl
  · right
    right
    refine ⟨⟨rest.take n, offset, k + 4, hone, hmax, by omega⟩, rest', ?_, ?_⟩
    · rw [hahead] at hmatch
      rw [hliterals, hmatch]
      simp only [Sequence.encode, Nat.add_sub_cancel, List.append_assoc]
      rw [show min k 15 = low by omega]
    · dsimp only
      rw [hlength]
      exact hback

/-! ### The loop -/

/-- The function returns and has made its accesses in the arrays, or there is room for announced
literals that are not all there. -/
theorem Decoded.run
    {ss : List Sequence} (h : Decoded ss ip op m) (hsize : m.src.length ≤ 2 ^ 23) {fuel : ℕ}
    (hfuel : (m.src.drop ip).length < fuel) :
  (∃ value m', lz4Loop outside m.src.length m.dst.length fuel ip op m = .ret (value, m')
      ∧ m'.src = m.src ∧ m'.AllSafe)
    ∨ ∃ ts n, Overrun m.src ts n ∧ (expand ts []).length + n ≤ m.dst.length
  := by
  induction fuel generalizing ss ip op m with
  | zero => exact absurd hfuel (Nat.not_lt_zero _)
  | succ fuel ih =>
      obtain hret | ⟨n, low, rest, hlow, hheader, hshort, hfits⟩ | ⟨s, rest, hs, hback⟩ :=
        h.turn outside hsize hfuel
      · exact Or.inl hret
      · right
        refine ⟨ss, n, ⟨low, rest, hlow, h.reach, ?_, hshort⟩, h.produced.symm ▸ hfits⟩
        rw [← hheader]
        exact h.encoded
      · obtain ⟨m₁, hsrc, hlength, hsafe, htight, hfits⟩ := h.sequence outside hs hback hsize hfuel
        by_cases hroom : m.dst.length < op + s.size
        · exact Or.inl ⟨-1, m₁, htight hroom, hsrc, hsafe⟩
        obtain ⟨hrun, hdecoded⟩ := hfits (Nat.le_of_not_lt hroom)
        have hpos := s.length_encode_pos
        have hlen := congrArg List.length hs
        rw [List.length_append] at hlen
        have hahead : (m₁.src.drop (ip + s.encode.length)).length < fuel := by
          rw [hsrc, drop_add_of_eq_append hs]
          omega
        have hnext := ih hdecoded (hsrc ▸ hsize) hahead
        rw [hsrc, hlength] at hnext
        rw [hrun]
        exact hnext

/-- Announced literals that are not all there are refused if there is no room for them, and
otherwise copied from behind the input. -/
theorem lz4Decompress_overrun
    {src dst : Bytes} {ss : List Sequence} {n : ℕ} (h : Overrun src ss n)
    (hsize : src.length ≤ 2 ^ 23) (hdst : dst ≠ []) {fuel : ℕ} (hfuel : src.length < fuel) :
  (dst.length < (expand ss []).length + n → ∃ m, lz4Decompress fuel outside src dst = some (-1, m))
    ∧ ((expand ss []).length + n ≤ dst.length →
      ∃ value m, lz4Decompress fuel outside src dst = some (value, m) ∧ ¬ m.AllSafe)
  := by
  obtain ⟨low, rest, hlow, hreach, hsrc, hshort⟩ := h
  have hlen := congrArg List.length hsrc
  rw [List.length_append, List.length_append, length_header] at hlen
  have hlength := lt_length_lengthBytes n
  have hne : src ≠ [] := by
    rintro rfl
    rw [List.length_nil] at hlen
    omega
  have hstart : lz4Decompress fuel outside src dst
      = (lz4Loop outside src.length dst.length fuel (0 : ℕ) (0 : ℕ) ⟨src, dst, []⟩).result := by
    rw [lz4Decompress, if_neg (by simp [hne, hdst])]
    rfl
  obtain ⟨m, hmsrc, hmlength, -, htight, hfits⟩ := (Decoded.start src dst).sequences
    outside (m := ⟨src, dst, []⟩) hsrc hreach hsize hfuel
  rw [List.nil_append] at htight hfits
  rw [zero_add] at hfits
  dsimp only at hmsrc hmlength htight hfits
  rw [hstart]
  by_cases hsequences : dst.length < (expand ss []).length
  · rw [htight hsequences]
    exact ⟨fun _ => ⟨m, rfl⟩, fun hroom => by omega⟩
  obtain ⟨fuel', hfuel', hrun, hdecoded⟩ := hfits (Nat.le_of_not_lt hsequences)
  obtain ⟨fuel', rfl⟩ := Nat.exists_eq_succ_of_ne_zero (Nat.ne_zero_of_lt hfuel')
  have hahead : m.src.drop (encodeSequences ss).length = header n low ++ rest := by
    rw [hmsrc, hsrc, List.drop_left]
  have hremaining : (m.src.drop (encodeSequences ss).length).length < fuel' + 1 := by
    rw [hahead]
    exact hfuel'
  rw [hrun, ← hmsrc, ← hmlength]
  constructor
  · intro hroom
    obtain ⟨m', hliterals, -⟩ :=
      copyLiterals_tight outside hahead hlow (by omega) hroom hremaining
    refine ⟨m', ?_⟩
    rw [lz4Loop, hliterals, Outcome.ret_bind]
    rfl
  · intro hroom
    obtain ⟨token, ip', op', m', hliterals, hend, hsrc', i, hread⟩ :=
      copyLiterals_beyond outside hahead hlow (by omega) hroom hshort hremaining
    refine ⟨int32 op', m', ?_, ?_⟩
    · rw [lz4Loop, hliterals, Outcome.next_bind]
      dsimp only
      rw [copyMatch, if_pos hend, Outcome.ret_bind]
      rfl
    · intro hsafe
      have hinside := (hsafe _ hread).2.1
      rw [hsrc'] at hinside
      exact absurd hinside (lt_irrefl _)

/-- All accesses are made in their arrays and literals that are not all there are refused, if and
only if there is no room for such literals. -/
theorem contained_lz4Decompress_iff
    {src dst : Bytes} (hsrc : src ≠ []) (hsize : src.length ≤ 2 ^ 23) (hdst : dst ≠ [])
    {fuel : ℕ} (hfuel : src.length < fuel) :
  Contained src (lz4Decompress fuel outside src dst)
    ↔ ∀ ss n, Overrun src ss n → dst.length < (expand ss []).length + n
  := by
  constructor
  · intro hcontained ss n hover
    by_contra hroom
    obtain ⟨value, m, hrun, hunsafe⟩ := (lz4Decompress_overrun outside hover hsize hdst hfuel).2
      (Nat.le_of_not_lt hroom)
    rw [hrun] at hcontained
    exact hunsafe hcontained.1
  · intro hroom
    have hstart : lz4Decompress fuel outside src dst
        = (lz4Loop outside src.length dst.length fuel (0 : ℕ) (0 : ℕ) ⟨src, dst, []⟩).result := by
      rw [lz4Decompress, if_neg (by simp [hsrc, hdst])]
      rfl
    obtain ⟨value, m, hrun, -, hsafe⟩ | ⟨ts, n, hover, hfits⟩ :=
      (Decoded.start src dst).run outside (m := ⟨src, dst, []⟩) hsize hfuel
    · have hresult : lz4Decompress fuel outside src dst = some (value, m) := by
        rw [hstart, hrun]
        rfl
      rw [hresult]
      refine ⟨hsafe, ?_⟩
      rintro ⟨ss, n, hover⟩
      obtain ⟨m', hrefused⟩ := (lz4Decompress_overrun outside hover hsize hdst hfuel).1
        (hroom ss n hover)
      rw [hresult] at hrefused
      exact congrArg Prod.fst (Option.some.inj hrefused)
    · exact absurd (hroom ts n hover) (Nat.not_lt.mpr hfits)

/-- There is no room for the literals. -/
theorem contained_lz4Decompress_iff_tight :
  Contained [0x20, 97] (lz4Decompress 3 (fun _ _ => 0) [0x20, 97] [0])
    ↔ ∀ ss n, Overrun [0x20, 97] ss n → [0].length < (expand ss []).length + n
  := contained_lz4Decompress_iff _ (by decide) (by decide) (by decide) (by decide)

/-- A literal is announced that is not there: a byte behind the input is copied. -/
theorem not_contained_lz4Decompress :
  ¬ Contained [0x10] (lz4Decompress 2 (fun _ _ => 7) [0x10] [0])
  := by
  intro h
  have hsafe : (Access.copy .src 1 0).Safe 1 1 := h.1 _ (List.mem_cons_of_mem _ (List.mem_singleton_self _))
  exact absurd hsafe.2.1 (lt_irrefl _)

end LnxCad.Lz4
