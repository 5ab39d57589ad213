import LnxCad.Lz4.Lengths

/-!
# The decompressor follows the sequences

In the loop, what has been read are the bytes of some sequences, and what has been written
is what they stand for.  A sequence ahead is read and expanded, or the function returns
because it does not fit.
-/

namespace LnxCad.Lz4

open Lz4Block

variable (outside : Region → ℤ → UInt8) {m : Memory} {ip op : ℕ}

/-! ### Literals -/

/-- The token and the length of the literals are read. -/
theorem copyLiterals_eq
    {n low : ℕ} {rest : Bytes} (h : m.src.drop ip = header n low ++ rest) (hlow : low < 16)
    (hn : n < 2 ^ 31) (op : ℕ) {fuel : ℕ} (hfuel : (m.src.drop ip).length < fuel + 1) :
  ∃ m' : Memory, m.Steps m' ∧ m'.dst = m.dst
    ∧ copyLiterals outside m.src.length m.dst.length fuel ip op m
      = if m.dst.length < op + n then .ret (-1, m')
        else .next (min n 15 * 16 + low, ((ip + (header n low).length + n : ℕ) : ℤ), ((op + n : ℕ) : ℤ),
          lz4CopyBytes outside .src n op (ip + (header n low).length : ℕ) m')
  := by
  rw [header, List.cons_append] at h
  obtain ⟨hlt, hrest⟩ := lt_of_drop_eq_cons h
  have htoken := toNat_token (n := n) hlow
  have hlength : (m.src.drop (ip + 1)).length < fuel := by
    rw [List.length_drop] at hfuel ⊢
    omega
  obtain ⟨m', hrun, hsteps, hdst⟩ :=
    wholeLength_eq outside (m := m.note (.read ip)) hrest hn hlength
  refine ⟨m', (Memory.Steps.read hlt).trans hsteps, hdst, ?_⟩
  rw [copyLiterals, if_neg (by omega), load_src outside h, htoken]
  dsimp only
  rw [show (min n 15 * 16 + low) / 16 = min n 15 by omega]
  rw [show (m.note (.read ip)).src = m.src from rfl] at hrun
  push_cast at hrun
  rw [hrun, Outcome.next_bind, length_header]
  dsimp only
  rw [Int.toNat_natCast]
  push_cast
  by_cases htight : m.dst.length < op + n
  · rw [if_pos htight, if_pos (by omega)]
  · rw [if_neg htight, if_neg (by omega)]
    congr 3
    · ring
    · congr 1
      ring_nf

/-- Literals that do not fit are not copied. -/
theorem copyLiterals_tight
    {n low : ℕ} {rest : Bytes} (h : m.src.drop ip = header n low ++ rest) (hlow : low < 16)
    (hn : n < 2 ^ 31) (htight : m.dst.length < op + n) {fuel : ℕ}
    (hfuel : (m.src.drop ip).length < fuel + 1) :
  ∃ m', copyLiterals outside m.src.length m.dst.length fuel ip op m = .ret (-1, m') ∧ m.Steps m'
  := by
  obtain ⟨m', hsteps, -, hrun⟩ := copyLiterals_eq outside h hlow hn op hfuel
  rw [if_pos htight] at hrun
  exact ⟨m', hrun, hsteps⟩

/-- Literals that fit are copied. -/
theorem copyLiterals_fits
    {literals rest : Bytes} {low : ℕ}
    (h : m.src.drop ip = header literals.length low ++ (literals ++ rest)) (hlow : low < 16)
    (hn : literals.length < 2 ^ 31) (hfits : op + literals.length ≤ m.dst.length) {fuel : ℕ}
    (hfuel : (m.src.drop ip).length < fuel + 1) :
  ∃ m' : Memory, copyLiterals outside m.src.length m.dst.length fuel ip op m
      = .next (min literals.length 15 * 16 + low,
        ((ip + (header literals.length low).length + literals.length : ℕ) : ℤ),
        ((op + literals.length : ℕ) : ℤ), m')
    ∧ m.Steps m' ∧ m'.dst.take (op + literals.length) = m.dst.take op ++ literals
  := by
  obtain ⟨m₁, hsteps, hdst, hrun⟩ := copyLiterals_eq outside h hlow hn op hfuel
  rw [if_neg (by omega)] at hrun
  have hahead := drop_add_of_eq_append h
  have hlen := congrArg List.length hahead
  rw [List.length_drop, List.length_append] at hlen
  rw [← hsteps.src] at hahead hlen
  have hthere : ip + (header literals.length low).length + literals.length ≤ m₁.src.length := by
    have hheader : 0 < (header literals.length low).length := by
      rw [length_header]
      omega
    have hle := congrArg List.length h
    rw [List.length_drop, List.length_append, List.length_append] at hle
    rw [hsteps.src]
    omega
  rw [← hsteps.length] at hfits
  obtain ⟨hout, hcopy⟩ := lz4CopyBytes_src outside hthere hfits
  refine ⟨_, hrun, hsteps.trans hcopy, ?_⟩
  rw [hout, hdst, hahead, List.take_left]

/-- Of literals that are not all there, one is read behind the input, and the pointer is behind
it. -/
theorem copyLiterals_beyond
    {n low : ℕ} {rest : Bytes} (h : m.src.drop ip = header n low ++ rest) (hlow : low < 16)
    (hn : n < 2 ^ 31) (hfits : op + n ≤ m.dst.length) (hbeyond : rest.length < n) {fuel : ℕ}
    (hfuel : (m.src.drop ip).length < fuel + 1) :
  ∃ (token : ℕ) (ip' op' : ℤ) (m' : Memory),
    copyLiterals outside m.src.length m.dst.length fuel ip op m = .next (token, ip', op', m')
      ∧ (m.src.length : ℤ) ≤ ip' ∧ m'.src = m.src
      ∧ ∃ i : ℤ, .copy .src m.src.length i ∈ m'.accesses
  := by
  obtain ⟨m₁, hsteps, -, hrun⟩ := copyLiterals_eq outside h hlow hn op hfuel
  rw [if_neg (by omega)] at hrun
  have hlen := congrArg List.length h
  rw [List.length_drop, List.length_append] at hlen
  have hheader : 0 < (header n low).length := by
    rw [length_header]
    omega
  refine ⟨_, _, _, _, hrun, by omega, ?_, ?_⟩
  · rw [(lz4CopyBytes_emits outside .src n op _ m₁).1, hsteps.src]
  rw [← hsteps.src]
  apply lz4CopyBytes_beyond
  · rw [hsteps.src]
    omega
  · rw [hsteps.src]
    omega

/-! ### Matches -/

/-- The offset and the length of the match are read. -/
theorem copyMatch_eq
    {s : Sequence} {rest : Bytes}
    (h : m.src.drop ip = offsetBytes s.offset ++ (lengthBytes (s.matchLength - 4) ++ rest))
    {token : ℕ} (htoken : token % 16 = min (s.matchLength - 4) 15) (hback : s.offset ≤ op)
    (hn : s.matchLength < 2 ^ 31) {fuel : ℕ} (hfuel : (m.src.drop ip).length < fuel + 2) :
  ∃ m' : Memory, m.Steps m' ∧ m'.dst = m.dst
    ∧ copyMatch outside m.src.length m.dst.length fuel token ip op m
      = if m.dst.length < op + s.matchLength then .ret (-1, m')
        else .next (((ip + 2 + (lengthBytes (s.matchLength - 4)).length : ℕ) : ℤ),
          ((op + s.matchLength : ℕ) : ℤ),
          lz4CopyBytes outside .dst s.matchLength op (op - s.offset : ℕ) m')
  := by
  have hfour := s.four_le
  have hone := s.offset_pos
  rw [offsetBytes, List.cons_append, List.singleton_append] at h
  obtain ⟨hlt, hsecond⟩ := lt_of_drop_eq_cons h
  obtain ⟨hlt', hrest⟩ := lt_of_drop_eq_cons hsecond
  have hread : m.Steps ((m.note (.read ip)).note (.read (ip + 1))) :=
    (Memory.Steps.read hlt).trans (Memory.Steps.read (show ip + 1 < m.src.length from hlt'))
  have hlength : (m.src.drop (ip + 1 + 1)).length < fuel := by
    rw [List.length_drop] at hfuel ⊢
    omega
  obtain ⟨m', hrun, hsteps, hdst⟩ := wholeLength_eq outside
    (m := (m.note (.read ip)).note (.read (ip + 1))) hrest (by omega) hlength
  refine ⟨m', hread.trans hsteps, hdst, ?_⟩
  have hoffset : lz4Read16 outside ip m = (s.offset, (m.note (.read ip)).note (.read (ip + 1))) := by
    have hsnd : m.load outside .src ((ip : ℤ) + 1) = _ := load_src outside hsecond
    rw [lz4Read16, load_src outside h, hsnd, toNat_offsetBytes s.offset_le]
  rw [copyMatch, if_neg (by omega), if_neg (by omega), hoffset]
  dsimp only
  rw [if_neg (by omega), if_neg (by omega), htoken]
  rw [show ((m.note (.read ip)).note (.read (ip + 1))).src = m.src from rfl] at hrun
  rw [show (ip : ℤ) + 2 = ((ip + 1 + 1 : ℕ) : ℤ) by push_cast; ring, hrun, Outcome.next_bind]
  dsimp only
  rw [show ((s.matchLength - 4 : ℕ) : ℤ) + 4 = (s.matchLength : ℤ) by omega,
    int32_eq (by omega) (by omega), Int.toNat_natCast, ← Nat.cast_sub hback]
  by_cases htight : m.dst.length < op + s.matchLength
  · rw [if_pos htight, if_pos (by omega)]
  · rw [if_neg htight, if_neg (by omega)]
    push_cast
    rfl

/-- A match that does not fit is not copied. -/
theorem copyMatch_tight
    {s : Sequence} {rest : Bytes}
    (h : m.src.drop ip = offsetBytes s.offset ++ (lengthBytes (s.matchLength - 4) ++ rest))
    {token : ℕ} (htoken : token % 16 = min (s.matchLength - 4) 15) (hback : s.offset ≤ op)
    (hn : s.matchLength < 2 ^ 31) (htight : m.dst.length < op + s.matchLength) {fuel : ℕ}
    (hfuel : (m.src.drop ip).length < fuel + 2) :
  ∃ m', copyMatch outside m.src.length m.dst.length fuel token ip op m = .ret (-1, m') ∧ m.Steps m'
  := by
  obtain ⟨m', hsteps, -, hrun⟩ := copyMatch_eq outside h htoken hback hn hfuel
  rw [if_pos htight] at hrun
  exact ⟨m', hrun, hsteps⟩

/-- A match that fits is copied. -/
theorem copyMatch_fits
    {s : Sequence} {rest : Bytes}
    (h : m.src.drop ip = offsetBytes s.offset ++ (lengthBytes (s.matchLength - 4) ++ rest))
    {token : ℕ} (htoken : token % 16 = min (s.matchLength - 4) 15) (hback : s.offset ≤ op)
    (hn : s.matchLength < 2 ^ 31) (hfits : op + s.matchLength ≤ m.dst.length) {fuel : ℕ}
    (hfuel : (m.src.drop ip).length < fuel + 2) :
  ∃ m' : Memory, copyMatch outside m.src.length m.dst.length fuel token ip op m
      = .next (((ip + 2 + (lengthBytes (s.matchLength - 4)).length : ℕ) : ℤ),
        ((op + s.matchLength : ℕ) : ℤ), m')
    ∧ m.Steps m' ∧ m'.dst.take (op + s.matchLength) = copyBack s.offset s.matchLength (m.dst.take op)
  := by
  obtain ⟨m₁, hsteps, hdst, hrun⟩ := copyMatch_eq outside h htoken hback hn hfuel
  rw [if_neg (by omega)] at hrun
  rw [← hsteps.length] at hfits
  obtain ⟨hout, hcopy⟩ := lz4CopyBytes_dst outside s.offset_pos hback hfits
  refine ⟨_, hrun, hsteps.trans hcopy, ?_⟩
  rw [hout, hdst]

/-! ### Sequences -/

/-- Behind some sequences: they have been read, and what they stand for has been written. -/
structure Decoded (ss : List Sequence) (ip op : ℕ) (m : Memory) : Prop where
  encoded : m.src = encodeSequences ss ++ m.src.drop ip
  reach : ReachBack 0 ss
  out : m.dst.take op = expand ss []
  produced : (expand ss []).length = op
  safe : m.AllSafe

namespace Decoded

variable {ss : List Sequence}

theorem start (src dst : Bytes) :
  Decoded [] 0 0 ⟨src, dst, []⟩
  := by
  refine ⟨rfl, trivial, rfl, rfl, ?_⟩
  intro a ha
  exact absurd ha List.not_mem_nil

theorem op_le (h : Decoded ss ip op m) :
  op ≤ m.dst.length
  := by
  have hlength := congrArg List.length h.out
  rw [List.length_take, h.produced] at hlength
  omega

/-- One more sequence has been read, and what it stands for written. -/
theorem concat
    (h : Decoded ss ip op m) {s : Sequence} {rest : Bytes} (hs : m.src.drop ip = s.encode ++ rest)
    (hback : s.offset ≤ op + s.literals.length) {m' : Memory} (hsrc : m'.src = m.src)
    (hout : m'.dst.take (op + s.size) = s.expand (expand ss [])) (hsafe : m'.AllSafe) :
  Decoded (ss ++ [s]) (ip + s.encode.length) (op + s.size) m'
  := by
  refine ⟨?_, ?_, ?_, ?_, hsafe⟩
  · rw [hsrc, encodeSequences_concat, List.append_assoc, drop_add_of_eq_append hs, ← hs]
    exact h.encoded
  · exact h.reach.concat rfl (h.produced.symm ▸ hback)
  · rw [hout, expand_concat]
  · rw [expand_concat, Sequence.length_expand, h.produced]

/-- A sequence ahead is read and expanded if it fits. -/
theorem sequence
    (h : Decoded ss ip op m) {s : Sequence} {rest : Bytes} (hs : m.src.drop ip = s.encode ++ rest)
    (hback : s.offset ≤ op + s.literals.length) (hsize : m.src.length ≤ 2 ^ 23) {fuel : ℕ}
    (hfuel : (m.src.drop ip).length < fuel + 1) :
  ∃ m', m'.src = m.src ∧ m'.dst.length = m.dst.length ∧ m'.AllSafe
    ∧ (m.dst.length < op + s.size
      → lz4Loop outside m.src.length m.dst.length (fuel + 1) ip op m = .ret (-1, m'))
    ∧ (op + s.size ≤ m.dst.length
      → lz4Loop outside m.src.length m.dst.length (fuel + 1) ip op m
          = lz4Loop outside m.src.length m.dst.length fuel (ip + s.encode.length : ℕ)
            (op + s.size : ℕ) m'
        ∧ Decoded (ss ++ [s]) (ip + s.encode.length) (op + s.size) m')
  := by
  have hlow : min (s.matchLength - 4) 15 < 16 := by omega
  have hmatchLength := lt_length_lengthBytes (s.matchLength - 4)
  have hlength := s.length_encode
  have hlen := congrArg List.length hs
  rw [List.length_drop, List.length_append] at hlen
  have hn : s.literals.length < 2 ^ 31 := by omega
  have hm : s.matchLength < 2 ^ 31 := by omega
  have hsequence := hs
  rw [s.encode_append] at hs
  by_cases hliterals : m.dst.length < op + s.literals.length
  · obtain ⟨m', hrun, hsteps⟩ := copyLiterals_tight outside hs hlow hn hliterals hfuel
    refine ⟨m', hsteps.src, hsteps.length, hsteps.allSafe h.safe, fun _ => ?_, fun hfits => ?_⟩
    · rw [lz4Loop, hrun]
      rfl
    · rw [Sequence.size] at hfits
      omega
  obtain ⟨m₁, hrun₁, hsteps₁, hout₁⟩ :=
    copyLiterals_fits outside hs hlow hn (Nat.le_of_not_lt hliterals) hfuel
  have htoken : (min s.literals.length 15 * 16 + min (s.matchLength - 4) 15) % 16
      = min (s.matchLength - 4) 15 := by omega
  have hahead := drop_add_of_eq_append (drop_add_of_eq_append hs)
  have hfuel' : (m₁.src.drop (ip + (header s.literals.length (min (s.matchLength - 4) 15)).length
      + s.literals.length)).length < fuel + 2 := by
    rw [hsteps₁.src, List.length_drop]
    rw [List.length_drop] at hfuel
    omega
  rw [← hsteps₁.src] at hahead
  by_cases hmatch : m.dst.length < op + s.literals.length + s.matchLength
  · rw [← hsteps₁.length] at hmatch
    obtain ⟨m', hrun, hsteps⟩ := copyMatch_tight outside hahead htoken hback hm hmatch hfuel'
    have hall := hsteps₁.trans hsteps
    refine ⟨m', hall.src, hall.length, hall.allSafe h.safe, fun _ => ?_, fun hfits => ?_⟩
    · rw [hsteps₁.src, hsteps₁.length] at hrun
      rw [lz4Loop, hrun₁, Outcome.next_bind]
      dsimp only
      rw [hrun]
      rfl
    · rw [hsteps₁.length] at hmatch
      rw [Sequence.size] at hfits
      omega
  · have hfits := Nat.le_of_not_lt hmatch
    rw [← hsteps₁.length] at hfits
    obtain ⟨m', hrun, hsteps, hout⟩ := copyMatch_fits outside hahead htoken hback hm hfits hfuel'
    have hall := hsteps₁.trans hsteps
    refine ⟨m', hall.src, hall.length, hall.allSafe h.safe, fun htight => ?_, fun _ => ⟨?_, ?_⟩⟩
    · rw [Sequence.size] at htight
      omega
    · rw [hsteps₁.src, hsteps₁.length] at hrun
      rw [lz4Loop, hrun₁, Outcome.next_bind]
      dsimp only
      rw [hrun, Outcome.next_bind]
      dsimp only
      rw [hlength, Sequence.size]
      congr 2
      · omega
      · omega
    · apply h.concat hsequence hback hall.src _ (hall.allSafe h.safe)
      rw [Sequence.size, ← add_assoc, hout, hout₁, h.out]
      rfl

/-- Some sequences ahead are read and expanded if they fit. -/
theorem sequences
    (h : Decoded ss ip op m) {ts : List Sequence} {rest : Bytes}
    (hts : m.src.drop ip = encodeSequences ts ++ rest) (hback : ReachBack op ts)
    (hsize : m.src.length ≤ 2 ^ 23) {fuel : ℕ} (hfuel : (m.src.drop ip).length < fuel) :
  ∃ m', m'.src = m.src ∧ m'.dst.length = m.dst.length ∧ m'.AllSafe
    ∧ (m.dst.length < (expand (ss ++ ts) []).length
      → lz4Loop outside m.src.length m.dst.length fuel ip op m = .ret (-1, m'))
    ∧ ((expand (ss ++ ts) []).length ≤ m.dst.length
      → ∃ fuel', rest.length < fuel'
        ∧ lz4Loop outside m.src.length m.dst.length fuel ip op m
          = lz4Loop outside m.src.length m.dst.length fuel' (ip + (encodeSequences ts).length : ℕ)
            ((expand (ss ++ ts) []).length : ℕ) m'
        ∧ Decoded (ss ++ ts) (ip + (encodeSequences ts).length) (expand (ss ++ ts) []).length m')
  := by
  induction ts generalizing ss ip op m fuel with
  | nil =>
      have hle := h.op_le
      rw [List.append_nil, h.produced]
      refine ⟨m, rfl, rfl, h.safe, fun htight => ?_, fun _ => ⟨fuel, ?_, rfl, h⟩⟩
      · omega
      · rw [hts] at hfuel
        exact hfuel
  | cons s ts ih =>
      obtain ⟨fuel, rfl⟩ := Nat.exists_eq_succ_of_ne_zero (Nat.ne_zero_of_lt hfuel)
      rw [encodeSequences_cons, List.append_assoc] at hts
      obtain ⟨m₁, hsrc, hlength, hsafe, htight, hfits⟩ := h.sequence outside hts hback.1 hsize hfuel
      have hsplit : ss ++ s :: ts = (ss ++ [s]) ++ ts := by simp
      rw [hsplit]
      have hle := length_le_expand ts (expand (ss ++ [s]) [])
      have hproduced : (expand (ss ++ [s]) []).length = op + s.size := by
        rw [expand_concat, Sequence.length_expand, h.produced]
      have happend : expand (ss ++ [s] ++ ts) [] = expand ts (expand (ss ++ [s]) []) :=
        List.foldl_append
      by_cases hs : m.dst.length < op + s.size
      · refine ⟨m₁, hsrc, hlength, hsafe, fun _ => htight hs, fun hall => ?_⟩
        rw [happend] at hall
        omega
      · obtain ⟨hrun, hdecoded⟩ := hfits (Nat.le_of_not_lt hs)
        have hahead := drop_add_of_eq_append hts
        have hpos := s.length_encode_pos
        have hlen := congrArg List.length hts
        rw [List.length_drop, List.length_append] at hlen
        rw [← hsrc] at hahead hsize hfuel hlen
        have hfuel' : (m₁.src.drop (ip + s.encode.length)).length < fuel := by
          rw [List.length_drop] at hfuel ⊢
          omega
        obtain ⟨m', hsrc', hlength', hsafe', htight', hfits'⟩ :=
          ih hdecoded hahead hback.2 hsize hfuel'
        rw [hsrc, hlength] at htight' hfits'
        refine ⟨m', hsrc'.trans hsrc, hlength'.trans hlength, hsafe', fun hall => ?_, fun hall => ?_⟩
        · rw [hrun]
          exact htight' hall
        · obtain ⟨fuel', hrest, hrun', hdecoded'⟩ := hfits' hall
          rw [encodeSequences_cons, List.length_append, ← add_assoc]
          exact ⟨fuel', hrest, hrun.trans hrun', hdecoded'⟩

end Decoded

end LnxCad.Lz4
