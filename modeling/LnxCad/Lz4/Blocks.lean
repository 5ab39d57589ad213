import LnxCad.Lz4.Sequences

/-!
# What the decompressor makes of a block

A block is expanded if the output has room for it, and refused otherwise.
-/

namespace LnxCad.Lz4

open Lz4Block

/-- What a block stands for is put into an output that has room for it; an output that has
not is refused. -/
theorem lz4Decompress_encode
    (ss : List Sequence) (last : Bytes) (hreach : ReachBack 0 ss)
    (hsize : (encode ss last).length ≤ 2 ^ 23) {dst : Bytes} (hdst : dst ≠ [])
    (hcap : dst.length < 2 ^ 31) (outside : Region → ℤ → UInt8) {fuel : ℕ}
    (hfuel : (encode ss last).length < fuel) :
  ((expand ss [] ++ last).length ≤ dst.length →
      ∃ m, lz4Decompress fuel outside (encode ss last) dst
          = some (((expand ss [] ++ last).length : ℤ), m)
        ∧ m.dst.take (expand ss [] ++ last).length = expand ss [] ++ last)
    ∧ (dst.length < (expand ss [] ++ last).length →
      ∃ m, lz4Decompress fuel outside (encode ss last) dst = some (-1, m))
  := by
  have hsrc : encode ss last ≠ [] := by
    intro hnil
    have hlen := congrArg List.length hnil
    rw [encode, List.length_append, List.length_append, length_header, List.length_nil] at hlen
    omega
  have hlast : (header last.length 0 ++ last).length ≤ 2 ^ 23 := by
    rw [encode, List.length_append] at hsize
    omega
  have hn : last.length < 2 ^ 31 := by
    rw [List.length_append] at hlast
    omega
  obtain ⟨m, hmsrc, hmlength, -, htight, hfits⟩ := (Decoded.start (encode ss last) dst).sequences
    outside (m := ⟨encode ss last, dst, []⟩) rfl hreach hsize hfuel
  rw [List.nil_append] at htight hfits
  dsimp only at hmsrc hmlength htight hfits
  have hstart : lz4Decompress fuel outside (encode ss last) dst
      = (lz4Loop outside (encode ss last).length dst.length fuel 0 0
          ⟨encode ss last, dst, []⟩).result := by
    rw [lz4Decompress, if_neg (by simp [hsrc, hdst])]
  rw [Nat.cast_zero] at htight hfits
  rw [hstart, List.length_append]
  by_cases hsequences : dst.length < (expand ss []).length
  · rw [htight hsequences]
    exact ⟨fun hall => by omega, fun _ => ⟨m, rfl⟩⟩
  obtain ⟨fuel', hfuel', hrun, hdecoded⟩ := hfits (Nat.le_of_not_lt hsequences)
  obtain ⟨fuel', rfl⟩ := Nat.exists_eq_succ_of_ne_zero (Nat.ne_zero_of_lt hfuel')
  have hahead : m.src.drop (0 + (encodeSequences ss).length) = header last.length 0 ++ last := by
    rw [hmsrc]
    exact drop_add_of_eq_append (show (encode ss last).drop 0 = encodeSequences ss ++ _ from rfl)
  have hremaining : (m.src.drop (0 + (encodeSequences ss).length)).length < fuel' + 1 := by
    rw [hahead]
    exact hfuel'
  rw [hrun, ← hmsrc, ← hmlength]
  constructor
  · intro hall
    rw [← hmlength] at hcap
    have hahead' : m.src.drop (0 + (encodeSequences ss).length)
        = header last.length 0 ++ (last ++ []) := by
      rw [hahead, List.append_nil]
    obtain ⟨m', hliterals, hsteps, hout⟩ :=
      copyLiterals_fits outside hahead' (by omega) hn hall hremaining
    have hend : 0 + (encodeSequences ss).length + (header last.length 0).length + last.length
        = m.src.length := by
      rw [hmsrc, encode, List.length_append, List.length_append]
      omega
    refine ⟨m', ?_, ?_⟩
    · rw [lz4Loop, hliterals, Outcome.next_bind]
      dsimp only
      rw [hend, copyMatch, if_pos (by omega), Outcome.ret_bind, int32_eq (by omega) (by omega)]
      rfl
    · rw [hout, hdecoded.out]
  · intro htight
    obtain ⟨m', hliterals, -⟩ := copyLiterals_tight outside hahead (by omega) hn htight hremaining
    refine ⟨m', ?_⟩
    rw [lz4Loop, hliterals, Outcome.ret_bind]
    rfl

/-- A match that overlaps itself seven times, and a literal behind it. -/
theorem lz4Decompress_encode_overlapping :
  ∃ m, lz4Decompress 7 (fun _ _ => 0) [0x13, 97, 1, 0, 0x10, 98] (List.replicate 9 0) = some (9, m)
    ∧ m.dst.take 9 = [97, 97, 97, 97, 97, 97, 97, 97, 98]
  := by
  have h := lz4Decompress_encode [⟨[97], 1, 7, by decide, by decide, by decide⟩] [98]
    ⟨by decide, trivial⟩ (by decide) (show List.replicate 9 0 ≠ [] by decide) (by decide)
    (fun _ _ => 0) (show (encode _ [98]).length < 7 by decide)
  exact h.1 (by decide)

end LnxCad.Lz4
