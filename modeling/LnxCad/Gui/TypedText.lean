import LnxCad.Gui.Keyboard
import LnxCad.Gui.Utf8

/-!
# Texts of characters

What was encoded is found again one by one, and what is typed in a frame arrives whole or not at all.
-/

namespace LnxCad

/-! ### Texts -/

/-- No more bytes are taken than there are. -/
theorem nkUtfDecode_le (text : Bytes) (v : ℕ) :
  (nkUtfDecode text v).1 ≤ text.length
  := by
  have hloop : ∀ (len : ℕ) (text : Bytes) (j u : ℕ), j ≤ len →
      (nkUtfContinue len j u text).1 ≤ j + text.length := by
    intro len text
    induction text with
    | nil =>
        intro j u hj
        rw [nkUtfContinue]
        split
        · simp
        · simp
          omega
    | cons c text ih =>
        intro j u hj
        rw [nkUtfContinue, List.length_cons]
        split
        case isTrue hlt =>
          dsimp only
          split
          · dsimp only
            omega
          · have hrest := ih (j + 1) (u <<< 6 ||| (nkUtfDecodeByte c).1) hlt
            omega
        case isFalse =>
          dsimp only
          omega
  cases text with
  | nil => exact Nat.le_refl 0
  | cons c text =>
      rw [nkUtfDecode, List.length_cons]
      dsimp only
      split
      · simp
      case isFalse h =>
        have hlen : 1 ≤ (nkUtfDecodeByte c).2 := by
          simp only [nkBetween, Bool.not_eq_true', decide_eq_false_iff_not, not_not] at h
          exact h.1
        have hrest := hloop _ text 1 (nkUtfDecodeByte c).1 hlen
        omega

/-- `nk_utf_len`. -/
def nkUtfLen (text : Bytes) : ℕ :=
  if (nkUtfDecode text 0).1 = 0 then 0
  else nkUtfLen (text.drop (nkUtfDecode text 0).1) + 1
termination_by text.length
decreasing_by
  have hle := nkUtfDecode_le text 0
  rw [List.length_drop]
  omega

/-- `nk_utf_at`, where the text begins at some offset: the offset of a character, and `*unicode`. -/
def nkUtfAt (text : Bytes) (unicode offset : ℕ) : ℕ → Option (ℕ × ℕ)
  | 0 => some (offset, (nkUtfDecode text unicode).2)
  | index + 1 =>
      let (glyph_len, unicode) := nkUtfDecode text unicode
      if glyph_len = 0 then none
      else nkUtfAt (text.drop glyph_len) unicode (offset + glyph_len) index

/-- The bytes of a text. -/
def encodeAll (us : List ℕ) : Bytes := us.flatMap fun u => nkUtfEncode u 4

theorem encodeAll_cons (u : ℕ) (us : List ℕ) :
  encodeAll (u :: us) = nkUtfEncode u 4 ++ encodeAll us
  := List.flatMap_cons

theorem nkUtfDecode_encodeAll {u : ℕ} (hu : RoundTrips u) (us : List ℕ) (v : ℕ) :
  nkUtfDecode (encodeAll (u :: us)) v = ((nkUtfEncode u 4).length, u)
  := by
  rw [encodeAll_cons, nkUtfDecode_encode hu.1, if_pos hu, length_nkUtfEncode hu.1]

theorem nkUtfEncode_length_ne_zero {u : ℕ} (hu : IsRune u) :
  (nkUtfEncode u 4).length ≠ 0
  := by
  have hclass := nkUtfClass_bounds u hu.1
  rw [length_nkUtfEncode hu]
  omega

theorem nkUtfLen_encodeAll {us : List ℕ} (hus : ∀ u ∈ us, RoundTrips u) :
  nkUtfLen (encodeAll us) = us.length
  := by
  induction us with
  | nil =>
      rw [nkUtfLen]
      rfl
  | cons u us ih =>
      have hu := hus u (by simp)
      rw [nkUtfLen, nkUtfDecode_encodeAll hu, if_neg (nkUtfEncode_length_ne_zero hu.1), encodeAll_cons,
        List.drop_left, ih fun u' hu' => hus u' (by simp [hu']), List.length_cons]

theorem nkUtfAt_encodeAll {us : List ℕ} (hus : ∀ u ∈ us, RoundTrips u) {i : ℕ} (hi : i < us.length)
    (v offset : ℕ) :
  nkUtfAt (encodeAll us) v offset i = some (offset + (encodeAll (us.take i)).length, us[i])
  := by
  induction us generalizing i v offset with
  | nil => simp at hi
  | cons u us ih =>
      have hu := hus u (by simp)
      cases i with
      | zero =>
          rw [nkUtfAt, nkUtfDecode_encodeAll hu]
          rfl
      | succ i =>
          rw [nkUtfAt, nkUtfDecode_encodeAll hu]
          dsimp only
          rw [if_neg (nkUtfEncode_length_ne_zero hu.1), encodeAll_cons, List.drop_left,
            ih (fun u' hu' => hus u' (by simp [hu'])) (by simpa using hi), List.take_succ_cons,
            encodeAll_cons, List.length_append, Nat.add_assoc]
          rfl

/-- A text of characters that are decoded as they were encoded is as long as there are characters, and each
of them is found where it begins. -/
theorem nkUtf_text {us : List ℕ} (hus : ∀ u ∈ us, RoundTrips u) :
  nkUtfLen (encodeAll us) = us.length
    ∧ ∀ (i : ℕ) (hi : i < us.length) (v : ℕ),
      nkUtfAt (encodeAll us) v 0 i = some ((encodeAll (us.take i)).length, us[i])
  := by
  refine ⟨nkUtfLen_encodeAll hus, fun i hi v => ?_⟩
  rw [nkUtfAt_encodeAll hus hi, Nat.zero_add]

theorem nkUtf_text_accents :
  nkUtfLen (encodeAll [0x45, 0xE9, 0x20AC, 0x1F600]) = List.length [0x45, 0xE9, 0x20AC, 0x1F600]
    ∧ ∀ (i : ℕ) (hi : i < List.length [0x45, 0xE9, 0x20AC, 0x1F600]) (v : ℕ),
      nkUtfAt (encodeAll [0x45, 0xE9, 0x20AC, 0x1F600]) v 0 i
        = some ((encodeAll ([0x45, 0xE9, 0x20AC, 0x1F600].take i)).length,
          [0x45, 0xE9, 0x20AC, 0x1F600][i])
  := nkUtf_text (by decide)

/-! ### What is typed in a frame -/

/-- The text of the keyboard in a frame: `NK_INPUT_MAX` bytes, and how many of them are in use. -/
structure NkKeyboard where
  text : Bytes
  textLen : ℕ

/-- `NK_INPUT_MAX`. -/
def nkInputMax : ℕ := 16

/-- `nk_input_glyph`. -/
def nkInputGlyph (k : NkKeyboard) (glyph : Bytes) : NkKeyboard :=
  let (len, unicode) := nkUtfDecode glyph 0
  if len ≠ 0 ∧ k.textLen + len < nkInputMax then
    let bytes := nkUtfEncode unicode (nkInputMax - k.textLen)
    ⟨k.text.take k.textLen ++ bytes ++ k.text.drop (k.textLen + bytes.length), k.textLen + len⟩
  else k

/-- `nk_input_unicode`, where the bytes of `rune` are some that are not set before. -/
def nkInputUnicode (k : NkKeyboard) (typed : ℕ × Bytes) : NkKeyboard :=
  let bytes := nkUtfEncode typed.1 4
  nkInputGlyph k (bytes ++ typed.2.drop bytes.length)

/-- The characters that fit into some bytes, one after another. -/
def fitting : ℕ → List ℕ → List ℕ
  | _, [] => []
  | room, u :: us =>
      if nkUtfClass u ≤ room then u :: fitting (room - nkUtfClass u) us else fitting room us

theorem nkUtfEncode_room {u clen : ℕ} (hu : IsRune u) (hclen : nkUtfClass u ≤ clen) :
  nkUtfEncode u clen = nkUtfEncode u 4
  := by
  rw [nkUtfEncode_fits hu hclen, nkUtfEncode_loop hu]

/-- A character that is typed is added behind the text, or not at all. -/
theorem nkInputUnicode_eq {k : NkKeyboard} (hk : k.textLen ≤ k.text.length) {u : ℕ}
    (hu : RoundTrips u) (rest : Bytes) :
  let k' := nkInputUnicode k (u, rest)
  if nkUtfClass u ≤ nkInputMax - 1 - k.textLen then
    k'.textLen = k.textLen + nkUtfClass u
      ∧ k'.text.take k'.textLen = k.text.take k.textLen ++ nkUtfEncode u 4
      ∧ k'.textLen ≤ k'.text.length
  else k' = k
  := by
  have hclass := nkUtfClass_bounds u hu.1.1
  unfold nkInputUnicode nkInputGlyph
  dsimp only
  rw [nkUtfDecode_encode hu.1, if_pos hu]
  dsimp only
  unfold nkInputMax
  split
  case isTrue hroom =>
    rw [if_pos ⟨by omega, by omega⟩, nkUtfEncode_room hu.1 (by omega)]
    have hlength := length_nkUtfEncode hu.1
    have htake : (k.text.take k.textLen ++ nkUtfEncode u 4).length = k.textLen + nkUtfClass u := by
      rw [List.length_append, List.length_take, hlength, Nat.min_eq_left hk]
    refine ⟨rfl, ?_, ?_⟩
    · dsimp only
      rw [← htake, List.take_left]
    · dsimp only
      rw [List.length_append, htake]
      omega
  case isFalse hroom => rw [if_neg (by omega)]

theorem fitting_subset (room : ℕ) (us : List ℕ) :
  (fitting room us).Sublist us
  := by
  induction us generalizing room with
  | nil => exact List.Sublist.refl _
  | cons u us ih =>
      rw [fitting]
      split
      · exact (ih _).cons_cons u
      · exact (ih _).cons u

/-- What fits as a whole is not cut. -/
theorem fitting_of_le {room : ℕ} {us : List ℕ} (hus : ∀ u ∈ us, IsRune u)
    (h : (encodeAll us).length ≤ room) :
  fitting room us = us
  := by
  induction us generalizing room with
  | nil => rfl
  | cons u us ih =>
      have hu := length_nkUtfEncode (hus u (by simp))
      rw [encodeAll_cons, List.length_append, hu] at h
      rw [fitting, if_pos (by omega), ih (fun u' hu' => hus u' (by simp [hu'])) (by omega)]

theorem foldl_nkInputUnicode {typed : List (ℕ × Bytes)} (htyped : ∀ t ∈ typed, RoundTrips t.1)
    {k : NkKeyboard} (hk : k.textLen ≤ k.text.length) (hlen : k.textLen ≤ nkInputMax - 1) :
  let k' := typed.foldl nkInputUnicode k
  k'.textLen ≤ nkInputMax - 1
    ∧ k'.text.take k'.textLen = k.text.take k.textLen
      ++ encodeAll (fitting (nkInputMax - 1 - k.textLen) (typed.map Prod.fst))
  := by
  induction typed generalizing k with
  | nil => exact ⟨hlen, (List.append_nil _).symm⟩
  | cons t typed ih =>
      have hrest := fun t' ht' => htyped t' (List.mem_cons_of_mem t ht')
      have hstep := nkInputUnicode_eq hk (htyped t (by simp)) t.2
      rw [List.foldl_cons, List.map_cons, fitting]
      dsimp only at hstep ⊢
      split at hstep
      case isTrue hroom =>
        obtain ⟨hlen', htext, hk'⟩ := hstep
        obtain ⟨hmax, htake⟩ := ih hrest hk' (by omega)
        have hleft : nkInputMax - 1 - (nkInputUnicode k (t.1, t.2)).textLen
            = nkInputMax - 1 - k.textLen - nkUtfClass t.1 := by omega
        rw [if_pos hroom, encodeAll_cons]
        refine ⟨hmax, htake.trans ?_⟩
        rw [htext, hleft, List.append_assoc]
      case isFalse hroom =>
        rw [if_neg hroom, hstep]
        exact ih hrest hk hlen

/-- Of what is typed in a frame, every character arrives whole or not at all: those that fit into 15 bytes,
in order, and all of them if they fit together. -/
theorem nkInputUnicode_whole {typed : List (ℕ × Bytes)} (htyped : ∀ t ∈ typed, RoundTrips t.1)
    (text : Bytes) :
  let k := typed.foldl nkInputUnicode ⟨text, 0⟩
  let us := typed.map Prod.fst
  let kept := fitting (nkInputMax - 1) us
  k.textLen < nkInputMax ∧ k.text.take k.textLen = encodeAll kept
    ∧ nkUtfLen (k.text.take k.textLen) = kept.length ∧ kept.Sublist us
    ∧ ((encodeAll us).length < nkInputMax → kept = us)
  := by
  obtain ⟨hlen, htext⟩ := foldl_nkInputUnicode htyped (k := ⟨text, 0⟩) (Nat.zero_le _)
    (Nat.zero_le _)
  have hus : ∀ u ∈ typed.map Prod.fst, RoundTrips u := by
    intro u hu
    obtain ⟨t, ht, rfl⟩ := List.mem_map.mp hu
    exact htyped t ht
  have hkept := fitting_subset (nkInputMax - 1) (typed.map Prod.fst)
  dsimp only at htext ⊢
  rw [List.take_zero, List.nil_append, Nat.sub_zero] at htext
  refine ⟨Nat.lt_of_le_pred (by decide) hlen, htext, ?_, hkept, ?_⟩
  · rw [htext, nkUtfLen_encodeAll fun u hu => hus u (hkept.subset hu)]
  · intro hfits
    exact fitting_of_le (fun u hu => (hus u hu).1) (Nat.le_pred_of_lt hfits)

/-- Six characters, of which the last one but one does not fit, in a buffer that was used before. -/
def sixTyped : List (ℕ × Bytes) :=
  [(0x1F600, [1, 2, 3, 4]), (0x20AC, [1, 2, 3, 4]), (0x1F601, [1, 2, 3, 4]), (0xE9, [1, 2, 3, 4]),
    (0x20AC, [1, 2, 3, 4]), (0x61, [1, 2, 3, 4])]

theorem nkInputUnicode_whole_six :
  let k := sixTyped.foldl nkInputUnicode ⟨List.replicate 16 7, 0⟩
  let us := sixTyped.map Prod.fst
  let kept := fitting (nkInputMax - 1) us
  k.textLen < nkInputMax ∧ k.text.take k.textLen = encodeAll kept
    ∧ nkUtfLen (k.text.take k.textLen) = kept.length ∧ kept.Sublist us
    ∧ ((encodeAll us).length < nkInputMax → kept = us)
  := nkInputUnicode_whole (by decide) (List.replicate 16 7)

/-- The keys of the keyboard type such characters. -/
theorem roundTrips_keyUnicode (shift : Bool) {code : ℕ} (h : keyUnicode shift code ≠ 0) :
  RoundTrips (keyUnicode shift code)
  := by
  unfold keyUnicode at h ⊢
  cases hkey : keymap.lookup code with
  | none =>
      rw [hkey] at h
      exact absurd rfl h
  | some key =>
      have hall : ∀ row ∈ keymap, RoundTrips row.2.1.toNat ∧ RoundTrips row.2.2.toNat := by
        decide +kernel
      obtain ⟨before, behind, hrow, -⟩ := List.lookup_eq_some_iff.mp hkey
      obtain ⟨hplain, hshifted⟩ := hall (code, key) (by simp [hrow])
      cases shift with
      | false => exact hplain
      | true => exact hshifted

end LnxCad
