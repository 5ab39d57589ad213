import LnxCad.Gui.Panels

/-!
# What a password leaves behind

A password field is edited in place or through a line of stars; in both cases the bytes past
a text that became shorter stay in the buffer, except for the one at the new length, which is
set to zero at the end of the edit.  So the bytes left behind depend only on the lengths the
text went through: an edit that reached the length `p` and ended at `n` stains the bytes below
`p` and washes the one at `n`.
-/

namespace LnxCad

/-! ### Stains -/

/-- An edit of a field: the greatest length it reached and the length it ended at. -/
structure Stroke where
  reach : ℕ
  len : ℕ
deriving DecidableEq

/-- The bytes below the reach of an edit are stained, the one at its length is washed. -/
def Stroke.stain (S : Set ℕ) (s : Stroke) : Set ℕ := (S ∪ Set.Iio s.reach) \ {s.len}

/-- Every length below the reach of an edit is the length at which it or a later one ended. -/
def Retraced : List Stroke → Prop
  | [] => True
  | s :: later => (∀ j < s.reach, j = s.len ∨ j ∈ later.map Stroke.len) ∧ Retraced later

instance Retraced.decidable : DecidablePred Retraced
  | [] => .isTrue trivial
  | s :: later =>
      have := Retraced.decidable later
      inferInstanceAs
        (Decidable ((∀ j < s.reach, j = s.len ∨ j ∈ later.map Stroke.len) ∧ Retraced later))

theorem foldl_stain_eq_empty_iff_of_stained (trail : List Stroke) :
  ∀ S : Set ℕ, trail.foldl Stroke.stain S = ∅ ↔ S ⊆ {j | j ∈ trail.map Stroke.len} ∧ Retraced trail
  := by
  induction trail with
  | nil =>
      intro S
      simp [Retraced, Set.subset_empty_iff]
  | cons s later ih =>
      intro S
      rw [List.foldl_cons, ih, Retraced, ← and_assoc]
      refine and_congr_left fun _ => ?_
      constructor
      · intro h
        constructor
        · intro j hj
          by_cases hlen : j = s.len
          · simp [hlen]
          · have := h ⟨Or.inl hj, hlen⟩
            simp only [List.map_cons, List.mem_cons]
            exact Or.inr this
        · intro j hj
          by_cases hlen : j = s.len
          · exact Or.inl hlen
          · exact Or.inr (h ⟨Or.inr hj, hlen⟩)
      · rintro ⟨hS, hreach⟩ j ⟨hj | hj, hlen⟩
        · have hmem := hS hj
          simp only [List.map_cons, List.mem_cons] at hmem
          exact hmem.resolve_left hlen
        · exact (hreach j hj).resolve_left hlen

/-- A clean field is clean after some edits exactly if these went back through every length
they had reached. -/
theorem foldl_stain_eq_empty_iff (trail : List Stroke) :
  trail.foldl Stroke.stain ∅ = ∅ ↔ Retraced trail
  := by
  rw [foldl_stain_eq_empty_iff_of_stained]
  simp

/-! ### The bytes of a field -/

/-- The stroke of an edit of a password field, in clear or behind stars. -/
def pwdStroke (showPasswords : Bool) (len : ℕ) (r : EditResult) : Stroke :=
  let n := r.edits.foldl (NkEdit.lenAfter 255) len
  ⟨if showPasswords then peakFrom 255 len r.edits else n, n⟩

namespace Field

/-- The places of the nonzero bytes. -/
def stains (f : Field) : Set ℕ := {i | ∃ c, f.memory[i]? = some c ∧ c ≠ 0}

/-- All bytes are zero. -/
def Blank (f : Field) : Prop := ∀ c ∈ f.memory, c = 0

instance Blank.decidable (f : Field) : Decidable f.Blank :=
  inferInstanceAs (Decidable (∀ c ∈ f.memory, c = 0))

theorem blank_iff (f : Field) :
  f.Blank ↔ f.stains = ∅
  := by
  rw [Set.eq_empty_iff_forall_notMem]
  constructor
  · rintro h i ⟨c, hc, hne⟩
    exact hne (h c (List.mem_of_getElem? hc))
  · intro h c hc
    obtain ⟨i, hi⟩ := List.getElem?_of_mem hc
    by_contra hne
    exact h i ⟨c, hi, hne⟩

theorem stains_zero (n : ℕ) :
  (Field.zero n).stains = ∅
  := by
  rw [← blank_iff]
  intro c hc
  exact (List.mem_replicate.mp hc).2

theorem stains_clear (f : Field) :
  f.clear.stains = ∅
  := stains_zero _

/-- A password field: a buffer of 256 bytes, of which the toolkit uses the first 255, over a
text without zero bytes. -/
structure Sound (f : Field) : Prop where
  length : f.memory.length = 256
  len_lt : f.len < 255
  text : Set.Iio f.len ⊆ f.stains

theorem Sound.zero :
  Sound (.zero 256)
  := by
  constructor
  · exact List.length_replicate
  · decide
  · exact fun i hi => absurd hi (Nat.not_lt_zero i)

theorem Sound.clear {f : Field} (h : Sound f) :
  Sound f.clear
  := by
  have hclear : f.clear = .zero 256 := by rw [Field.clear, h.length]
  rw [hclear]
  apply Sound.zero

/-- Bytes below a length are written, the others left alone. -/
theorem stains_eq_of_write
    {f f' : Field} {n : ℕ} (hlow : Set.Iio n ⊆ f'.stains)
    (hhigh : ∀ i, n ≤ i → f'.memory[i]? = f.memory[i]?) :
  f'.stains = f.stains ∪ Set.Iio n
  := by
  ext i
  by_cases hi : i < n
  · exact ⟨fun _ => Or.inr hi, fun _ => hlow hi⟩
  · have hsame : i ∈ f'.stains ↔ i ∈ f.stains := by
      unfold stains
      rw [Set.mem_ofPred_eq, Set.mem_ofPred_eq, hhigh i (by omega)]
    rw [hsame, Set.mem_union]
    constructor
    · exact Or.inl
    · exact fun h => h.resolve_right hi

/-- An edit of the toolkit leaves the bytes past the new text alone. -/
theorem Sound.apply_bytes {f : Field} (h : Sound f) (e : NkEdit) :
  Set.Iio (f.apply 255 e).len ⊆ (f.apply 255 e).stains
    ∧ ∀ i, (f.apply 255 e).len ≤ i → (f.apply 255 e).memory[i]? = f.memory[i]?
  := by
  obtain ⟨hlength, hlt, htext⟩ := h
  cases e with
  | insert pos c =>
      by_cases hok : pos ≤ f.len ∧ f.len + 1 < 255
      · have hat := getElem?_inserted (m := f.memory) c.val hok.1 (by omega)
        simp only [Field.apply, if_pos hok]
        constructor
        · intro i hi
          have hi' : i < f.len + 1 := hi
          unfold stains
          rw [Set.mem_ofPred_eq, hat]
          split_ifs with h1 h2 h3
          · exact htext (show i < f.len by omega)
          · exact ⟨c.val, rfl, c.property⟩
          · exact htext (show i - 1 < f.len by omega)
          · omega
        · intro i hi
          rw [hat, if_neg (by omega), if_neg (by omega), if_neg (by omega)]
      · simp only [Field.apply, if_neg hok]
        exact ⟨htext, by simp⟩
  | delete pos k =>
      by_cases hok : pos + k ≤ f.len
      · have hat := getElem?_deleted (m := f.memory) hok (by omega)
        simp only [Field.apply, if_pos hok]
        constructor
        · intro i hi
          have hi' : i < f.len - k := hi
          unfold stains
          rw [Set.mem_ofPred_eq, hat]
          split_ifs with h1
          · exact htext (show i < f.len by omega)
          · exact htext (show i + k < f.len by omega)
        · intro i hi
          rw [hat, if_neg (by omega), if_neg (by omega)]
      · simp only [Field.apply, if_neg hok]
        exact ⟨htext, by simp⟩

theorem Sound.apply {f : Field} (h : Sound f) (e : NkEdit) :
  Sound (f.apply 255 e)
  := by
  have hlen : (f.apply 255 e).len < 255 := by
    have := h.len_lt
    rw [apply_len]
    cases e <;> simp only [NkEdit.lenAfter] <;> split <;> omega
  refine ⟨?_, hlen, (h.apply_bytes e).1⟩
  have hlength := h.length
  have hlt := h.len_lt
  cases e with
  | insert pos c =>
      simp only [Field.apply]
      split
      · simp only [List.length_append, List.length_take, List.length_cons, List.length_drop]
        omega
      · exact hlength
  | delete pos k =>
      simp only [Field.apply]
      split
      · simp only [List.length_append, List.length_take, List.length_drop]
        omega
      · exact hlength

theorem Sound.foldl (edits : List NkEdit) :
  ∀ {f : Field}, Sound f → Sound (edits.foldl (Field.apply 255) f)
    ∧ (edits.foldl (Field.apply 255) f).stains = f.stains ∪ Set.Iio (peakFrom 255 f.len edits)
    ∧ (edits.foldl (Field.apply 255) f).len = edits.foldl (NkEdit.lenAfter 255) f.len
  := by
  induction edits with
  | nil =>
      intro f h
      refine ⟨h, ?_, rfl⟩
      rw [List.foldl_nil, peakFrom, Set.union_eq_self_of_subset_right h.text]
  | cons e es ih =>
      intro f h
      obtain ⟨hsound, hstains, hlen⟩ := ih (h.apply e)
      have hbytes := h.apply_bytes e
      have hpeak := le_peakFrom 255 (e.lenAfter 255 f.len) es
      simp only [List.foldl_cons, peakFrom]
      rw [apply_len] at hstains hlen
      refine ⟨hsound, ?_, hlen⟩
      rw [hstains, stains_eq_of_write hbytes.1 hbytes.2, apply_len]
      ext i
      have htext := @h.text i
      simp only [Set.mem_union, Set.mem_Iio] at htext ⊢
      constructor
      · rintro ((hi | hi) | hi)
        · exact Or.inl hi
        · exact Or.inr (by omega)
        · exact Or.inr (by omega)
      · rintro (hi | hi)
        · exact Or.inl (Or.inl hi)
        · by_cases hlow : i < f.len
          · exact Or.inl (Or.inl (htext hlow))
          · exact Or.inr (by omega)

/-- The byte at the length is set to zero. -/
theorem Sound.terminate {f : Field} (h : Sound f) :
  Sound { f with memory := f.memory.set f.len 0 }
    ∧ Field.stains { f with memory := f.memory.set f.len 0 } = f.stains \ {f.len}
  := by
  have hstains : Field.stains { f with memory := f.memory.set f.len 0 } = f.stains \ {f.len} := by
    ext i
    unfold stains
    simp only [Set.mem_sdiff, Set.mem_ofPred_eq, Set.mem_singleton_iff]
    by_cases hi : i = f.len
    · subst hi
      simp [List.getElem?_set]
    · rw [List.getElem?_set_ne (Ne.symm hi)]
      exact ⟨fun hc => ⟨hc, hi⟩, fun hc => hc.1⟩
  refine ⟨⟨by simpa using h.length, h.len_lt, ?_⟩, hstains⟩
  intro i hi
  rw [hstains]
  exact ⟨h.text hi, ne_of_lt hi⟩

theorem nkEditString_eq {f : Field} (h : Sound f) (edits : List NkEdit) :
  nkEditString 255 edits f = edits.foldl (Field.apply 255) f
  := by
  have hmin : min f.len (255 - 1) = f.len := by
    have := h.len_lt
    omega
  unfold nkEditString
  rw [hmin]

/-- The line of stars. -/
theorem Sound.stars {n : ℕ} (h : n < 255) :
  Sound ⟨List.replicate n 42 ++ List.replicate (256 - n) 0, n⟩
  := by
  constructor
  · simp only [List.length_append, List.length_replicate]
    omega
  · exact h
  · intro i hi
    have hi' : i < n := hi
    refine ⟨42, ?_, by decide⟩
    simp only
    rw [List.getElem?_append_left (by simpa using hi'), List.getElem?_replicate, if_pos hi']

/-- A password behind stars: the characters appended to the stars are moved to it. -/
def unmask (f t : Field) : Field :=
  ⟨if f.len < t.len then
      f.memory.take f.len ++ (t.memory.drop f.len).take (t.len - f.len) ++ f.memory.drop t.len
    else f.memory, t.len⟩

theorem getElem?_unmask {f t : Field} (h : Sound f) (ht : Sound t) (i : ℕ) :
  (unmask f t).memory[i]? = if f.len ≤ i ∧ i < t.len then t.memory[i]? else f.memory[i]?
  := by
  have hf := h.length
  have hfl := h.len_lt
  have htl := ht.length
  have htlt := ht.len_lt
  unfold unmask
  grind

theorem Sound.unmask {f t : Field} (h : Sound f) (ht : Sound t) :
  Sound (unmask f t) ∧ (unmask f t).stains = f.stains ∪ Set.Iio t.len
  := by
  have hlow : Set.Iio t.len ⊆ (Field.unmask f t).stains := by
    intro i hi
    have hi' : i < t.len := hi
    unfold stains
    rw [Set.mem_ofPred_eq, getElem?_unmask h ht]
    split
    · exact ht.text hi
    · exact h.text (show i < f.len by omega)
  refine ⟨⟨?_, ht.len_lt, hlow⟩, stains_eq_of_write hlow ?_⟩
  · have hf := h.length
    have htl := ht.length
    have htlt := ht.len_lt
    unfold Field.unmask
    dsimp only
    split
    · simp only [List.length_append, List.length_take, List.length_drop]
      omega
    · exact hf
  · intro i hi
    rw [getElem?_unmask h ht, if_neg (by omega)]

theorem Sound.editPwd {f : Field} (h : Sound f) (showPasswords : Bool) (r : EditResult) :
  Sound (Gui.editPwd showPasswords f r)
    ∧ (Gui.editPwd showPasswords f r).stains = (pwdStroke showPasswords f.len r).stain f.stains
    ∧ (Gui.editPwd showPasswords f r).len = (pwdStroke showPasswords f.len r).len
  := by
  cases showPasswords with
  | true =>
      obtain ⟨hsound, hstains, hlen⟩ := Sound.foldl r.edits h
      rw [← nkEditString_eq h] at hsound hstains hlen
      obtain ⟨hend, hwashed⟩ := hsound.terminate
      refine ⟨hend, ?_, hlen⟩
      rw [Stroke.stain]
      simp only [pwdStroke, if_true]
      rw [← hlen, ← hstains]
      exact hwashed
  | false =>
      obtain ⟨hsound, -, hlen⟩ := Sound.foldl r.edits (Sound.stars h.len_lt)
      rw [← nkEditString_eq (Sound.stars h.len_lt)] at hsound hlen
      obtain ⟨hmoved, hstains⟩ := h.unmask hsound
      obtain ⟨hend, hwashed⟩ := hmoved.terminate
      refine ⟨hend, ?_, hlen⟩
      rw [Stroke.stain]
      simp only [pwdStroke, Bool.false_eq_true, if_false]
      rw [← hlen, ← hstains]
      exact hwashed

end Field

end LnxCad
