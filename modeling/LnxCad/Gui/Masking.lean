import LnxCad.Gui.Panels
import LnxCad.Lib.Mask

/-!
# Passwords behind stars

A password field is edited behind stars or in clear.  In a frame the cursor is moved or the
character in front of it is deleted, and then what was typed is inserted at the cursor.  Behind
stars the password only follows the line of stars, and it is told exactly when it stays the
password that is stored in clear.
-/

namespace LnxCad

/-! ### Frames of editing -/

/-- What a frame does first: nothing, or it moves the cursor by a key or to the place of a click,
or it deletes the character in front of the cursor. -/
inductive CursorKey where
  | none
  | left
  | right
  | click (pos : ℕ)
  | backspace
deriving DecidableEq

/-- A frame of editing: what it does first, and the characters typed. -/
structure Strokes where
  key : CursorKey := .none
  typed : List TypedChar := []
deriving DecidableEq

/-- `nk_textedit_key` on a text of a given length: the edit, and where the cursor is behind it. -/
def CursorKey.strike (len cursor : ℕ) : CursorKey → List NkEdit × ℕ
  | .none => ([], cursor)
  | .left => ([], cursor - 1)
  | .right => ([], min (cursor + 1) len)
  | .click pos => ([], min pos len)
  | .backspace =>
      let cursor := min cursor len
      if 0 < cursor then ([.delete (cursor - 1) 1], cursor - 1) else ([], cursor)

/-- `nk_textedit_text` on a text of a given length.  The cursor is moved even where the memory is
full. -/
def typeText (cap : ℕ) : ℕ → ℕ → List TypedChar → List NkEdit × ℕ
  | _, cursor, [] => ([], cursor)
  | len, cursor, c :: cs =>
      let cursor := min cursor len
      let e := NkEdit.insert cursor c
      let len := e.lenAfter cap len
      let (es, cursor) := typeText cap len (min (cursor + 1) len) cs
      (e :: es, cursor)

/-- The edits of a frame, in a password field. -/
def Strokes.edit (len cursor : ℕ) (s : Strokes) : List NkEdit × ℕ :=
  let (es, cursor) := s.key.strike len cursor
  let len := es.foldl (fun len e => e.lenAfter 255 len) len
  let (es', cursor) := typeText 255 len cursor s.typed
  (es ++ es', cursor)

/-- A field that is being edited, and the cursor in it. -/
structure Editing where
  field : Field
  cursor : ℕ

/-- A frame, with the characters shown or behind stars. -/
def Editing.frame (showPasswords : Bool) (e : Editing) (s : Strokes) : Editing :=
  let (edits, cursor) := s.edit e.field.len e.cursor
  ⟨Gui.editPwd showPasswords e.field { edits := edits }, cursor⟩

/-- One frame after the other. -/
def Editing.run (showPasswords : Bool) (ss : List Strokes) (e : Editing) : Editing :=
  ss.foldl (Editing.frame showPasswords) e

/-- The password that is stored. -/
def Editing.stored (e : Editing) : Bytes := cstr e.field.memory

/-! ### Edits of a text -/

/-- An edit of a text. -/
def NkEdit.onText (cap : ℕ) (t : Bytes) : NkEdit → Bytes
  | .insert pos c =>
      if pos ≤ t.length ∧ t.length + 1 < cap then t.take pos ++ c.val :: t.drop pos else t
  | .delete pos k => if pos + k ≤ t.length then t.take pos ++ t.drop (pos + k) else t

theorem NkEdit.length_onText (cap : ℕ) (t : Bytes) (e : NkEdit) :
  (e.onText cap t).length = e.lenAfter cap t.length
  := by
  cases e with
  | insert pos c =>
      dsimp only [onText, lenAfter]
      split
      · rw [List.length_append, List.length_cons, List.length_take, List.length_drop]
        omega
      · rfl
  | delete pos k =>
      dsimp only [onText, lenAfter]
      split
      · rw [List.length_append, List.length_take, List.length_drop]
        omega
      · rfl

/-- The text of a field, and the rest of its memory. -/
structure Field.Has (f : Field) (t rest : Bytes) : Prop where
  short : t.length < 255
  size : t.length + rest.length = 256
  len : f.len = t.length
  memory : f.memory = t ++ rest

variable {f : Field} {t rest : Bytes}

theorem Field.Has.apply (h : f.Has t rest) (e : NkEdit) :
  ∃ rest', (f.apply 255 e).Has (e.onText 255 t) rest'
  := by
  obtain ⟨hshort, hsize, hlen, hmemory⟩ := h
  cases e with
  | insert pos c =>
      dsimp only [Field.apply, NkEdit.onText]
      rw [hlen]
      split
      case isTrue hfits =>
        use rest.drop 1
        constructor
        · rw [List.length_append, List.length_cons, List.length_take, List.length_drop]
          omega
        · rw [List.length_append, List.length_cons, List.length_take, List.length_drop,
            List.length_drop]
          omega
        · dsimp only
          rw [List.length_append, List.length_cons, List.length_take, List.length_drop]
          omega
        · dsimp only
          rw [hmemory, List.take_append_of_le_length hfits.1, List.drop_append_of_le_length hfits.1,
            List.take_left' List.length_drop, ← List.drop_drop, List.drop_left, List.append_assoc]
      case isFalse => exact ⟨rest, hshort, hsize, hlen, hmemory⟩
  | delete pos k =>
      dsimp only [Field.apply, NkEdit.onText]
      rw [hlen]
      split
      case isTrue hfits =>
        use t.drop (t.length - k) ++ rest
        constructor
        · rw [List.length_append, List.length_take, List.length_drop]
          omega
        · simp only [List.length_append, List.length_take, List.length_drop]
          omega
        · dsimp only
          rw [List.length_append, List.length_take, List.length_drop]
          omega
        · dsimp only
          rw [hmemory, List.take_append_of_le_length (by omega), List.drop_append_of_le_length hfits,
            List.drop_append_of_le_length (by omega), List.take_left' (by rw [List.length_drop]; omega)]
      case isFalse => exact ⟨rest, hshort, hsize, hlen, hmemory⟩

theorem Field.Has.foldl (edits : List NkEdit) (h : f.Has t rest) :
  ∃ rest', (edits.foldl (Field.apply 255) f).Has (edits.foldl (NkEdit.onText 255) t) rest'
  := by
  induction edits generalizing f t rest with
  | nil => exact ⟨rest, h⟩
  | cons e es ih =>
      obtain ⟨rest', happlied⟩ := h.apply e
      exact ih happlied

theorem Field.Has.nkEditString (edits : List NkEdit) (h : f.Has t rest) :
  ∃ rest', (nkEditString 255 edits f).Has (edits.foldl (NkEdit.onText 255) t) rest'
  := by
  have hmin : min f.len (255 - 1) = f.len := by
    have := h.short
    have := h.len
    omega
  rw [LnxCad.nkEditString, hmin]
  exact h.foldl edits

theorem length_foldl_onText (cap : ℕ) (edits : List NkEdit) (t : Bytes) :
  (edits.foldl (NkEdit.onText cap) t).length
    = edits.foldl (fun len e => e.lenAfter cap len) t.length
  := by
  induction edits generalizing t with
  | nil => rfl
  | cons e es ih => rw [List.foldl_cons, List.foldl_cons, ih, e.length_onText]

/-! ### What a frame types -/

/-- The bytes of typed characters. -/
def typedBytes (cs : List TypedChar) : Bytes := cs.map Subtype.val

theorem typedBytes_cons (c : TypedChar) (cs : List TypedChar) :
  typedBytes (c :: cs) = c.val :: typedBytes cs
  := rfl

/-- Of a run of characters those are inserted for which there is room. -/
theorem typeText_onText {cap cursor : ℕ} (cs : List TypedChar) (hcursor : cursor ≤ t.length) :
  (typeText cap t.length cursor cs).1.foldl (NkEdit.onText cap) t
      = t.take cursor ++ (typedBytes cs).take (cap - 1 - t.length) ++ t.drop cursor
  := by
  induction cs generalizing t cursor with
  | nil => simp [typeText, typedBytes]
  | cons c cs ih =>
      dsimp only [typeText]
      rw [List.foldl_cons, min_eq_left hcursor, ← NkEdit.length_onText]
      by_cases hroom : t.length + 1 < cap
      · have htext : NkEdit.onText cap t (.insert cursor c) = t.take cursor ++ c.val :: t.drop cursor :=
          if_pos ⟨hcursor, hroom⟩
        have hbefore : (t.take cursor).length = cursor := List.length_take_of_le hcursor
        have hlength : (t.take cursor ++ c.val :: t.drop cursor).length = t.length + 1 := by
          rw [List.length_append, List.length_cons, hbefore, List.length_drop]
          omega
        have htake : (t.take cursor ++ c.val :: t.drop cursor).take (cursor + 1)
            = t.take cursor ++ [c.val] := by
          rw [List.append_cons, List.take_left' (by rw [List.length_append, hbefore]; rfl)]
        have hdrop : (t.take cursor ++ c.val :: t.drop cursor).drop (cursor + 1) = t.drop cursor := by
          rw [List.append_cons, List.drop_left' (by rw [List.length_append, hbefore]; rfl)]
        have hrest : cap - 1 - t.length = cap - 1 - (t.length + 1) + 1 := by omega
        rw [htext, ih (min_le_right _ _), hlength, min_eq_left (by omega), htake, hdrop, hrest,
          typedBytes_cons, List.take_succ_cons]
        simp only [List.append_assoc, List.cons_append, List.nil_append]
      · have htext : NkEdit.onText cap t (.insert cursor c) = t := if_neg (by omega)
        have hfull : cap - 1 - t.length = 0 := by omega
        rw [htext, ih (min_le_right _ _), hfull, List.take_zero, List.take_zero, List.append_nil,
          List.append_nil, List.take_append_drop, List.take_append_drop]

theorem typeText_cursor {cap len cursor : ℕ} (cs : List TypedChar) (hcursor : cursor ≤ len) :
  (typeText cap len cursor cs).2
    ≤ (typeText cap len cursor cs).1.foldl (fun len e => NkEdit.lenAfter cap len e) len
  := by
  induction cs generalizing len cursor with
  | nil => exact hcursor
  | cons c cs ih => exact ih (min_le_right _ _)

/-! ### What a frame does to a text -/

/-- The edits of a frame, on a text. -/
def Strokes.onText (s : Strokes) (t : Bytes) (cursor : ℕ) : Bytes :=
  (s.edit t.length cursor).1.foldl (NkEdit.onText 255) t

/-- The place at which a frame types. -/
def Strokes.place (s : Strokes) (t : Bytes) (cursor : ℕ) : ℕ := (s.key.strike t.length cursor).2

/-- Whether a frame deletes a character. -/
def Strokes.Deletes (s : Strokes) (cursor : ℕ) : Prop := s.key = .backspace ∧ 0 < cursor

instance (s : Strokes) (cursor : ℕ) : Decidable (s.Deletes cursor) :=
  inferInstanceAs (Decidable (_ ∧ _))

variable {s : Strokes} {cursor : ℕ}

theorem Strokes.strike_of_not_deletes (hcursor : cursor ≤ t.length) (h : ¬ s.Deletes cursor) :
  (s.key.strike t.length cursor).1 = [] ∧ s.place t cursor ≤ t.length
  := by
  unfold Strokes.place
  cases hkey : s.key with
  | none => exact ⟨rfl, hcursor⟩
  | left => exact ⟨rfl, (Nat.sub_le _ _).trans hcursor⟩
  | right => exact ⟨rfl, min_le_right _ _⟩
  | click pos => exact ⟨rfl, min_le_right _ _⟩
  | backspace =>
      have hzero : ¬ 0 < min cursor t.length := fun hpos => h ⟨hkey, by omega⟩
      dsimp only [CursorKey.strike]
      rw [if_neg hzero]
      exact ⟨rfl, by dsimp only; omega⟩

theorem Strokes.strike_of_deletes (hcursor : cursor ≤ t.length) (h : s.Deletes cursor) :
  s.key.strike t.length cursor = ([.delete (cursor - 1) 1], cursor - 1)
  := by
  obtain ⟨hkey, hpos⟩ := h
  rw [hkey]
  dsimp only [CursorKey.strike]
  rw [min_eq_left hcursor, if_pos hpos]

/-- A run of characters is inserted. -/
theorem Strokes.onText_of_not_deletes (hcursor : cursor ≤ t.length) (h : ¬ s.Deletes cursor) :
  s.onText t cursor = t.take (s.place t cursor)
      ++ (typedBytes s.typed).take (254 - t.length) ++ t.drop (s.place t cursor)
  := by
  obtain ⟨hedits, hplace⟩ := strike_of_not_deletes hcursor h
  unfold Strokes.onText Strokes.edit
  dsimp only
  rw [hedits, List.nil_append, List.foldl_nil]
  exact typeText_onText s.typed hplace

/-- A run of characters is inserted in place of the one in front of the cursor. -/
theorem Strokes.onText_of_deletes (hcursor : cursor ≤ t.length) (h : s.Deletes cursor) :
  s.onText t cursor = t.take (cursor - 1)
      ++ (typedBytes s.typed).take (254 - (t.length - 1)) ++ t.drop cursor
  := by
  have hpos := h.2
  have htext : NkEdit.onText 255 t (.delete (cursor - 1) 1) = t.take (cursor - 1) ++ t.drop cursor := by
    dsimp only [NkEdit.onText]
    rw [if_pos (by omega), Nat.sub_add_cancel hpos]
  have hbefore : (t.take (cursor - 1)).length = cursor - 1 := List.length_take_of_le (by omega)
  have hlength : (NkEdit.onText 255 t (.delete (cursor - 1) 1)).length = t.length - 1 := by
    rw [htext, List.length_append, hbefore, List.length_drop]
    omega
  unfold Strokes.onText Strokes.edit
  rw [strike_of_deletes hcursor h]
  dsimp only
  rw [List.foldl_append, List.foldl_cons, List.foldl_nil, List.foldl_cons, List.foldl_nil,
    ← NkEdit.length_onText, typeText_onText _ (by omega), hlength, htext, List.take_left' hbefore,
    List.drop_left' hbefore]

/-- The cursor stays in the text. -/
theorem Strokes.cursor_le (hcursor : cursor ≤ t.length) :
  (s.edit t.length cursor).2 ≤ (s.onText t cursor).length
  := by
  unfold Strokes.onText Strokes.edit
  rw [length_foldl_onText]
  dsimp only
  rw [List.foldl_append]
  apply typeText_cursor
  by_cases h : s.Deletes cursor
  · rw [strike_of_deletes hcursor h]
    have hpos := h.2
    dsimp only [List.foldl_cons, List.foldl_nil, NkEdit.lenAfter]
    rw [if_pos (by omega)]
    omega
  · obtain ⟨hedits, hplace⟩ := strike_of_not_deletes hcursor h
    rw [hedits]
    exact hplace

/-! ### When both ways agree -/

/-- A run of characters that may be typed behind stars: it is typed at the end, or at a place with
nothing but stars behind it, as many of which as possible are at the front of the run. -/
def RunAgrees (t : Bytes) (place : ℕ) (run : Bytes) : Prop :=
  run = [] ∨ ∀ b ∈ t.drop place ++ run.take (t.drop place).length, b = 42

/-- A frame that does the same to a password behind stars as to one in clear.  A character that
is deleted is the same as all behind it if none is typed; otherwise it is typed again first, and
the rest that is typed agrees. -/
def Strokes.Agrees (s : Strokes) (t : Bytes) (cursor : ℕ) : Prop :=
  if s.Deletes cursor then
    match s.typed with
    | [] => ∀ b ∈ t.drop cursor, t[cursor - 1]? = some b
    | c :: cs =>
        t[cursor - 1]? = some c.val ∧ RunAgrees t cursor ((typedBytes cs).take (254 - t.length))
  else RunAgrees t (s.place t cursor) ((typedBytes s.typed).take (254 - t.length))

/-- The stars in place of a password. -/
def stars (t : Bytes) : Bytes := List.replicate t.length 42

theorem length_stars (t : Bytes) :
  (stars t).length = t.length
  := List.length_replicate

theorem take_stars {t : Bytes} {place : ℕ} :
  (stars t).take place = List.replicate (t.take place).length 42
  := by
  rw [stars, List.take_replicate, List.length_take]

theorem drop_stars {t : Bytes} {place : ℕ} :
  (stars t).drop place = List.replicate (t.drop place).length 42
  := by
  rw [stars, List.drop_replicate, List.length_drop]

/-- The password follows its stars to what the frame makes of it if and only if the frame agrees. -/
theorem Strokes.follow_iff (hcursor : cursor ≤ t.length) (hshort : t.length < 255) :
  Mask.follow t (s.onText (stars t) cursor) = s.onText t cursor ↔ s.Agrees t cursor
  := by
  have hcursor' : cursor ≤ (stars t).length := (length_stars t).symm ▸ hcursor
  unfold Strokes.Agrees
  by_cases h : s.Deletes cursor
  · have hpos := h.2
    have hlt : cursor - 1 < t.length := by omega
    have hsplit : t.take (cursor - 1) ++ t[cursor - 1] :: t.drop cursor = t := by
      have hdrop := List.drop_eq_getElem_cons hlt
      rw [Nat.sub_add_cancel hpos] at hdrop
      rw [← hdrop, List.take_append_drop]
    rw [if_pos h, onText_of_deletes hcursor h, onText_of_deletes hcursor' h, take_stars, drop_stars,
      length_stars, List.getElem?_eq_getElem hlt]
    cases htyped : s.typed with
    | nil =>
        have hiff := Mask.follow_delete_iff 42 (t.take (cursor - 1)) (t.drop cursor) t[cursor - 1]
        have hnone : (typedBytes []).take (254 - (t.length - 1)) = [] := List.take_nil
        rw [hsplit] at hiff
        rw [hnone, List.append_nil, List.append_nil, hiff]
        simp only [Option.some.injEq, eq_comm]
    | cons c cs =>
        have hiff := Mask.follow_replace_iff 42 (t.take (cursor - 1)) (t.drop cursor)
          ((typedBytes cs).take (254 - t.length)) t[cursor - 1] c.val
        have hsome : (typedBytes (c :: cs)).take (254 - (t.length - 1))
            = c.val :: (typedBytes cs).take (254 - t.length) := by
          rw [typedBytes_cons, show 254 - (t.length - 1) = 254 - t.length + 1 by omega,
            List.take_succ_cons]
        rw [hsplit] at hiff
        rw [hsome, hiff]
        dsimp only
        rw [Option.some.injEq, eq_comm]
        rfl
  · have hiff := Mask.follow_insert_iff 42 (t.take (s.place t cursor)) (t.drop (s.place t cursor))
      ((typedBytes s.typed).take (254 - t.length))
    have hplace : s.place (stars t) cursor = s.place t cursor := by
      rw [Strokes.place, length_stars, Strokes.place]
    rw [List.take_append_drop] at hiff
    rw [if_neg h, onText_of_not_deletes hcursor h, onText_of_not_deletes hcursor' h, hplace, take_stars,
      drop_stars, length_stars, hiff]
    rfl

/-! ### The fields -/

/-- The field of a password: the bytes of the password, and the zero behind it. -/
structure Field.Stores (f : Field) (t : Bytes) : Prop where
  short : t.length < 255
  size : f.memory.length = 256
  len : f.len = t.length
  nonzero : ∀ c ∈ t, c ≠ 0
  memory : ∃ rest, f.memory = t ++ 0 :: rest

theorem Field.Stores.cstr_eq (h : f.Stores t) :
  cstr f.memory = t
  := by
  obtain ⟨rest, hmemory⟩ := h.memory
  rw [hmemory, cstr_append_zero h.nonzero]

theorem Field.Stores.has (h : f.Stores t) :
  ∃ rest, f.Has t rest
  := by
  obtain ⟨rest, hmemory⟩ := h.memory
  have hsize := congrArg List.length hmemory
  rw [h.size, List.length_append] at hsize
  exact ⟨0 :: rest, h.short, hsize.symm, h.len, hmemory⟩

/-- A field becomes the field of a password when the zero is set behind it. -/
theorem Field.Has.terminate (h : f.Has t rest) (hnonzero : ∀ c ∈ t, c ≠ 0) :
  Field.Stores { f with memory := f.memory.set f.len 0 } t
  := by
  obtain ⟨hshort, hsize, hlen, hmemory⟩ := h
  constructor
  · exact hshort
  · dsimp only
    rw [List.length_set, hmemory, List.length_append, hsize]
  · exact hlen
  · exact hnonzero
  · use rest.drop 1
    dsimp only
    cases rest with
    | nil =>
        rw [List.length_nil] at hsize
        omega
    | cons c rest =>
        rw [hmemory, hlen, List.set_append_right _ _ (le_refl _), Nat.sub_self, List.set_cons_zero,
          List.drop_one, List.tail_cons]

theorem NkEdit.nonzero_onText {cap : ℕ} (hnonzero : ∀ c ∈ t, c ≠ 0) (e : NkEdit) :
  ∀ c ∈ e.onText cap t, c ≠ 0
  := by
  intro b hb
  cases e with
  | insert pos c =>
      dsimp only [onText] at hb
      split at hb
      · obtain hb | hb := List.mem_append.mp hb
        · exact hnonzero b (List.mem_of_mem_take hb)
        · obtain rfl | hb := List.mem_cons.mp hb
          · exact c.property
          · exact hnonzero b (List.mem_of_mem_drop hb)
      · exact hnonzero b hb
  | delete pos k =>
      dsimp only [onText] at hb
      split at hb
      · obtain hb | hb := List.mem_append.mp hb
        · exact hnonzero b (List.mem_of_mem_take hb)
        · exact hnonzero b (List.mem_of_mem_drop hb)
      · exact hnonzero b hb

theorem nonzero_foldl {cap : ℕ} (edits : List NkEdit) (hnonzero : ∀ c ∈ t, c ≠ 0) :
  ∀ c ∈ edits.foldl (NkEdit.onText cap) t, c ≠ 0
  := by
  induction edits generalizing t with
  | nil => exact hnonzero
  | cons e es ih => exact ih (e.nonzero_onText hnonzero)

/-- In clear a frame does to the password stored what it does to the text. -/
theorem Field.Stores.editPwd_shown (h : f.Stores t) (r : EditResult) :
  (Gui.editPwd true f r).Stores (r.edits.foldl (NkEdit.onText 255) t)
  := by
  obtain ⟨rest, hhas⟩ := h.has
  obtain ⟨rest', hedited⟩ := hhas.nkEditString r.edits
  exact hedited.terminate (nonzero_foldl r.edits h.nonzero)

/-- The line of stars that is drawn for a field. -/
theorem Field.Has.starred (h : f.Has t rest) :
  Field.Has ⟨List.replicate f.len 42 ++ List.replicate (256 - f.len) 0, f.len⟩ (stars t)
    (List.replicate (256 - f.len) 0)
  := by
  have hshort := h.short
  have hlen := h.len
  constructor
  · rw [length_stars]
    exact hshort
  · rw [length_stars, List.length_replicate]
    omega
  · rw [length_stars]
    exact hlen
  · rw [hlen, stars]

/-- What the line of stars has grown by is copied into the field, and what it has lost is cut off. -/
theorem Field.Has.follow (h : f.Has t rest) {edited rest' : Bytes} (hshort : edited.length < 255)
    (hsize : edited.length + rest'.length = 256) :
  ∃ rest'', Field.Has
    ⟨if f.len < edited.length then
        f.memory.take f.len ++ ((edited ++ rest').drop f.len).take (edited.length - f.len)
          ++ f.memory.drop edited.length
      else f.memory, edited.length⟩ (Mask.follow t edited) rest''
  := by
  have hold := h.size
  rw [h.len, h.memory]
  by_cases hgrown : t.length < edited.length
  · have hfollow : Mask.follow t edited = t ++ edited.drop t.length := by
      rw [Mask.follow, List.take_of_length_le (by omega)]
    have hkept : (t ++ rest).drop edited.length = rest.drop (edited.length - t.length) := by
      rw [List.drop_append, List.drop_of_length_le (Nat.le_of_lt hgrown), List.nil_append]
    use rest.drop (edited.length - t.length)
    rw [if_pos hgrown, hfollow, hkept]
    constructor
    · rw [List.length_append, List.length_drop]
      omega
    · rw [List.length_append, List.length_drop, List.length_drop]
      omega
    · dsimp only
      rw [List.length_append, List.length_drop]
      omega
    · dsimp only
      rw [List.take_left, List.drop_append_of_le_length (by omega), List.take_left' List.length_drop]
  · have hfollow : Mask.follow t edited = t.take edited.length := by
      rw [Mask.follow, List.drop_of_length_le (by omega), List.append_nil]
    have hcut : (t.take edited.length).length = edited.length := List.length_take_of_le (by omega)
    use t.drop edited.length ++ rest
    rw [if_neg hgrown, hfollow]
    constructor
    · rw [hcut]
      exact hshort
    · rw [hcut, List.length_append, List.length_drop]
      omega
    · exact hcut.symm
    · rw [← List.append_assoc, List.take_append_drop]

theorem nonzero_follow {cap : ℕ} (edits : List NkEdit) (hnonzero : ∀ c ∈ t, c ≠ 0) :
  ∀ c ∈ Mask.follow t (edits.foldl (NkEdit.onText cap) (stars t)), c ≠ 0
  := by
  have hstars : ∀ c ∈ stars t, c ≠ 0 := by
    intro c hc
    rw [List.eq_of_mem_replicate hc]
    decide
  intro c hc
  obtain hc | hc := List.mem_append.mp hc
  · exact hnonzero c (List.mem_of_mem_take hc)
  · exact nonzero_foldl edits hstars c (List.mem_of_mem_drop hc)

/-- Behind stars the password stored follows the stars. -/
theorem Field.Stores.editPwd_masked (h : f.Stores t) (r : EditResult) :
  (Gui.editPwd false f r).Stores
    (Mask.follow t (r.edits.foldl (NkEdit.onText 255) (stars t)))
  := by
  obtain ⟨rest, hhas⟩ := h.has
  obtain ⟨rest', hedited⟩ := hhas.starred.nkEditString r.edits
  obtain ⟨rest'', hmoved⟩ := hhas.follow hedited.short hedited.size
  have hstores := hmoved.terminate (nonzero_follow r.edits h.nonzero)
  dsimp only [Gui.editPwd, Gui.editMasked]
  rw [if_neg Bool.false_ne_true, hedited.len, hedited.memory]
  exact hstores

/-- A frame in clear. -/
theorem Field.Stores.frame_shown (h : f.Stores t) (s : Strokes) (cursor : ℕ) :
  ∃ f', Editing.frame true ⟨f, cursor⟩ s = ⟨f', (s.edit t.length cursor).2⟩
    ∧ f'.Stores (s.onText t cursor)
  := by
  use Gui.editPwd true f { edits := (s.edit t.length cursor).1 }
  constructor
  · dsimp only [Editing.frame]
    rw [h.len]
  · exact h.editPwd_shown { edits := (s.edit t.length cursor).1 }

/-- A frame behind stars. -/
theorem Field.Stores.frame_masked (h : f.Stores t) (s : Strokes) (cursor : ℕ) :
  ∃ f', Editing.frame false ⟨f, cursor⟩ s = ⟨f', (s.edit t.length cursor).2⟩
    ∧ f'.Stores (Mask.follow t (s.onText (stars t) cursor))
  := by
  use Gui.editPwd false f { edits := (s.edit t.length cursor).1 }
  constructor
  · dsimp only [Editing.frame]
    rw [h.len]
  · rw [Strokes.onText, length_stars]
    exact h.editPwd_masked { edits := (s.edit t.length cursor).1 }

/-! ### Runs -/

/-- After every frame both ways store the same password. -/
def SamePassword (e e' : Editing) (ss : List Strokes) : Prop :=
  ∀ k, (Editing.run false (ss.take k) e).stored = (Editing.run true (ss.take k) e').stored

/-- Every frame agrees, on the password it comes to in clear. -/
def AllAgree (e : Editing) (ss : List Strokes) : Prop :=
  ∀ (k : ℕ) (s : Strokes), ss[k]? = some s →
    s.Agrees (Editing.run true (ss.take k) e).stored (Editing.run true (ss.take k) e).cursor

theorem samePassword_cons {e e' : Editing} {ss : List Strokes} :
  SamePassword e e' (s :: ss) ↔ e.stored = e'.stored
    ∧ SamePassword (e.frame false s) (e'.frame true s) ss
  := by
  constructor
  · intro h
    exact ⟨h 0, fun k => h (k + 1)⟩
  · rintro ⟨hfirst, hrest⟩ k
    cases k with
    | zero => exact hfirst
    | succ k => exact hrest k

theorem allAgree_cons {e : Editing} {ss : List Strokes} :
  AllAgree e (s :: ss) ↔ s.Agrees e.stored e.cursor ∧ AllAgree (e.frame true s) ss
  := by
  constructor
  · intro h
    exact ⟨h 0 s rfl, fun k s' hs' => h (k + 1) s' hs'⟩
  · rintro ⟨hfirst, hrest⟩ k s' hs'
    cases k with
    | zero =>
        obtain rfl : s = s' := Option.some.inj hs'
        exact hfirst
    | succ k => exact hrest k s' hs'

theorem SamePassword.stored_eq {e e' : Editing} {ss : List Strokes} (h : SamePassword e e' ss) :
  e.stored = e'.stored
  := h 0

/-- Two fields of one password, edited behind stars and in clear. -/
theorem Field.Stores.samePassword_iff
    {f f' : Field} (h : f.Stores t) (h' : f'.Stores t) (hcursor : cursor ≤ t.length)
    (ss : List Strokes) :
  SamePassword ⟨f, cursor⟩ ⟨f', cursor⟩ ss ↔ AllAgree ⟨f', cursor⟩ ss
  := by
  induction ss generalizing f f' t cursor with
  | nil =>
      constructor
      · rintro - k s hs
        cases hs
      · rintro - k
        rw [List.take_nil]
        exact h.cstr_eq.trans h'.cstr_eq.symm
  | cons s ss ih =>
      obtain ⟨f₁, hmasked, hstores⟩ := h.frame_masked s cursor
      obtain ⟨f₁', hshown, hstores'⟩ := h'.frame_shown s cursor
      have hfirst := Strokes.follow_iff (s := s) hcursor h.short
      have hstored : Editing.stored ⟨f', cursor⟩ = t := h'.cstr_eq
      rw [samePassword_cons, allAgree_cons, hstored, hmasked, hshown]
      constructor
      · rintro ⟨-, hsame⟩
        have hagrees : s.Agrees t cursor := by
          rw [← hfirst, ← hstores.cstr_eq, ← hstores'.cstr_eq]
          exact hsame.stored_eq
        rw [hfirst.mpr hagrees] at hstores
        exact ⟨hagrees, (ih hstores hstores' (Strokes.cursor_le hcursor)).mp hsame⟩
      · rintro ⟨hagrees, hall⟩
        rw [hfirst.mpr hagrees] at hstores
        exact ⟨h.cstr_eq, (ih hstores hstores' (Strokes.cursor_le hcursor)).mpr hall⟩

/-- A password is the same after every frame, whether it is edited behind stars or in clear, if and
only if every frame agrees. -/
theorem editPwd_same_iff (h : f.Stores t) (hcursor : cursor ≤ t.length) (ss : List Strokes) :
  SamePassword ⟨f, cursor⟩ ⟨f, cursor⟩ ss ↔ AllAgree ⟨f, cursor⟩ ss
  := h.samePassword_iff h hcursor ss

/-- An empty field. -/
theorem Field.Stores.zero :
  Field.Stores (.zero 256) []
  := by
  constructor
  · decide
  · exact List.length_replicate
  · rfl
  · simp
  · exact ⟨List.replicate 255 0, rfl⟩

/-- The password `xz` is typed. -/
def typeXz : Strokes := ⟨.none, [⟨120, by decide⟩, ⟨122, by decide⟩]⟩

/-- The cursor is moved in front of the `z`, and a `y` is typed. -/
def typeY : Strokes := ⟨.left, [⟨121, by decide⟩]⟩

theorem editPwd_same_iff_xz :
  SamePassword ⟨.zero 256, 0⟩ ⟨.zero 256, 0⟩ [typeXz] ↔ AllAgree ⟨.zero 256, 0⟩ [typeXz]
  := editPwd_same_iff Field.Stores.zero (Nat.zero_le _) _

/-- In clear the password becomes `xyz`, and `xz*` behind stars. -/
theorem not_editPwd_same :
  ¬ SamePassword ⟨.zero 256, 0⟩ ⟨.zero 256, 0⟩ [typeXz, typeY]
  := by
  intro h
  have hmasked : (Editing.run false [typeXz, typeY] ⟨.zero 256, 0⟩).stored = [120, 122, 42] := by
    decide +kernel
  have hshown : (Editing.run true [typeXz, typeY] ⟨.zero 256, 0⟩).stored = [120, 121, 122] := by
    decide +kernel
  have hsame := h 2
  rw [List.take_of_length_le (by decide), hmasked, hshown] at hsame
  cases hsame

end LnxCad
