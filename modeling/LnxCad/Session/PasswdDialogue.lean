import LnxCad.Text

/-!
# The dialogue with `passwd`

To change a password the program starts `passwd` on a pseudo-terminal and answers its prompts.
A prompt is known by words that are looked for in what one `read` returns; each of the three
answers is given once.  The first line `passwd` prints has the name of the user in it, and may
be read alone: a name that contains one of the words is then taken for a prompt.
-/

namespace LnxCad.Session

/-! ### The program -/

/-- The words by which the prompt for the current password is known. -/
def currentWords : List Bytes :=
  [chars ['c', 'u', 'r', 'r', 'e', 'n', 't'], chars ['C', 'u', 'r', 'r', 'e', 'n', 't'],
    chars ['a', 'c', 't', 'u', 'e', 'l'], chars ['A', 'c', 't', 'u', 'e', 'l'],
    chars ['c', 'o', 'u', 'r', 'a', 'n', 't'], chars ['C', 'o', 'u', 'r', 'a', 'n', 't'],
    chars ['a', 'k', 't', 'u', 'e', 'l', 'l', 'e'], chars ['A', 'k', 't', 'u', 'e', 'l', 'l', 'e'],
    chars ['a', 'c', 't', 'u', 'a', 'l'], chars ['A', 'c', 't', 'u', 'a', 'l'],
    chars ['a', 't', 't', 'u', 'a', 'l', 'e'], chars ['A', 't', 't', 'u', 'a', 'l', 'e']]

/-- The words by which the prompt to repeat the new password is known. -/
def retypeWords : List Bytes :=
  [chars ['r', 'e', 't', 'y', 'p', 'e'], chars ['R', 'e', 't', 'y', 'p', 'e'],
    chars ['c', 'o', 'n', 'f', 'i', 'r', 'm'], chars ['C', 'o', 'n', 'f', 'i', 'r', 'm'],
    chars ['r', 'e', 's', 's', 'a', 'i', 's', 'i', 's', 's', 'e', 'z'],
    chars ['R', 'e', 's', 's', 'a', 'i', 's', 'i', 's', 's', 'e', 'z'],
    chars ['c', 'o', 'n', 'f', 'i', 'r', 'm', 'e', 'z'],
    chars ['C', 'o', 'n', 'f', 'i', 'r', 'm', 'e', 'z'], chars ['r', 'e', 'p', 'e', 't', 'e', 'z'],
    chars ['R'] ++ [195, 169] ++ chars ['p'] ++ [195, 169] ++ chars ['t', 'e', 'z'],
    chars ['w', 'i', 'e', 'd', 'e', 'r', 'h', 'o', 'l', 'e', 'n'],
    chars ['W', 'i', 'e', 'd', 'e', 'r', 'h', 'o', 'l', 'e', 'n'],
    chars ['b', 'e', 's', 't'] ++ [195, 164] ++ chars ['t', 'i', 'g', 'e', 'n'],
    chars ['B', 'e', 's', 't'] ++ [195, 164] ++ chars ['t', 'i', 'g', 'e', 'n'],
    chars ['b', 'e', 's', 't', 'a', 'e', 't', 'i', 'g', 'e', 'n'],
    chars ['B', 'e', 's', 't', 'a', 'e', 't', 'i', 'g', 'e', 'n'],
    chars ['r', 'e', 'p', 'i', 't', 'a'], chars ['R', 'e', 'p', 'i', 't', 'a'],
    chars ['c', 'o', 'n', 'f', 'i', 'r', 'm', 'e'], chars ['C', 'o', 'n', 'f', 'i', 'r', 'm', 'e'],
    chars ['v', 'u', 'e', 'l', 'v', 'a'], chars ['V', 'u', 'e', 'l', 'v', 'a'],
    chars ['r', 'e', 'i', 'n', 's', 'e', 'r', 'i', 's', 'c', 'i'],
    chars ['R', 'e', 'i', 'n', 's', 'e', 'r', 'i', 's', 'c', 'i'],
    chars ['c', 'o', 'n', 'f', 'e', 'r', 'm', 'a'], chars ['C', 'o', 'n', 'f', 'e', 'r', 'm', 'a'],
    chars ['r', 'i', 'p', 'e', 't', 'i'], chars ['R', 'i', 'p', 'e', 't', 'i']]

/-- The words by which the prompt for the new password is known. -/
def newWords : List Bytes :=
  [chars ['n', 'e', 'w'], chars ['N', 'e', 'w'], chars ['n', 'o', 'u', 'v', 'e', 'a', 'u'],
    chars ['N', 'o', 'u', 'v', 'e', 'a', 'u'], chars ['n', 'o', 'u', 'v', 'e', 'l', 'l', 'e'],
    chars ['N', 'o', 'u', 'v', 'e', 'l', 'l', 'e'], chars ['n', 'e', 'u', 'e'],
    chars ['N', 'e', 'u', 'e'], chars ['n', 'e', 'u', 'e', 's'], chars ['N', 'e', 'u', 'e', 's'],
    chars ['n', 'u', 'e', 'v', 'a'], chars ['N', 'u', 'e', 'v', 'a'],
    chars ['n', 'u', 'e', 'v', 'o'], chars ['N', 'u', 'e', 'v', 'o'],
    chars ['n', 'u', 'o', 'v', 'a'], chars ['N', 'u', 'o', 'v', 'a']]

/-- The texts that say that the new password is refused. -/
def shortSimpleTexts : List Bytes :=
  [chars ['Y', 'o', 'u', ' ', 'm', 'u', 's', 't', ' ', 'c', 'h', 'o', 'o', 's', 'e', ' ', 'a', ' ',
      'l', 'o', 'n', 'g', 'e', 'r', ' ', 'p', 'a', 's', 's', 'w', 'o', 'r', 'd'],
    chars ['t', 'o', 'o', ' ', 's', 'h', 'o', 'r', 't'],
    chars ['t', 'o', 'o', ' ', 's', 'i', 'm', 'p', 'l', 'e']]

/-- The texts that say that the current password is wrong. -/
def incorrectTexts : List Bytes :=
  [chars ['A', 'u', 't', 'h', 'e', 'n', 't', 'i', 'c', 'a', 't', 'i', 'o', 'n', ' ', 't', 'o', 'k',
      'e', 'n', ' ', 'm', 'a', 'n', 'i', 'p', 'u', 'l', 'a', 't', 'i', 'o', 'n', ' ', 'e', 'r', 'r',
      'o', 'r'],
    chars ['I', 'n', 'c', 'o', 'r', 'r', 'e', 'c', 't', ' ', 'p', 'a', 's', 's', 'w', 'o', 'r',
      'd'],
    chars ['W', 'r', 'o', 'n', 'g', ' ', 'p', 'a', 's', 's', 'w', 'o', 'r', 'd'],
    chars ['A', 'u', 't', 'h', 'e', 'n', 't', 'i', 'c', 'a', 't', 'i', 'o', 'n', ' ', 'f', 'a', 'i',
      'l', 'u', 'r', 'e']]

/-- The texts that say that the password was changed. -/
def changedTexts : List Bytes :=
  [chars ['p', 'a', 's', 's', 'w', 'o', 'r', 'd', ' ', 'u', 'p', 'd', 'a', 't', 'e', 'd', ' ', 's',
      'u', 'c', 'c', 'e', 's', 's', 'f', 'u', 'l', 'l', 'y'],
    chars ['s', 'u', 'c', 'c', 'e', 's', 's', 'f', 'u', 'l', 'l', 'y', ' ', 'u', 'p', 'd', 'a', 't',
      'e', 'd']]

/-- Whether one of some texts stands in a buffer. -/
def mentions (texts : List Bytes) (buf : Bytes) : Bool := texts.any (strstr (cstr buf))

/-- What the user is told (`outmsg`). -/
inductive OutMsg where
  | none
  | errPwdShortSimple
  | errPwdIncorrect
  | msgPwdChanged
  | errPwdChangeFailed
deriving DecidableEq

/-- The variables of `change_own_password`, and what it has written to the pseudo-terminal. -/
structure Talk where
  oldpassSent : Bool := false
  newpassSent : Bool := false
  confirmSent : Bool := false
  outmsg : OutMsg := .none
  hasMsgFlag : Bool := false
  written : List Bytes := []
deriving DecidableEq

/-- `dprintf(master, "%s\n", …)`. -/
def Talk.write (t : Talk) (answer : Bytes) : Talk :=
  { t with written := t.written ++ [answer ++ [10]] }

/-- The prompt in the buffer is answered, unless it was before. -/
def sendAnswer (oldpass newpass buf : Bytes) (t : Talk) : Talk :=
  let isCurrent := mentions currentWords buf
  let isRetype := mentions retypeWords buf
  let isNew := mentions newWords buf && !isRetype
  if isCurrent && !t.oldpassSent then
    if oldpass ≠ [] then { t.write oldpass with oldpassSent := true } else t
  else if isNew && !t.newpassSent then { t.write newpass with newpassSent := true }
  else if isRetype && !t.confirmSent then { t.write newpass with confirmSent := true }
  else t

/-- A message is taken from the buffer. -/
def takeMessage (texts : List Bytes) (msg : OutMsg) (buf : Bytes) (t : Talk) : Talk :=
  if mentions texts buf then { t with outmsg := msg, hasMsgFlag := true } else t

/-- One turn of the loop, over what one `read` returned. -/
def turn (oldpass newpass : Bytes) (t : Talk) (buf : Bytes) : Talk :=
  takeMessage changedTexts .msgPwdChanged buf
    (takeMessage incorrectTexts .errPwdIncorrect buf
      (takeMessage shortSimpleTexts .errPwdShortSimple buf (sendAnswer oldpass newpass buf t)))

/-- `change_own_password`, given whether the pseudo-terminal could be opened, what the reads
return until one fails or none is ready in time, and whether `passwd` ended well. -/
def changeOwnPassword (oldpass newpass : Bytes) (forkpty : Bool) (reads : List Bytes)
    (exited : Bool) : Talk × ℤ :=
  if forkpty then
    let t := reads.foldl (turn oldpass newpass) {}
    if exited then ({ t with outmsg := .msgPwdChanged }, 0)
    else (if t.hasMsgFlag then t else { t with outmsg := .errPwdChangeFailed }, -1)
  else ({}, -1)

/-! ### `passwd` -/

/-- A user name: a string. -/
abbrev UserName := { u : Bytes // 0 ∉ u }

/-- What `passwd` prints: the line with the name of the user, three prompts, and line ends. -/
inductive Line where
  | banner
  | current
  | new
  | retype
  | eol (cr : Bool)
deriving DecidableEq

/-- The text of the line that names the user, up to the name. -/
def bannerText : Bytes :=
  chars ['C', 'h', 'a', 'n', 'g', 'i', 'n', 'g', ' ', 'p', 'a', 's', 's', 'w', 'o', 'r', 'd', ' ',
    'f', 'o', 'r', ' ']

/-- The prompt for the current password. -/
def currentText : Bytes :=
  chars ['C', 'u', 'r', 'r', 'e', 'n', 't', ' ', 'p', 'a', 's', 's', 'w', 'o', 'r', 'd', ':', ' ']

/-- The prompt for the new password. -/
def newText : Bytes :=
  chars ['N', 'e', 'w', ' ', 'p', 'a', 's', 's', 'w', 'o', 'r', 'd', ':', ' ']

/-- The prompt to repeat the new password. -/
def retypeText : Bytes :=
  chars ['R', 'e', 't', 'y', 'p', 'e', ' ', 'n', 'e', 'w', ' ', 'p', 'a', 's', 's', 'w', 'o', 'r',
    'd', ':', ' ']

/-- A line end, as the pseudo-terminal prints or echoes it. -/
def eolText (cr : Bool) : Bytes := if cr then [13, 10] else [10]

/-- The text of a line. -/
def Line.text (u : Bytes) : Line → Bytes
  | .banner => bannerText ++ u ++ [46]
  | .current => currentText
  | .new => newText
  | .retype => retypeText
  | .eol cr => eolText cr

/-- The number of answers `passwd` waits for before it prints a line. -/
def Line.needs : Line → ℕ
  | .new => 1
  | .retype => 2
  | _ => 0

/-- The dialogue: what `passwd` has still to print, what was printed and not read yet, and what
the reads returned so far. -/
structure Dialogue where
  script : List Line := [.banner, .current, .new, .retype]
  unread : List Line := []
  reads : List Bytes := []

/-- The program's side of a dialogue. -/
def Dialogue.talk (oldpass newpass : Bytes) (d : Dialogue) : Talk :=
  d.reads.foldl (turn oldpass newpass) {}

/-- The steps of a dialogue: `passwd` prints the next line when it has the answers it waits for, a
line end may appear at any time, and a read returns some of the lines printed, each as a
whole. -/
inductive Step (u oldpass newpass : Bytes) : Dialogue → Dialogue → Prop where
  | print {d : Dialogue} {l : Line} {rest : List Line} (hscript : d.script = l :: rest)
      (hneeds : l.needs ≤ (d.talk oldpass newpass).written.length) :
      Step u oldpass newpass d { d with script := rest, unread := d.unread ++ [l] }
  | eol {d : Dialogue} (cr : Bool) :
      Step u oldpass newpass d { d with unread := d.unread ++ [.eol cr] }
  | read {d : Dialogue} {now later : List Line} (hunread : d.unread = now ++ later)
      (hne : now ≠ []) (hfits : (now.flatMap (Line.text u)).length ≤ 1023) :
      Step u oldpass newpass d
        { d with unread := later, reads := d.reads ++ [now.flatMap (Line.text u)] }

/-- The states a dialogue can reach. -/
def Reached (u oldpass newpass : Bytes) : Dialogue → Prop :=
  Relation.ReflTransGen (Step u oldpass newpass) {}

/-- The answers `passwd` is to get. -/
def answers (oldpass newpass : Bytes) : List Bytes :=
  [oldpass ++ [10], newpass ++ [10], newpass ++ [10]]

/-- Whatever way the dialogue is delivered, the program writes the right answers in order, all of
them by its end, and `passwd` never waits for one in vain. -/
def RightAnswers (u oldpass newpass : Bytes) : Prop :=
  ∀ d, Reached u oldpass newpass d → ∀ exited,
    let written := (changeOwnPassword oldpass newpass true d.reads exited).1.written
    written <+: answers oldpass newpass
      ∧ (d.script = [] → d.unread = [] → written = answers oldpass newpass)
      ∧ (d.unread = [] → ∀ l ∈ d.script.head?, l.needs ≤ written.length)

/-! ### Words in lines -/

/-- A word: a text without the bytes at which lines end. -/
def IsWord (w : Bytes) : Prop := w ≠ [] ∧ 10 ∉ w ∧ 32 ∉ w ∧ 46 ∉ w

/-- The words of a prompt. -/
def WordsIn (texts : List Bytes) : Prop := ∀ w ∈ texts, IsWord w

theorem currentWords_wordsIn :
  WordsIn currentWords
  := by
  unfold WordsIn IsWord
  decide

theorem retypeWords_wordsIn :
  WordsIn retypeWords
  := by
  unfold WordsIn IsWord
  decide

theorem newWords_wordsIn :
  WordsIn newWords
  := by
  unfold WordsIn IsWord
  decide

theorem strstr_nil {w : Bytes} (h : w ≠ []) :
  strstr [] w = false
  := by
  cases w with
  | nil => exact absurd rfl h
  | cons => rfl

theorem Line.text_eq (u : Bytes) (l : Line) :
  ∃ body x, l.text u = body ++ [x] ∧ (x = 10 ∨ x = 32 ∨ x = 46)
  := by
  cases l with
  | banner => exact ⟨bannerText ++ u, 46, rfl, by simp⟩
  | current => exact ⟨currentText.dropLast, 32, rfl, by simp⟩
  | new => exact ⟨newText.dropLast, 32, rfl, by simp⟩
  | retype => exact ⟨retypeText.dropLast, 32, rfl, by simp⟩
  | eol cr =>
      cases cr with
      | false => exact ⟨[], 10, rfl, by simp⟩
      | true => exact ⟨[13], 10, rfl, by simp⟩

/-- A word does not reach from one line into the next. -/
theorem strstr_text_append (u : Bytes) (l : Line) {w : Bytes} (hw : IsWord w) (rest : Bytes) :
  strstr (l.text u ++ rest) w = (strstr (l.text u) w || strstr rest w)
  := by
  obtain ⟨hne, h10, h32, h46⟩ := hw
  obtain ⟨body, x, htext, hx⟩ := l.text_eq u
  have hmem : x ∉ w := by
    obtain rfl | rfl | rfl := hx
    · exact h10
    · exact h32
    · exact h46
  rw [htext, List.append_assoc, List.singleton_append, strstr_append_cons hmem,
    strstr_append_cons hmem, strstr_nil hne, Bool.or_false]

theorem strstr_flatMap (u : Bytes) {w : Bytes} (hw : IsWord w) (ls : List Line) :
  strstr (ls.flatMap (Line.text u)) w = ls.any fun l => strstr (l.text u) w
  := by
  induction ls with
  | nil => exact strstr_nil hw.1
  | cons l ls ih => rw [List.flatMap_cons, strstr_text_append u l hw, ih, List.any_cons]

theorem cstr_of_not_mem {m : Bytes} (h : 0 ∉ m) :
  cstr m = m
  := by
  apply cstr_of_ne_zero
  rintro c hc rfl
  exact h hc

theorem zero_notMem_text (u : UserName) (l : Line) :
  0 ∉ l.text u.val
  := by
  cases l with
  | banner =>
      have hbanner : 0 ∉ bannerText := by decide
      simp only [Line.text, List.mem_append, not_or]
      exact ⟨⟨hbanner, u.property⟩, by decide⟩
  | current => exact (by decide : (0 : UInt8) ∉ currentText)
  | new => exact (by decide : (0 : UInt8) ∉ newText)
  | retype => exact (by decide : (0 : UInt8) ∉ retypeText)
  | eol cr => exact (by decide : ∀ cr, (0 : UInt8) ∉ eolText cr) cr

/-- A buffer of lines mentions what one of its lines mentions. -/
theorem mentions_flatMap (u : UserName) {texts : List Bytes} (h : WordsIn texts) (ls : List Line) :
  mentions texts (ls.flatMap (Line.text u.val)) = ls.any fun l => mentions texts (l.text u.val)
  := by
  have hzero : 0 ∉ ls.flatMap (Line.text u.val) := by
    simp only [List.mem_flatMap, not_exists, not_and]
    exact fun l _ => zero_notMem_text u l
  unfold mentions
  rw [cstr_of_not_mem hzero, Bool.eq_iff_iff]
  simp only [List.any_eq_true]
  constructor
  · rintro ⟨w, hw, hfound⟩
    rw [strstr_flatMap u.val (h w hw), List.any_eq_true] at hfound
    obtain ⟨l, hl, hfound⟩ := hfound
    refine ⟨l, hl, w, hw, ?_⟩
    rw [cstr_of_not_mem (zero_notMem_text u l)]
    exact hfound
  · rintro ⟨l, hl, w, hw, hfound⟩
    rw [cstr_of_not_mem (zero_notMem_text u l)] at hfound
    refine ⟨w, hw, ?_⟩
    rw [strstr_flatMap u.val (h w hw), List.any_eq_true]
    exact ⟨l, hl, hfound⟩

/-- The line that names the user mentions what the name mentions. -/
theorem mentions_banner (u : UserName) {texts : List Bytes} (h : WordsIn texts)
    (hbanner : ∀ w ∈ texts, strstr bannerText.dropLast w = false) :
  mentions texts (Line.banner.text u.val) = mentions texts u.val
  := by
  have htext : Line.banner.text u.val = bannerText.dropLast ++ 32 :: (u.val ++ 46 :: []) := rfl
  unfold mentions
  rw [cstr_of_not_mem (zero_notMem_text u .banner), cstr_of_not_mem u.property, htext]
  rw [Bool.eq_iff_iff, List.any_eq_true, List.any_eq_true]
  refine exists_congr fun w => and_congr_right fun hw => ?_
  obtain ⟨hne, -, h32, h46⟩ := h w hw
  rw [strstr_append_cons h32, strstr_append_cons h46, hbanner w hw, strstr_nil hne, Bool.or_false,
    Bool.false_or]

/-! ### What a line asks for -/

namespace Line

/-- A line asks for the current password; `named` tells whether the name of the user mentions
one of the words. -/
def asksCurrent (named : Bool) : Line → Bool
  | .banner => named
  | .current => true
  | _ => false

/-- A line asks to repeat the new password. -/
def asksRetype (named : Bool) : Line → Bool
  | .banner => named
  | .retype => true
  | _ => false

/-- A line has a word that asks for the new password. -/
def asksNew (named : Bool) : Line → Bool
  | .banner => named
  | .new => true
  | .retype => true
  | _ => false

/-- A line that is not a line end. -/
def isPrompt : Line → Bool
  | .eol _ => false
  | _ => true

end Line

theorem mentions_current (u : UserName) (l : Line) :
  mentions currentWords (l.text u.val) = l.asksCurrent (mentions currentWords u.val)
  := by
  cases l with
  | banner => exact mentions_banner u currentWords_wordsIn (by decide)
  | current => exact (by decide : mentions currentWords currentText = true)
  | new => exact (by decide : mentions currentWords newText = false)
  | retype => exact (by decide : mentions currentWords retypeText = false)
  | eol cr => exact (by decide : ∀ cr, mentions currentWords (eolText cr) = false) cr

theorem mentions_retype (u : UserName) (l : Line) :
  mentions retypeWords (l.text u.val) = l.asksRetype (mentions retypeWords u.val)
  := by
  cases l with
  | banner => exact mentions_banner u retypeWords_wordsIn (by decide)
  | current => exact (by decide : mentions retypeWords currentText = false)
  | new => exact (by decide : mentions retypeWords newText = false)
  | retype => exact (by decide : mentions retypeWords retypeText = true)
  | eol cr => exact (by decide : ∀ cr, mentions retypeWords (eolText cr) = false) cr

theorem mentions_new (u : UserName) (l : Line) :
  mentions newWords (l.text u.val) = l.asksNew (mentions newWords u.val)
  := by
  cases l with
  | banner => exact mentions_banner u newWords_wordsIn (by decide)
  | current => exact (by decide : mentions newWords currentText = false)
  | new => exact (by decide : mentions newWords newText = true)
  | retype => exact (by decide : mentions newWords retypeText = true)
  | eol cr => exact (by decide : ∀ cr, mentions newWords (eolText cr) = false) cr

/-! ### The answers given so far -/

/-- What a talk has sent. -/
def Talk.sent (t : Talk) : Bool × Bool × Bool × List Bytes :=
  (t.oldpassSent, t.newpassSent, t.confirmSent, t.written)

theorem turn_sent (oldpass newpass buf : Bytes) (t : Talk) :
  (turn oldpass newpass t buf).sent = (sendAnswer oldpass newpass buf t).sent
  := by
  have hmessage : ∀ texts msg (t : Talk), (takeMessage texts msg buf t).sent = t.sent := by
    intro texts msg t
    unfold takeMessage
    split <;> rfl
  rw [turn, hmessage, hmessage, hmessage]

/-- The first `k` answers have been given, and no other. -/
def AtStage (oldpass newpass : Bytes) (t : Talk) (k : ℕ) : Prop :=
  t.sent = (decide (1 ≤ k), decide (2 ≤ k), decide (3 ≤ k), (answers oldpass newpass).take k)

/-- The number of answers given after a buffer that asks for some, unless that is not the one
whose turn it is. -/
def respond (isCurrent isNew isRetype : Bool) : ℕ → Option ℕ
  | 0 => if isCurrent then some 1 else if isNew || isRetype then none else some 0
  | 1 => if isNew then some 2 else if isRetype then none else some 1
  | 2 => if isRetype then some 3 else some 2
  | k => some k

theorem turn_atStage
    {oldpass newpass buf : Bytes} (hold : oldpass ≠ []) {t : Talk} {k k' : ℕ}
    (ht : AtStage oldpass newpass t k)
    (hk : respond (mentions currentWords buf) (mentions newWords buf && !mentions retypeWords buf)
      (mentions retypeWords buf) k = some k') :
  AtStage oldpass newpass (turn oldpass newpass t buf) k'
  := by
  unfold AtStage at ht ⊢
  rw [turn_sent]
  unfold sendAnswer
  dsimp only
  simp only [Talk.sent, Prod.mk.injEq] at ht
  obtain ⟨hcurrent, hnew, hconfirm, hwritten⟩ := ht
  generalize mentions currentWords buf = isCurrent at hk ⊢
  generalize mentions retypeWords buf = isRetype at hk ⊢
  generalize mentions newWords buf = isNew at hk ⊢
  rw [if_pos hold]
  match k with
  | 0 | 1 | 2 =>
      cases isCurrent <;> cases isNew <;> cases isRetype <;> simp [respond] at hk <;> subst hk
        <;> simp [Talk.sent, Talk.write, answers, hcurrent, hnew, hconfirm, hwritten]
  | k + 3 =>
      simp only [respond, Option.some.injEq] at hk
      subst hk
      simp [Talk.sent, hcurrent, hnew, hconfirm, hwritten]

/-! ### Dialogues that go right -/

/-- The prompts that were printed and not read yet. -/
def Dialogue.prompts (d : Dialogue) : List Line := d.unread.filter Line.isPrompt

/-- What may be left to print and to read when `k` answers have been given. -/
def positions : ℕ → List (List Line × List Line)
  | 0 =>
      [([.banner, .current, .new, .retype], []), ([.current, .new, .retype], [.banner]),
        ([.current, .new, .retype], []), ([.new, .retype], [.banner, .current]),
        ([.new, .retype], [.current])]
  | 1 =>
      [([.current, .new, .retype], []), ([.new, .retype], [.current]), ([.new, .retype], []),
        ([.retype], [.current, .new]), ([.retype], [.new])]
  | 2 => [([.retype], []), ([], [.retype])]
  | 3 => [([], [])]
  | _ => []

/-- The name of the user mentions a word for the current password, or none of the others. -/
def Harmless (namesCurrent namesNew namesRetype : Bool) : Prop :=
  namesCurrent = true ∨ (namesNew = false ∧ namesRetype = false)

theorem lt_of_mem_positions {k : ℕ} {p : List Line × List Line} (h : p ∈ positions k) :
  k < 4
  := by
  match k with
  | 0 | 1 | 2 | 3 => decide
  | k + 4 => simp [positions] at h

/-- The positions are closed under printing. -/
theorem positions_print {k : ℕ} {l : Line} {rest prompts : List Line}
    (hp : (l :: rest, prompts) ∈ positions k) (hneeds : l.needs ≤ k) :
  l.isPrompt = true ∧ (rest, prompts ++ [l]) ∈ positions k
  := by
  have hcheck : ∀ k < 4, ∀ p ∈ positions k, ∀ l ∈ p.1.head?, l.needs ≤ k →
      l.isPrompt = true ∧ (p.1.tail, p.2 ++ [l]) ∈ positions k := by decide
  exact hcheck k (lt_of_mem_positions hp) _ hp l rfl hneeds

/-- The positions are closed under reading some of the prompts: the answer whose turn it is, or
none, is given. -/
theorem positions_read {namesCurrent namesNew namesRetype : Bool}
    (h : Harmless namesCurrent namesNew namesRetype) {k : ℕ} {script now later : List Line}
    (hp : (script, now ++ later) ∈ positions k) :
  ∃ k', respond (now.any (Line.asksCurrent namesCurrent))
      (now.any (Line.asksNew namesNew) && !now.any (Line.asksRetype namesRetype))
      (now.any (Line.asksRetype namesRetype)) k = some k'
    ∧ (script, later) ∈ positions k'
  := by
  have hcheck : ∀ c n r : Bool, c = true ∨ (n = false ∧ r = false) → ∀ k < 4, ∀ p ∈ positions k,
      ∀ j < p.2.length + 1, ∃ k' < 4, respond ((p.2.take j).any (Line.asksCurrent c))
          ((p.2.take j).any (Line.asksNew n) && !(p.2.take j).any (Line.asksRetype r))
          ((p.2.take j).any (Line.asksRetype r)) k = some k'
        ∧ (p.1, p.2.drop j) ∈ positions k' := by decide
  obtain ⟨k', -, hk'⟩ := hcheck _ _ _ h k (lt_of_mem_positions hp) _ hp now.length
    (by simp only [List.length_append]; omega)
  simp only [List.take_left, List.drop_left] at hk'
  exact ⟨k', hk'⟩

/-- The program has given the answers whose turn it was. -/
structure OnTrack (oldpass newpass : Bytes) (d : Dialogue) (k : ℕ) : Prop where
  stage : AtStage oldpass newpass (d.talk oldpass newpass) k
  position : (d.script, d.prompts) ∈ positions k

theorem any_filter_isPrompt {q : Line → Bool} (h : ∀ cr, q (.eol cr) = false)
    (ls : List Line) :
  ls.any q = (ls.filter Line.isPrompt).any q
  := by
  induction ls with
  | nil => rfl
  | cons l ls ih =>
      cases l with
      | eol cr => simpa [h, Line.isPrompt] using ih
      | _ => simp [Line.isPrompt, ih]

/-- What a buffer of lines asks for. -/
theorem respond_lines (u : UserName) (now : List Line) (k : ℕ) :
  respond (mentions currentWords (now.flatMap (Line.text u.val)))
      (mentions newWords (now.flatMap (Line.text u.val))
        && !mentions retypeWords (now.flatMap (Line.text u.val)))
      (mentions retypeWords (now.flatMap (Line.text u.val))) k
    = respond ((now.filter Line.isPrompt).any (Line.asksCurrent (mentions currentWords u.val)))
      ((now.filter Line.isPrompt).any (Line.asksNew (mentions newWords u.val))
        && !(now.filter Line.isPrompt).any (Line.asksRetype (mentions retypeWords u.val)))
      ((now.filter Line.isPrompt).any (Line.asksRetype (mentions retypeWords u.val))) k
  := by
  rw [mentions_flatMap u currentWords_wordsIn, mentions_flatMap u newWords_wordsIn,
    mentions_flatMap u retypeWords_wordsIn]
  simp only [mentions_current, mentions_new, mentions_retype]
  rw [any_filter_isPrompt (q := Line.asksCurrent _) fun _ => rfl,
    any_filter_isPrompt (q := Line.asksNew _) fun _ => rfl,
    any_filter_isPrompt (q := Line.asksRetype _) fun _ => rfl]

theorem step_onTrack
    {u : UserName} {oldpass newpass : Bytes} (hold : oldpass ≠ [])
    (h : Harmless (mentions currentWords u.val) (mentions newWords u.val)
      (mentions retypeWords u.val))
    {d d' : Dialogue} {k : ℕ} (hd : OnTrack oldpass newpass d k)
    (hstep : Step u.val oldpass newpass d d') :
  ∃ k', OnTrack oldpass newpass d' k'
  := by
  obtain ⟨hstage, hposition⟩ := hd
  cases hstep with
  | print hscript hneeds =>
      rename_i l rest
      have hwritten : (d.talk oldpass newpass).written.length = min k 3 := by
        simp only [AtStage, Talk.sent, Prod.mk.injEq] at hstage
        rw [hstage.2.2.2, List.length_take]
        rfl
      rw [hscript] at hposition
      obtain ⟨hprompt, hnext⟩ := positions_print hposition (by omega)
      refine ⟨k, hstage, ?_⟩
      simpa [Dialogue.prompts, List.filter_append, hprompt] using hnext
  | eol cr =>
      refine ⟨k, hstage, ?_⟩
      simpa [Dialogue.prompts, List.filter_append, Line.isPrompt] using hposition
  | read hunread hne hfits =>
      rename_i now later
      rw [Dialogue.prompts, hunread, List.filter_append] at hposition
      obtain ⟨k', hrespond, hnext⟩ := positions_read h hposition
      rw [← respond_lines] at hrespond
      refine ⟨k', ?_, hnext⟩
      unfold Dialogue.talk
      rw [List.foldl_append]
      exact turn_atStage hold hstage hrespond

theorem changeOwnPassword_written (oldpass newpass : Bytes) (d : Dialogue) (exited : Bool) :
  (changeOwnPassword oldpass newpass true d.reads exited).1.written
    = (d.talk oldpass newpass).written
  := by
  simp only [changeOwnPassword, if_true, Dialogue.talk]
  split_ifs
  all_goals rfl

theorem AtStage.written {oldpass newpass : Bytes} {t : Talk} {k : ℕ} (h : AtStage oldpass newpass t k) :
  t.written = (answers oldpass newpass).take k
  := by
  simp only [AtStage, Talk.sent, Prod.mk.injEq] at h
  exact h.2.2.2

/-- What the positions say of the answers. -/
theorem positions_answers {k : ℕ} {script : List Line} (h : (script, []) ∈ positions k) :
  (script = [] → k = 3) ∧ ∀ l ∈ script.head?, l.needs ≤ k
  := by
  have hcheck : ∀ k < 4, ∀ p ∈ positions k, p.2 = [] →
      (p.1 = [] → k = 3) ∧ ∀ l ∈ p.1.head?, l.needs ≤ k := by decide
  exact hcheck k (lt_of_mem_positions h) _ h rfl

/-- With a harmless name, every dialogue goes right. -/
theorem rightAnswers_of_harmless
    {u : UserName} (h : Harmless (mentions currentWords u.val) (mentions newWords u.val)
      (mentions retypeWords u.val))
    {oldpass newpass : Bytes} (hold : oldpass ≠ []) :
  RightAnswers u.val oldpass newpass
  := by
  intro d hd exited
  have htrack : ∃ k, OnTrack oldpass newpass d k := by
    induction hd with
    | refl => exact ⟨0, rfl, by decide⟩
    | tail _ hstep ih =>
        obtain ⟨k, hk⟩ := ih
        exact step_onTrack hold h hk hstep
  obtain ⟨k, hstage, hposition⟩ := htrack
  have hk := lt_of_mem_positions hposition
  dsimp only
  rw [changeOwnPassword_written, hstage.written]
  refine ⟨List.take_prefix k _, ?_, ?_⟩
  · intro hscript hunread
    rw [Dialogue.prompts, hunread] at hposition
    rw [(positions_answers hposition).1 hscript]
    rfl
  · intro hunread l hl
    rw [Dialogue.prompts, hunread] at hposition
    have hneeds := (positions_answers hposition).2 l hl
    rw [List.length_take]
    have hthree : (answers oldpass newpass).length = 3 := rfl
    omega

/-! ### Names that do not fit a read -/

/-- What may be left to print and to read while the name of the user cannot be read. -/
def blockedPositions : List (List Line × List Line) :=
  [([.banner, .current, .new, .retype], []), ([.current, .new, .retype], [.banner]),
    ([.new, .retype], [.banner, .current])]

/-- Nothing but line ends was read. -/
structure Blocked (oldpass newpass : Bytes) (d : Dialogue) : Prop where
  stage : AtStage oldpass newpass (d.talk oldpass newpass) 0
  position : (d.script, d.prompts) ∈ blockedPositions

theorem length_le_flatMap {u : Bytes} {l : Line} {ls : List Line} (h : l ∈ ls) :
  (l.text u).length ≤ (ls.flatMap (Line.text u)).length
  := by
  obtain ⟨pre, post, rfl⟩ := List.append_of_mem h
  simp only [List.flatMap_append, List.flatMap_cons, List.length_append]
  omega

theorem step_blocked
    {u : UserName} (hlong : 1000 < u.val.length) {oldpass newpass : Bytes} (hold : oldpass ≠ [])
    {d d' : Dialogue} (hd : Blocked oldpass newpass d) (hstep : Step u.val oldpass newpass d d') :
  Blocked oldpass newpass d'
  := by
  obtain ⟨hstage, hposition⟩ := hd
  cases hstep with
  | print hscript hneeds =>
      rename_i l rest
      have hcheck : ∀ p ∈ blockedPositions, ∀ l ∈ p.1.head?, l.needs ≤ 0 →
          l.isPrompt = true ∧ (p.1.tail, p.2 ++ [l]) ∈ blockedPositions := by decide
      rw [hstage.written] at hneeds
      rw [hscript] at hposition
      obtain ⟨hprompt, hnext⟩ := hcheck _ hposition l rfl hneeds
      refine ⟨hstage, ?_⟩
      simpa [Dialogue.prompts, List.filter_append, hprompt] using hnext
  | eol cr =>
      refine ⟨hstage, ?_⟩
      simpa [Dialogue.prompts, List.filter_append, Line.isPrompt] using hposition
  | read hunread hne hfits =>
      rename_i now later
      rw [Dialogue.prompts, hunread, List.filter_append] at hposition
      have hbanner : .banner ∉ now := by
        intro hmem
        have hlength := length_le_flatMap (u := u.val) hmem
        simp only [Line.text, List.length_append, List.length_cons, List.length_nil] at hlength
        have htext : bannerText.length = 22 := rfl
        omega
      have hnow : now.filter Line.isPrompt = [] := by
        have hcheck : ∀ p ∈ blockedPositions, ∀ l ∈ p.2.head?, l = .banner := by decide
        rcases hprompts : now.filter Line.isPrompt with _ | ⟨l, ls⟩
        · rfl
        · rw [hprompts] at hposition
          have hl := hcheck _ hposition l rfl
          have hmem : l ∈ now := List.mem_of_mem_filter (hprompts ▸ List.mem_cons_self)
          rw [hl] at hmem
          exact absurd hmem hbanner
      rw [hnow] at hposition
      refine ⟨?_, hposition⟩
      unfold Dialogue.talk
      rw [List.foldl_append]
      apply turn_atStage hold hstage
      rw [respond_lines, hnow]
      rfl

theorem rightAnswers_of_long
    {u : UserName} (hlong : 1000 < u.val.length) {oldpass newpass : Bytes} (hold : oldpass ≠ []) :
  RightAnswers u.val oldpass newpass
  := by
  intro d hd exited
  have hblocked : Blocked oldpass newpass d := by
    induction hd with
    | refl => exact ⟨rfl, by decide⟩
    | tail _ hstep ih => exact step_blocked hlong hold ih hstep
  obtain ⟨hstage, hposition⟩ := hblocked
  have hcheck : ∀ p ∈ blockedPositions, p.1 ≠ [] ∧ (p.2 = [] → ∀ l ∈ p.1.head?, l.needs = 0) := by
    decide
  dsimp only
  rw [changeOwnPassword_written, hstage.written]
  refine ⟨List.take_prefix 0 _, ?_, ?_⟩
  · intro hscript
    exact absurd hscript (hcheck _ hposition).1
  · intro hunread l hl
    rw [Dialogue.prompts, hunread] at hposition
    rw [(hcheck _ hposition).2 rfl l hl]
    exact Nat.zero_le _

/-! ### Names that are taken for a prompt -/

/-- The line that names the user is read alone. -/
theorem reached_banner {u oldpass newpass : Bytes} (h : u.length ≤ 1000) :
  Reached u oldpass newpass
    { script := [.current, .new, .retype], reads := [Line.banner.text u] }
  := by
  have hprint : Step u oldpass newpass {} { script := [.current, .new, .retype], unread := [.banner] } :=
    .print rfl (Nat.zero_le _)
  have hread : Step u oldpass newpass { script := [.current, .new, .retype], unread := [.banner] }
      { script := [.current, .new, .retype], reads := [Line.banner.text u] } := by
    have htext : [Line.banner].flatMap (Line.text u) = Line.banner.text u := by simp
    have hfits : ([Line.banner].flatMap (Line.text u)).length ≤ 1023 := by
      rw [htext]
      simp only [Line.text, List.length_append, List.length_cons, List.length_nil]
      have htext : bannerText.length = 22 := rfl
      omega
    have hunread : ({ script := [.current, .new, .retype], unread := [.banner] } : Dialogue).unread
        = [.banner] ++ [] := rfl
    rw [← htext]
    exact Step.read hunread (by simp) hfits
  exact (Relation.ReflTransGen.single hprint).tail hread

theorem not_rightAnswers_of_named
    {u : UserName} (hlength : u.val.length ≤ 1000)
    (hcurrent : mentions currentWords u.val = false)
    (hnamed : mentions newWords u.val = true ∨ mentions retypeWords u.val = true) :
  ¬ RightAnswers u.val [97] [98]
  := by
  intro h
  obtain ⟨hbefore, -, -⟩ := h _ (reached_banner hlength) true
  have hwritten : (turn [97] [98] {} (Line.banner.text u.val)).written = [[98, 10]] := by
    have hsent := turn_sent [97] [98] (Line.banner.text u.val) {}
    simp only [Talk.sent, Prod.mk.injEq] at hsent
    rw [hsent.2.2.2]
    unfold sendAnswer
    rw [mentions_current, mentions_retype, mentions_new]
    simp only [Line.asksCurrent, Line.asksNew, Line.asksRetype, hcurrent]
    cases hretype : mentions retypeWords u.val with
    | true => simp [Talk.write]
    | false =>
        rw [hretype] at hnamed
        simp [hnamed.resolve_right (by simp), Talk.write]
  rw [changeOwnPassword_written] at hbefore
  simp only [Dialogue.talk, List.foldl_cons, List.foldl_nil, hwritten] at hbefore
  revert hbefore
  decide

/-- Every dialogue goes right exactly if the name of the user mentions a word for the current
password, or no word for the other two prompts, or does not fit into a read. -/
theorem rightAnswers_iff (u : UserName) :
  (∀ oldpass newpass, oldpass ≠ [] → newpass ≠ [] → RightAnswers u.val oldpass newpass)
    ↔ mentions currentWords u.val = true
      ∨ (mentions newWords u.val = false ∧ mentions retypeWords u.val = false)
      ∨ 1000 < u.val.length
  := by
  constructor
  · intro h
    by_contra hnot
    simp only [not_or, Bool.not_eq_true, not_and, Nat.not_lt] at hnot
    obtain ⟨hcurrent, hwords, hlength⟩ := hnot
    apply not_rightAnswers_of_named hlength hcurrent _ (h [97] [98] (by simp) (by simp))
    cases hnew : mentions newWords u.val with
    | true => exact Or.inl rfl
    | false => exact Or.inr (by simpa using hwords hnew)
  · rintro (hcurrent | hwords | hlong) oldpass newpass hold -
    · exact rightAnswers_of_harmless (Or.inl hcurrent) hold
    · exact rightAnswers_of_harmless (Or.inr hwords) hold
    · exact rightAnswers_of_long hlong hold

/-- A user called `newton` is taken for the prompt for the new password. -/
theorem not_rightAnswers_newton :
  ¬ ∀ (u : UserName) oldpass newpass, oldpass ≠ [] → newpass ≠ [] →
    RightAnswers u.val oldpass newpass
  := by
  intro h
  have hnewton : ¬ RightAnswers (chars ['n', 'e', 'w', 't', 'o', 'n']) [97] [98] :=
    not_rightAnswers_of_named (u := ⟨chars ['n', 'e', 'w', 't', 'o', 'n'], by decide⟩) (by decide)
      (by decide) (Or.inl (by decide))
  exact hnewton (h ⟨chars ['n', 'e', 'w', 't', 'o', 'n'], by decide⟩ [97] [98] (by simp) (by simp))

end LnxCad.Session
