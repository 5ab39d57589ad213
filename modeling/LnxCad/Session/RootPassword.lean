import LnxCad.Lib.Pieces
import LnxCad.Session.PasswdDialogue
import LnxCad.Session.Privileges

/-!
# The dialogue with `su` and `sudo`

To check the password of root the program starts `su`, and then `sudo`, on a pseudo-terminal,
reads until what one `read` returned has a word of a prompt in it, writes the password, and
reads on until nothing comes.  How the program started ends tells whether the password is
right.
-/

namespace LnxCad.Session

/-! ### The program -/

/-- The words by which the prompt for the password is known. -/
def promptWords : List Bytes :=
  [chars ['a', 's', 's', 'w', 'o', 'r', 'd'], chars ['p', 'a', 's', 's', 'e'],
    chars ['c', 'o', 'n', 't', 'r', 'a', 's', 'e'], chars ['C', 'o', 'n', 't', 'r', 'a', 's', 'e'],
    chars ['K', 'e', 'n', 'n', 'w', 'o', 'r', 't'], chars ['k', 'e', 'n', 'n', 'w', 'o', 'r', 't'],
    chars ['s', 'e', 'n', 'h', 'a'], chars ['S', 'e', 'n', 'h', 'a'],
    chars ['P', 'a', 'r', 'o', 'l', 'a'], chars ['p', 'a', 'r', 'o', 'l', 'a']]

/-- One turn of a loop over the pseudo-terminal: nothing comes in time, or a `read` returns
some bytes, where none mean that the end was reached or the `read` failed. -/
inductive Turn where
  | timeout
  | read (buf : Bytes)

/-- How the child ended, as `waitpid` tells it. -/
inductive WaitStatus where
  | exited (status : ℕ)
  | other

/-- What a check of the password does. -/
inductive PtyAction where
  | sigchldDefault
  | sigchldRestored
  | forked (child : Fate)
  | read (buf : Bytes)
  | write (text : Bytes)
  | closed
  | waited

/-- The loop up to the prompt, and the turns it leaves. -/
def awaitPrompt (password : Bytes) : List Turn → List PtyAction × List Turn
  | .read buf :: turns =>
      if buf = [] then ([], turns)
      else if mentions promptWords buf then ([.read buf, .write (cstr password ++ [10])], turns)
      else
        let r := awaitPrompt password turns
        (.read buf :: r.1, r.2)
  | .timeout :: turns => ([], turns)
  | [] => ([], [])

/-- The loop behind the prompt. -/
def readRest : List Turn → List PtyAction
  | .read buf :: turns => if buf = [] then [] else .read buf :: readRest turns
  | _ => []

/-- What the end of the child says about the password: `1` that it is right, `0` that it is
wrong, and `-1` that it could not be checked. -/
def WaitStatus.verdict : WaitStatus → ℤ
  | .exited 0 => 1
  | .exited 127 => -1
  | _ => 0

/-- A check of the password by a child on a pseudo-terminal, given whether that could be
opened, the turns of the loops, and how the child ended. -/
def verifyRootPasswordPty (child : Fate) (password : Bytes) (forkpty : Bool) (turns : List Turn)
    (status : WaitStatus) : ℤ × List PtyAction :=
  if forkpty then
    let r := awaitPrompt password turns
    (status.verdict, [.sigchldDefault, .forked child] ++ r.1 ++ readRest r.2
      ++ [.closed, .waited, .sigchldRestored])
  else (-1, [.sigchldDefault, .sigchldRestored])

/-- `verify_root_password_pty_su`. -/
def verifyRootPasswordPtySu (k : Kernel) (u : UserSession) (c : Creds) :
    Bytes → Bool → List Turn → WaitStatus → ℤ × List PtyAction :=
  verifyRootPasswordPty (suChild k u c)

/-- `verify_root_password_pty_sudo`. -/
def verifyRootPasswordPtySudo (k : Kernel) (u : UserSession) (c : Creds) :
    Bytes → Bool → List Turn → WaitStatus → ℤ × List PtyAction :=
  verifyRootPasswordPty (sudoChild k u c)

/-! ### What is written -/

/-- The text an action writes to the pseudo-terminal. -/
def PtyAction.written : PtyAction → Option Bytes
  | .write text => some text
  | _ => none

/-- What a check writes to the pseudo-terminal. -/
def written (acts : List PtyAction) : List Bytes := acts.filterMap PtyAction.written

@[simp]
theorem written_append (acts acts' : List PtyAction) :
  written (acts ++ acts') = written acts ++ written acts'
  := List.filterMap_append

@[simp]
theorem written_read (buf : Bytes) (acts : List PtyAction) :
  written (.read buf :: acts) = written acts
  := rfl

@[simp]
theorem written_readRest (turns : List Turn) :
  written (readRest turns) = []
  := by
  induction turns with
  | nil => rfl
  | cons t turns ih =>
      cases t with
      | timeout => rfl
      | read buf =>
          unfold readRest
          split
          · rfl
          · rw [written_read, ih]

/-- Behind the prompt and around the loops nothing is written. -/
theorem written_verifyRootPasswordPty
    (child : Fate) (password : Bytes) (turns : List Turn) (status : WaitStatus) :
  written (verifyRootPasswordPty child password true turns status).2
    = written (awaitPrompt password turns).1
  := by
  have hbefore : written [.sigchldDefault, .forked child] = [] := rfl
  have hbehind : written [.closed, .waited, .sigchldRestored] = [] := rfl
  rw [verifyRootPasswordPty, if_pos rfl]
  dsimp only
  rw [written_append, written_append, written_append, hbefore, hbehind, written_readRest,
    List.nil_append, List.append_nil, List.append_nil]

/-- The password is written once if one of the reads returns a word of a prompt, and never
otherwise. -/
theorem written_awaitPrompt
    {pieces : List Bytes} (hne : ∀ p ∈ pieces, p ≠ []) (password : Bytes) :
  written (awaitPrompt password (pieces.map .read)).1
    = if pieces.any (mentions promptWords) then [cstr password ++ [10]] else []
  := by
  induction pieces with
  | nil => rfl
  | cons p pieces ih =>
      have hp : p ≠ [] := hne p (by simp)
      rw [List.map_cons, awaitPrompt, if_neg hp, List.any_cons]
      split
      case isTrue h =>
        rw [h, Bool.true_or, if_pos rfl]
        rfl
      case isFalse h =>
        dsimp only
        rw [Bool.not_eq_true] at h
        rw [h, Bool.false_or, written_read]
        apply ih
        intro q hq
        apply hne q (by simp [hq])

/-! ### Prompts that are cut -/

/-- The password is written exactly once if the child prints a word of a prompt, and never
otherwise. -/
def AnswersPrompt (password stream : Bytes) (acts : List PtyAction) : Prop :=
  written acts = if mentions promptWords stream then [cstr password ++ [10]] else []

/-- If the child prints a word of a prompt, it prints one that no boundary between two reads
cuts. -/
def PromptUncut (pieces : List Bytes) : Prop :=
  (∃ w ∈ promptWords, w <:+: pieces.flatten) → ∃ w ∈ promptWords, Uncut w pieces

theorem promptWords_ne_nil :
  ∀ w ∈ promptWords, w ≠ []
  := by decide

theorem mentions_iff {texts : List Bytes} {buf : Bytes} (h : 0 ∉ buf) :
  mentions texts buf = true ↔ ∃ w ∈ texts, w <:+: buf
  := by
  rw [mentions, cstr_of_not_mem h, List.any_eq_true]
  simp only [strstr_iff]

/-- A word of a prompt is in one of the pieces if and only if it is printed uncut. -/
theorem any_mentions_iff {pieces : List Bytes} (hzero : ∀ p ∈ pieces, 0 ∉ p) :
  pieces.any (mentions promptWords) = true ↔ ∃ w ∈ promptWords, Uncut w pieces
  := by
  rw [List.any_eq_true]
  constructor
  · rintro ⟨p, hp, hmentions⟩
    obtain ⟨w, hw, hinfix⟩ := (mentions_iff (hzero p hp)).mp hmentions
    exact ⟨w, hw, (exists_infix_iff_uncut (promptWords_ne_nil w hw) pieces).mp ⟨p, hp, hinfix⟩⟩
  · rintro ⟨w, hw, huncut⟩
    obtain ⟨p, hp, hinfix⟩ :=
      (exists_infix_iff_uncut (promptWords_ne_nil w hw) pieces).mpr huncut
    exact ⟨p, hp, (mentions_iff (hzero p hp)).mpr ⟨w, hw, hinfix⟩⟩

theorem zero_notMem_flatten {pieces : List Bytes} (hzero : ∀ p ∈ pieces, 0 ∉ p) :
  0 ∉ pieces.flatten
  := by
  intro hmem
  obtain ⟨p, hp, h⟩ := List.mem_flatten.mp hmem
  exact hzero p hp h

/-- A check by any child answers the prompt if and only if the prompt is not cut. -/
theorem answersPrompt_iff
    {pieces : List Bytes} (hne : ∀ p ∈ pieces, p ≠ []) (hzero : ∀ p ∈ pieces, 0 ∉ p)
    (child : Fate) (password : Bytes) (status : WaitStatus) :
  AnswersPrompt password pieces.flatten
      (verifyRootPasswordPty child password true (pieces.map .read) status).2
    ↔ PromptUncut pieces
  := by
  have hstream := @mentions_iff promptWords _ (zero_notMem_flatten hzero)
  have huncut := any_mentions_iff hzero
  rw [AnswersPrompt, written_verifyRootPasswordPty, written_awaitPrompt hne, PromptUncut, ← hstream,
    ← huncut]
  constructor
  · intro heq hmentions
    by_contra hnot
    rw [if_pos hmentions, if_neg hnot] at heq
    cases heq
  · intro h
    by_cases hmentions : mentions promptWords pieces.flatten = true
    · rw [if_pos hmentions, if_pos (h hmentions)]
    · rw [if_neg hmentions, if_neg]
      intro hany
      apply hmentions
      obtain ⟨w, hw, hcut⟩ := huncut.mp hany
      exact hstream.mpr ⟨w, hw, hcut.infix⟩

/-- Both checks answer the prompt if and only if it is not cut. -/
theorem verifyRootPasswordPty_answers_iff
    {pieces : List Bytes} (hne : ∀ p ∈ pieces, p ≠ []) (hzero : ∀ p ∈ pieces, 0 ∉ p)
    (k : Kernel) (u : UserSession) (c : Creds) (password : Bytes) (status : WaitStatus) :
  (AnswersPrompt password pieces.flatten
        (verifyRootPasswordPtySu k u c password true (pieces.map .read) status).2
      ↔ PromptUncut pieces)
    ∧ (AnswersPrompt password pieces.flatten
        (verifyRootPasswordPtySudo k u c password true (pieces.map .read) status).2
      ↔ PromptUncut pieces)
  := by
  constructor
  · apply answersPrompt_iff hne hzero
  · apply answersPrompt_iff hne hzero

/-- A kernel that lets root become any user. -/
def permissiveKernel : Kernel where
  initgroups := fun _ _ c => some c
  setgid := fun gid c => some { c with gid := gid, egid := gid }
  setuid := fun uid c => some { c with uid := uid, euid := uid }

/-- A line of greeting, and a prompt that comes in two pieces, of which the first has the
word. -/
def wholeWord : List Bytes :=
  [chars ['H', 'i', '\n'], chars ['P', 'a', 's', 's', 'w', 'o', 'r', 'd'], chars [':', ' ']]

/-- A prompt that is cut within the word. -/
def cutWord : List Bytes :=
  [chars ['P', 'a', 's', 's'], chars ['w', 'o', 'r', 'd', ':', ' ']]

/-- The whole word is answered, by both checks. -/
theorem verifyRootPasswordPty_answers_iff_whole :
  AnswersPrompt [120] wholeWord.flatten
      (verifyRootPasswordPtySu permissiveKernel UserSession.init rootCreds [120] true
        (wholeWord.map .read) (.exited 0)).2
    ∧ AnswersPrompt [120] wholeWord.flatten
      (verifyRootPasswordPtySudo permissiveKernel UserSession.init rootCreds [120] true
        (wholeWord.map .read) (.exited 0)).2
  := by
  have huncut : PromptUncut wholeWord := by
    intro _
    apply (any_mentions_iff _).mp
    · decide
    · decide
  have hboth := @verifyRootPasswordPty_answers_iff wholeWord (by decide) (by decide)
    permissiveKernel UserSession.init rootCreds [120] (.exited 0)
  exact ⟨hboth.1.mpr huncut, hboth.2.mpr huncut⟩

/-- The word that is cut is not answered, by either check. -/
theorem not_answersPrompt_cut :
  mentions promptWords cutWord.flatten = true
    ∧ ¬ AnswersPrompt [120] cutWord.flatten
      (verifyRootPasswordPtySu permissiveKernel UserSession.init rootCreds [120] true
        (cutWord.map .read) (.exited 1)).2
    ∧ ¬ AnswersPrompt [120] cutWord.flatten
      (verifyRootPasswordPtySudo permissiveKernel UserSession.init rootCreds [120] true
        (cutWord.map .read) (.exited 1)).2
  := by
  have hprompt : mentions promptWords cutWord.flatten = true := by decide
  have hsilent : ∀ child, written (verifyRootPasswordPty child [120] true (cutWord.map .read)
      (.exited 1)).2 = [] := by
    intro child
    rw [written_verifyRootPasswordPty, written_awaitPrompt (by decide)]
    decide
  refine ⟨hprompt, ?_, ?_⟩
  · intro hanswers
    rw [AnswersPrompt, if_pos hprompt, verifyRootPasswordPtySu, hsilent] at hanswers
    cases hanswers
  · intro hanswers
    rw [AnswersPrompt, if_pos hprompt, verifyRootPasswordPtySudo, hsilent] at hanswers
    cases hanswers

end LnxCad.Session
