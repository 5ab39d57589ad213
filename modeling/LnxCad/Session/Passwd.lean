import LnxCad.Text

/-!
# The user database

The rows of `/etc/passwd` as the two programs read them.  Both read only what fits in a
buffer of 8192 bytes and cut it into lines and fields by hand; they differ in the number
of fields they require of a line and in how they read its number.
-/

namespace LnxCad.Session

/-- The number of bytes of `/etc/passwd` that are read. -/
def passwdWindow : ℕ := 8191

/-- The lines of a text, where the text behind the last line break is a line unless it is
empty. -/
def lines (text : Bytes) : List Bytes :=
  let ls := text.splitOn 10
  if ls.getLast? = some [] then ls.dropLast else ls

/-- The lines of `/etc/passwd` a program goes through: those of the string its buffer
holds. -/
def passwdLines (file : Bytes) : List Bytes :=
  lines (cstr (file.take passwdWindow))

/-! ### The rows of the graphical program -/

/-- What the graphical program takes from a line. -/
structure PasswdRow where
  user : Bytes
  uid : ℤ
  gid : ℤ
  home : Bytes
deriving DecidableEq

/-- The row of a line with at least six colons. -/
def passwdRow (line : Bytes) : Option PasswdRow :=
  match line.splitOn 58 with
  | user :: _ :: uidStr :: gidStr :: _ :: homeStr :: _ :: _ =>
      some ⟨user, strToInt uidStr, strToInt gidStr, homeStr⟩
  | _ => none

/-- The rows the graphical program goes through. -/
def passwdRows (file : Bytes) : List PasswdRow :=
  (passwdLines file).filterMap passwdRow

/-! ### The users of the watchdog -/

/-- `isspace`. -/
def isSpace (c : UInt8) : Bool := c = 32 ∨ (9 ≤ c.toNat ∧ c.toNat ≤ 13)

/-- The number denoted by the digits a text starts with, read behind those of a number. -/
def leadingNumber : ℕ → Bytes → ℕ
  | n, [] => n
  | n, c :: s =>
      match digit c with
      | none => n
      | some d => leadingNumber (n * 10 + d) s

/-- A `long` as near to an integer as possible. -/
def clampLong (v : ℤ) : ℤ := max (-2 ^ 63) (min v (2 ^ 63 - 1))

/-- `strtol` in base ten. -/
def strtol (s : Bytes) : ℤ :=
  match s.dropWhile isSpace with
  | 45 :: s => clampLong (-(leadingNumber 0 s))
  | 43 :: s => clampLong (leadingNumber 0 s)
  | s => clampLong (leadingNumber 0 s)

/-- The number of a line with at least three colons, as an `int`. -/
def passwdUid (line : Bytes) : Option ℤ :=
  match line.splitOn 58 with
  | _ :: _ :: uidStr :: _ :: _ => some (Int.bmod (strtol uidStr) (2 ^ 32))
  | _ => none

/-- Whether an identifier is that of a user's account. -/
def IsUserUid (uid : ℤ) : Prop := 1000 ≤ uid ∧ uid < 60000

instance : DecidablePred IsUserUid := fun uid =>
  inferInstanceAs (Decidable (1000 ≤ uid ∧ uid < 60000))

/-- The first user's account among the lines the watchdog goes through. -/
def firstUserUid (file : Bytes) : Option ℤ :=
  ((passwdLines file).filterMap passwdUid).find? (fun uid => IsUserUid uid)

/-! ### The entries of the database -/

/-- An entry of the database: a line of seven fields, of which the third is a number. -/
structure PasswdEntry where
  name : Bytes
  uid : ℕ
deriving DecidableEq

/-- The entry on a line. -/
def passwdEntry (line : Bytes) : Option PasswdEntry :=
  match line.splitOn 58 with
  | [name, _, uidStr, _, _, _, _] =>
      if uidStr ≠ [] ∧ uidStr.all (fun c => (digit c).isSome) then some ⟨name, leadingNumber 0 uidStr⟩
      else none
  | _ => none

/-- The name of the first entry with a given number, among all the lines of the file. -/
def firstEntryName (file : Bytes) (uid : ℕ) : Option Bytes :=
  (((lines file).filterMap passwdEntry).find? (fun e => e.uid = uid)).map PasswdEntry.name

end LnxCad.Session
