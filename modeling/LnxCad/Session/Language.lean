import LnxCad.Session.Agreement
import LnxCad.Session.Lines

/-!
# The language

The watchdog finds out the language of the system when it starts, from its own environment or from
`/etc/locale.conf`, and hands it over; the graphical program looks it up among its translations.  What
is shown is the translation that was asked for, or English.
-/

namespace LnxCad.Session

/-! ### The watchdog -/

def english : Bytes := chars ['e', 'n']

/-- The variable of the system. -/
def langVar : Bytes := chars ['L', 'A', 'N', 'G', '=']

/-- The variable that is handed over. -/
def cadLang : Bytes := chars ['C', 'A', 'D', '_', 'L', 'A', 'N', 'G', '=']

/-- The first two letters. -/
def twoLetters (v : Bytes) : Bytes := (v.take 2).map toLower

/-- The value without a quote in front of it. -/
def unquoted : Bytes → Bytes
  | c :: v => if c = 34 ∨ c = 39 then v else c :: v
  | [] => []

/-- The language that a line sets. -/
def localeValue (line : Bytes) : Option Bytes :=
  let line := line.dropWhile fun c => c = 32 ∨ c = 9
  if langVar <+: line then
    let val := unquoted (line.drop 5)
    if 2 ≤ val.length then some (twoLetters val) else none
  else none

/-- The number of bytes of `/etc/locale.conf` that are read. -/
def localeWindow : ℕ := 255

/-- `detect_system_language`, given `LANG` and the file if it can be read. -/
def detectSystemLanguage (lang localeConf : Option Bytes) : Bytes :=
  match lang.filter (2 ≤ ·.length) with
  | some v => twoLetters v
  | none =>
      match localeConf with
      | some file => (firstLine localeValue (cstr (file.take localeWindow))).getD english
      | none => english

/-- The environment of the graphical program, with the language. -/
def rescueEnviron (s : Snapshot) (localeConf : Option Bytes) (environ : List Bytes) : List Bytes :=
  let detectedLang := detectSystemLanguage (valueOf langVar environ) localeConf
  handOver s (putenv cadLang (printed (cadLang ++ detectedLang) 32) environ)

/-! ### The graphical program -/

/-- The codes of `available_translations`. -/
def translations : List Bytes :=
  [english, chars ['f', 'r'], chars ['d', 'e'], chars ['e', 's'], chars ['i', 't'],
    chars ['p', 't'], chars ['n', 'l'], chars ['s', 'v'], chars ['p', 'l'], chars ['r', 'o'],
    chars ['t', 'r']]

/-- The code of the translation that `main` chooses. -/
def guiLanguage (environ : List Bytes) : Bytes :=
  match (valueOf cadLang environ).or (valueOf langVar environ) with
  | some lang =>
      if 2 ≤ lang.length then (translations.find? (· == twoLetters lang)).getD english else english
  | none => english

/-! ### What was asked for -/

/-- The system asks for a language: `LANG` does, or if it is not of two letters at least, the first
line of the file that sets a language. -/
def Requested (lang localeConf : Option Bytes) (code : Bytes) : Prop :=
  (∃ v, lang = some v ∧ 2 ≤ v.length ∧ twoLetters v = code)
    ∨ (∀ v, lang = some v → v.length < 2) ∧ ∃ file before line after, localeConf = some file
      ∧ lines (cstr (file.take localeWindow)) = before ++ line :: after
      ∧ (∀ l ∈ before, localeValue l = none) ∧ localeValue line = some code

theorem detectSystemLanguage_iff {lang localeConf : Option Bytes} {code : Bytes}
    (hcode : code ≠ english) :
  detectSystemLanguage lang localeConf = code ↔ Requested lang localeConf code
  := by
  unfold detectSystemLanguage Requested
  split
  case h_1 v hv =>
    obtain ⟨rfl, hlong⟩ := Option.filter_eq_some_iff.mp hv
    have hlong : 2 ≤ v.length := by simpa using hlong
    constructor
    · exact fun h => Or.inl ⟨v, rfl, hlong, h⟩
    · rintro (⟨v', hv', -, h⟩ | ⟨hshort, -⟩)
      · cases hv'
        exact h
      · exact absurd (hshort v rfl) (by omega)
  case h_2 hshort =>
    have hshort : ∀ v, lang = some v → v.length < 2 := by
      rintro v rfl
      simpa using hshort
    have hnot : ¬ ∃ v, lang = some v ∧ 2 ≤ v.length ∧ twoLetters v = code := by
      rintro ⟨v, hv, hlong, -⟩
      exact absurd (hshort v hv) (by omega)
    rw [or_iff_right hnot, and_iff_right hshort]
    cases localeConf with
    | none =>
        constructor
        · exact fun h => absurd h.symm hcode
        · rintro ⟨file, before, line, after, hfile, -⟩
          cases hfile
    | some file =>
        dsimp only
        rw [firstLine_eq]
        constructor
        · intro h
          cases hfind : (lines (cstr (file.take localeWindow))).findSome? localeValue with
          | none =>
              rw [hfind] at h
              exact absurd h.symm hcode
          | some code' =>
              rw [hfind] at h
              obtain rfl : code' = code := h
              obtain ⟨before, line, after, hlines, hline, hbefore⟩ :=
                List.findSome?_eq_some_iff.mp hfind
              exact ⟨file, before, line, after, rfl, hlines, hbefore, hline⟩
        · rintro ⟨file', before, line, after, hfile, hlines, hbefore, hline⟩
          cases hfile
          have hfind : (lines (cstr (file.take localeWindow))).findSome? localeValue = some code :=
            List.findSome?_eq_some_iff.mpr ⟨before, line, after, hlines, hline, hbefore⟩
          rw [hfind]
          rfl

/-! ### What is shown -/

theorem twoLetters_twoLetters (v : Bytes) :
  twoLetters (twoLetters v) = twoLetters v
  := by
  unfold twoLetters
  rw [← List.map_take, List.take_take, List.map_map]
  exact List.map_congr_left fun c _ => toLower_toLower c

theorem exists_detectSystemLanguage (lang localeConf : Option Bytes) :
  ∃ v, 2 ≤ v.length ∧ detectSystemLanguage lang localeConf = twoLetters v
  := by
  by_cases hcode : detectSystemLanguage lang localeConf = english
  · exact ⟨english, by decide, hcode⟩
  · obtain ⟨v, -, hlong, hv⟩ | ⟨-, -, -, line, -, -, -, -, hline⟩ :=
      (detectSystemLanguage_iff hcode).mp rfl
    · exact ⟨v, hlong, hv.symm⟩
    · unfold localeValue at hline
      dsimp only at hline
      split_ifs at hline with hlang hlong
      exact ⟨_, hlong, (Option.some.inj hline).symm⟩

/-- A setting of another variable of the same length is not found. -/
theorem valueOf_putenv_ne {key key' : Bytes} (hlength : key.length = key'.length)
    (hne : key ≠ key') (value : Bytes) (environ : List Bytes) :
  valueOf key (putenv key' (key' ++ value) environ) = valueOf key environ
  := by
  have hother : ∀ e, key' <+: e → key.isPrefixOf e = false := by
    intro e he
    by_contra h
    have hkey : key <+: e := by simpa using h
    apply hne
    exact (List.prefix_of_prefix_length_le hkey he hlength.le).eq_of_length hlength
  have hset : key.isPrefixOf (key' ++ value) = false := hother _ (List.prefix_append _ _)
  induction environ with
  | nil => simp [putenv, valueOf, hset]
  | cons e environ ih =>
      unfold putenv
      split
      case isTrue he =>
        have hold : key.isPrefixOf e = false := hother e (by simpa using he)
        unfold valueOf
        rw [List.find?_cons, List.find?_cons, hset, hold]
      case isFalse he =>
        unfold valueOf at ih ⊢
        rw [List.find?_cons, List.find?_cons]
        split
        · rfl
        · exact ih

/-- The graphical program finds the language that the watchdog detected. -/
theorem valueOf_rescueEnviron (s : Snapshot) (localeConf : Option Bytes) (environ : List Bytes) :
  valueOf cadLang (rescueEnviron s localeConf environ)
    = some (detectSystemLanguage (valueOf langVar environ) localeConf)
  := by
  obtain ⟨v, hlong, hv⟩ := exists_detectSystemLanguage (valueOf langVar environ) localeConf
  have huser : printed (cadUser ++ detectActiveUser s 64) 128 = cadUser ++ detectActiveUser s 64 := by
    apply List.take_of_length_le
    have hname := length_detectActiveUser_le s
    have hkey : cadUser.length = 9 := by decide
    rw [List.length_append]
    omega
  have hlang : printed (cadLang ++ twoLetters v) 32 = cadLang ++ twoLetters v := by
    apply List.take_of_length_le
    have hkey : cadLang.length = 9 := by decide
    rw [List.length_append, twoLetters, List.length_map, List.length_take]
    omega
  unfold rescueEnviron handOver
  dsimp only
  rw [huser, valueOf_putenv_ne (by decide) (by decide), hv, hlang, valueOf_putenv]

/-- The graphical program shows one of its translations, and another than English if and only if it
is the one that the system asked for. -/
theorem guiLanguage_iff (s : Snapshot) (localeConf : Option Bytes) (environ : List Bytes) :
  guiLanguage (rescueEnviron s localeConf environ) ∈ translations
    ∧ ∀ code, (guiLanguage (rescueEnviron s localeConf environ) = code ∧ code ≠ english
      ↔ Requested (valueOf langVar environ) localeConf code ∧ code ∈ translations
        ∧ code ≠ english)
  := by
  obtain ⟨v, hlong, hv⟩ := exists_detectSystemLanguage (valueOf langVar environ) localeConf
  have hlength : 2 ≤ (twoLetters v).length := by
    rw [twoLetters, List.length_map, List.length_take]
    omega
  have hgui : guiLanguage (rescueEnviron s localeConf environ)
      = (translations.find? (· == twoLetters v)).getD english := by
    unfold guiLanguage
    rw [valueOf_rescueEnviron, hv, Option.some_or]
    dsimp only
    rw [if_pos hlength, twoLetters_twoLetters]
  rw [hgui]
  cases hfind : translations.find? (· == twoLetters v) with
  | none =>
      have hmissing : twoLetters v ∉ translations := by
        intro hmem
        have := List.find?_eq_none.mp hfind _ hmem
        simp at this
      refine ⟨by decide, fun code => ?_⟩
      rw [Option.getD_none]
      constructor
      · rintro ⟨rfl, hne⟩
        exact absurd rfl hne
      · rintro ⟨hrequested, hmem, hne⟩
        rw [← detectSystemLanguage_iff hne, hv] at hrequested
        exact absurd (hrequested ▸ hmem) hmissing
  | some code' =>
      have hcode : code' = twoLetters v := by simpa using List.find?_some hfind
      have hmem := List.mem_of_find?_eq_some hfind
      refine ⟨hmem, fun code => ?_⟩
      rw [Option.getD_some]
      constructor
      · rintro ⟨rfl, hne⟩
        exact ⟨(detectSystemLanguage_iff hne).mp (hv.trans hcode.symm), hmem, hne⟩
      · rintro ⟨hrequested, -, hne⟩
        rw [← detectSystemLanguage_iff hne, hv] at hrequested
        exact ⟨hcode.trans hrequested, hne⟩

end LnxCad.Session
