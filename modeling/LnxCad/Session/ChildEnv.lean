import LnxCad.Proc.Environ
import LnxCad.Session.UserSession

/-!
# The environments of the programs the user gets

`execute_command_safe` and `launch_terminal_shell` put together the environment of a program that
runs on the user's behalf: a few variables of their own, and behind them what the environment
captured from the session has, apart from these variables, as far as it fits.
-/

namespace LnxCad.Session

/-! ### The captured environment -/

/-- `raw_env` and `raw_env_len`.  A capture ends before the last byte of the array, which stays
zero. -/
structure RawEnv where
  cells : Bytes
  rawEnvLen : ℕ
  length_cells : cells.length = 32768
  rawEnvLen_le : rawEnvLen ≤ 32767
  getLast_cells : cells.getLast? = some 0

/-- The array when the program starts. -/
def RawEnv.init : RawEnv where
  cells := List.replicate 32768 0
  rawEnvLen := 0
  length_cells := List.length_replicate
  rawEnvLen_le := Nat.zero_le _
  getLast_cells := by
    rw [List.getLast?_replicate]
    rfl

/-- The environment that was read, of at most `32767` bytes, is copied into the array. -/
def RawEnv.capture (r : RawEnv) (env : Bytes) (h : env.length ≤ 32767) : RawEnv where
  cells := env ++ r.cells.drop env.length
  rawEnvLen := env.length
  length_cells := by
    rw [List.length_append, List.length_drop, r.length_cells]
    omega
  rawEnvLen_le := h
  getLast_cells := by
    have hcells := r.length_cells
    rw [List.getLast?_append, List.getLast?_drop, if_neg (by omega), r.getLast_cells]
    rfl

/-- The bytes of the captured environment. -/
def RawEnv.block (r : RawEnv) : Bytes := r.cells.take r.rawEnvLen

/-- The bytes behind it. -/
def RawEnv.behind (r : RawEnv) : Bytes := r.cells.drop r.rawEnvLen

/-- Every string in the array ends there. -/
theorem RawEnv.zero_mem_drop (r : RawEnv) {p : ℕ} (h : p < 32768) :
  (0 : UInt8) ∈ r.cells.drop p
  := by
  have hcells := r.length_cells
  apply List.mem_of_getLast?
  rw [List.getLast?_drop, if_neg (by omega), r.getLast_cells]

/-- The entries of a block, where one without an end goes on behind the block. -/
def blockEntries (block behind : Bytes) : List Bytes :=
  let last := block.rtakeWhile (· ≠ 0)
  environEntries [] block ++ if last = [] then [] else [last ++ cstr behind]

/-- The entries of the captured environment. -/
def RawEnv.entries (r : RawEnv) : List Bytes := blockEntries r.block r.behind

theorem blockEntries_nil (behind : Bytes) :
  blockEntries [] behind = []
  := rfl

theorem environEntries_of_ne_zero {e : Bytes} (he : ∀ c ∈ e, c ≠ 0) (acc : Bytes) :
  environEntries acc e = []
  := by
  induction e generalizing acc with
  | nil => rfl
  | cons c e ih =>
      rw [environEntries, if_neg (he c (by simp))]
      apply ih
      intro d hd
      apply he d (by simp [hd])

/-- An entry with its end. -/
theorem blockEntries_append {e : Bytes} (he : ∀ c ∈ e, c ≠ 0) (block behind : Bytes) :
  blockEntries (e ++ 0 :: block) behind = e :: blockEntries block behind
  := by
  have hlast : (e ++ 0 :: block).rtakeWhile (· ≠ 0) = block.rtakeWhile (· ≠ 0) := by
    rw [List.rtakeWhile, List.rtakeWhile, List.reverse_append, List.reverse_cons, List.append_assoc,
      List.singleton_append, List.takeWhile_append]
    split
    case isTrue hall =>
      rw [List.takeWhile_cons_of_neg (by simp), List.append_nil]
      congr 1
      exact ((List.takeWhile_prefix _).eq_of_length hall).symm
    case isFalse => rfl
  unfold blockEntries
  dsimp only
  rw [environEntries_append he, hlast]
  rfl

/-- The last entry, without an end. -/
theorem blockEntries_last {e : Bytes} (he : ∀ c ∈ e, c ≠ 0) (hne : e ≠ []) (behind : Bytes) :
  blockEntries e behind = [e ++ cstr behind]
  := by
  have hlast : e.rtakeWhile (· ≠ 0) = e := by
    rw [List.rtakeWhile_eq_self_iff]
    simpa using he
  unfold blockEntries
  dsimp only
  rw [environEntries_of_ne_zero he, hlast, if_neg hne]
  rfl

/-- The entries of a block are the strings that it was made of, and what stands behind the last
zero. -/
theorem blockEntries_environBlock
    {es : List Bytes} (hes : ∀ e ∈ es, ∀ c ∈ e, c ≠ 0) {last : Bytes} (hlast : ∀ c ∈ last, c ≠ 0)
    (behind : Bytes) :
  blockEntries (environBlock es ++ last) behind
    = es ++ if last = [] then [] else [last ++ cstr behind]
  := by
  induction es with
  | nil =>
      rw [environBlock, List.flatMap_nil, List.nil_append, List.nil_append]
      split
      case isTrue hnil => rw [hnil, blockEntries_nil]
      case isFalse hne => exact blockEntries_last hlast hne behind
  | cons e es ih =>
      rw [environBlock_cons, List.append_assoc, List.cons_append,
        blockEntries_append (hes e (by simp)), List.cons_append, ih]
      intro e' he'
      apply hes e' (by simp [he'])

/-! ### The environment of the session -/

/-- The environment that the session keeps fits into the array. -/
theorem length_rawEnv_le (s : Snapshot) (environ : List Bytes) :
  (initStaticInfo s environ).rawEnv.length ≤ 32767
  := by
  have hlock : ∀ u, (deduceLock u).rawEnv = u.rawEnv := by
    intro u
    unfold deduceLock
    split <;> rfl
  have haccount : ∀ username, (resolveAccount s username UserSession.init).rawEnv = [] := by
    intro username
    unfold resolveAccount
    dsimp only
    generalize (rows s).find? _ = row
    cases row with
    | none => rfl
    | some row =>
        dsimp only
        split <;> rfl
  rw [initStaticInfo, detectUserSession, hlock, readDesktop]
  split
  case h_1 env henv =>
    obtain ⟨p, -, hp⟩ := List.exists_of_findSome?_eq_some henv
    unfold ProcDir.graphicalEnviron at hp
    split at hp
    · dsimp only at hp
      split at hp
      · cases hp
        exact List.length_take_le _ _
      · cases hp
    · cases hp
  case h_2 =>
    rw [haccount]
    exact Nat.zero_le _

/-- The array when the session has been found out; it is captured only once. -/
def sessionEnv (s : Snapshot) (environ : List Bytes) : RawEnv :=
  RawEnv.init.capture (initStaticInfo s environ).rawEnv (length_rawEnv_le s environ)

/-- Behind a first capture there is nothing, and an entry without an end is as long as it was
read. -/
theorem entries_capture {env : Bytes} (h : env.length ≤ 32767) :
  (RawEnv.init.capture env h).entries = blockEntries env []
  := by
  have hblock : (RawEnv.init.capture env h).block = env := List.take_left' rfl
  have hbehind : cstr (RawEnv.init.capture env h).behind = [] := by
    obtain ⟨n, hn⟩ : ∃ n, 32768 - env.length = n + 1 := ⟨32767 - env.length, by omega⟩
    have hdrop : (RawEnv.init.capture env h).behind = (List.replicate 32768 0).drop env.length :=
      List.drop_left' rfl
    rw [hdrop, List.drop_replicate, hn, List.replicate_succ, cstr_zero_cons]
  rw [RawEnv.entries, hblock, blockEntries, blockEntries, hbehind]
  rfl

/-- The entries that the session passes on. -/
theorem entries_sessionEnv (s : Snapshot) (environ : List Bytes) :
  (sessionEnv s environ).entries = blockEntries (initStaticInfo s environ).rawEnv []
  := entries_capture (length_rawEnv_le s environ)

/-! ### The walk -/

/-- A pointer in `envp`: to a text of the function, or into `raw_env`. -/
inductive EnvPtr where
  | text (buf : Bytes)
  | raw (p : ℕ)
deriving DecidableEq

/-- The string a pointer points to. -/
def EnvPtr.deref (cells : Bytes) : EnvPtr → Bytes
  | .text buf => cstr buf
  | .raw p => cstr (cells.drop p)

/-- Whether an entry sets none of some variables. -/
def keeps (filtered : List Bytes) (entry : Bytes) : Bool :=
  !filtered.any (fun name => name.isPrefixOf entry)

/-- The walk over the captured environment, from `p` on, with the pointers stored so far. -/
def envLoop (cells : Bytes) (rawEnvLen : ℕ) (filtered : List Bytes) (p : ℕ)
    (envp : List EnvPtr) : List EnvPtr :=
  if p < rawEnvLen ∧ envp.length < 510 then
    let entry := cstr (cells.drop p)
    envLoop cells rawEnvLen filtered (p + (entry.length + 1))
      (if keeps filtered entry then envp ++ [.raw p] else envp)
  else envp
termination_by rawEnvLen - p
decreasing_by omega

/-- An entry either ends in the block, or is the rest of it. -/
theorem split_block (b : Bytes) :
  (∃ e b', b = e ++ 0 :: b' ∧ ∀ c ∈ e, c ≠ 0) ∨ ∀ c ∈ b, c ≠ 0
  := by
  by_cases h : (0 : UInt8) ∈ b
  · obtain ⟨e, b', hb, he⟩ := List.eq_append_cons_of_mem h
    left
    use e, b', hb
    rintro c hc rfl
    exact he hc
  · right
    rintro c hc rfl
    exact h hc

/-- At the start of an entry, what is left of the block begins with the string that stands there. -/
theorem RawEnv.blockEntries_drop (r : RawEnv) {p : ℕ} (hp : p < r.rawEnvLen) :
  blockEntries (r.block.drop p) r.behind
    = cstr (r.cells.drop p)
      :: blockEntries (r.block.drop (p + ((cstr (r.cells.drop p)).length + 1))) r.behind
  := by
  have hcells := r.length_cells
  have hlen := r.rawEnvLen_le
  have hlength : r.block.length = r.rawEnvLen := by
    rw [RawEnv.block, List.length_take]
    omega
  have hdrop : r.cells.drop p = r.block.drop p ++ r.behind := by
    rw [← List.drop_append_of_le_length (by omega), RawEnv.block, RawEnv.behind,
      List.take_append_drop]
  rw [hdrop, ← List.drop_drop]
  obtain ⟨e, b', hb, he⟩ | hall := split_block (r.block.drop p)
  · have hentry : cstr (r.block.drop p ++ r.behind) = e := by
      rw [hb, List.append_assoc, List.cons_append, cstr_append_zero he]
    rw [hentry, hb, blockEntries_append he, ← List.drop_drop, List.drop_left, List.drop_one,
      List.tail_cons]
  · have hne : r.block.drop p ≠ [] := by
      rw [Ne, List.drop_eq_nil_iff]
      omega
    have hentry : cstr (r.block.drop p ++ r.behind) = r.block.drop p ++ cstr r.behind := by
      rw [cstr, List.takeWhile_append_of_pos]
      · rfl
      · simpa using hall
    -- the entry reaches past the block, and nothing follows it there
    have hover : (r.block.drop p).drop ((cstr (r.block.drop p ++ r.behind)).length + 1) = [] := by
      rw [List.drop_eq_nil_iff, hentry, List.length_append]
      omega
    rw [hover, blockEntries_nil, blockEntries_last hall hne, hentry]

/-- The walk appends, in order, the entries that are kept, up to `510` pointers. -/
theorem map_envLoop (r : RawEnv) (filtered : List Bytes) (p : ℕ) {envp : List EnvPtr}
    (h : envp.length ≤ 510) :
  (envLoop r.cells r.rawEnvLen filtered p envp).map (EnvPtr.deref r.cells)
    = envp.map (EnvPtr.deref r.cells)
      ++ ((blockEntries (r.block.drop p) r.behind).filter (keeps filtered)).take (510 - envp.length)
  := by
  induction p, envp using envLoop.induct r.cells r.rawEnvLen filtered with
  | case1 p envp hgo entry ih =>
      obtain ⟨hp, hroom⟩ := hgo
      obtain ⟨n, hn⟩ : ∃ n, 510 - envp.length = n + 1 := ⟨509 - envp.length, by omega⟩
      have hentries : blockEntries (r.block.drop p) r.behind
          = entry :: blockEntries (r.block.drop (p + (entry.length + 1))) r.behind :=
        r.blockEntries_drop hp
      simp only [dite_eq_ite] at ih
      rw [envLoop, if_pos ⟨hp, hroom⟩, hentries]
      refine (ih ?_).trans ?_
      · split
        · rw [List.length_append, List.length_singleton]
          omega
        · omega
      · by_cases hkeep : keeps filtered entry
        · rw [if_pos hkeep, List.filter_cons_of_pos hkeep, hn, List.take_succ_cons, List.map_append,
            List.append_assoc, List.length_append, List.length_singleton, Nat.sub_add_eq, hn,
            Nat.add_sub_cancel]
          rfl
        · rw [if_neg hkeep, List.filter_cons_of_neg hkeep]
  | case2 p envp hstop =>
      rw [envLoop, if_neg hstop]
      obtain hp | hfull : r.rawEnvLen ≤ p ∨ 510 - envp.length = 0 := by omega
      · have hnil : r.block.drop p = [] := by
          rw [List.drop_eq_nil_iff, RawEnv.block, List.length_take]
          omega
        rw [hnil, blockEntries_nil, List.filter_nil, List.take_nil, List.append_nil]
      · rw [hfull, List.take_zero, List.append_nil]

/-! ### The environments -/

/-- The name of the variable for the home directory. -/
def homeVar : Bytes := chars ['H', 'O', 'M', 'E', '=']

/-- The name of the variable for the search path. -/
def pathVar : Bytes := chars ['P', 'A', 'T', 'H', '=']

/-- The name of the variable for the terminal. -/
def termVar : Bytes := chars ['T', 'E', 'R', 'M', '=']

/-- The name of the variable for the user. -/
def userVar : Bytes := chars ['U', 'S', 'E', 'R', '=']

/-- The name of the variable for the machine. -/
def hostVar : Bytes := chars ['H', 'O', 'S', 'T', 'N', 'A', 'M', 'E', '=']

/-- The search path. -/
def pathSetting : Bytes :=
  pathVar ++ chars ("/usr/local/bin:/usr/bin:/bin:/usr/local/sbin:/usr/sbin:/sbin:/opt/trinity/bin:"
    ++ "/opt/tde/bin").toList

/-- The terminal. -/
def termSetting : Bytes := termVar ++ chars "xterm-256color".toList

/-- A variable put together in a buffer of its own that begins with its name. -/
def envVar (name value : Bytes) (size : ℕ) : EnvPtr :=
  .text (safeConcat (name ++ List.replicate (size - name.length) 0) value size)

/-- The `envp` of `execute_command_safe`. -/
def executeEnvp (asRoot : Bool) (u : UserSession) (r : RawEnv) : List (Option EnvPtr) :=
  let home := if asRoot then chars ['/', 'r', 'o', 'o', 't'] else u.home
  let envp := [envVar homeVar home 512, .text pathSetting]
  let envp :=
    if asRoot then envp else envLoop r.cells r.rawEnvLen [homeVar, pathVar] 0 envp
  envp.map some ++ [none]

/-- The `envp` of the shell that `launch_terminal_shell` starts for the user, by the name that
`gethostname` gives, if any. -/
def terminalEnvp (u : UserSession) (gethostname : Option Bytes) (r : RawEnv) :
    List (Option EnvPtr) :=
  let hostname := gethostname.getD (chars ['u', 'n', 'k', 'n', 'o', 'w', 'n'])
  let envp := envLoop r.cells r.rawEnvLen [homeVar, pathVar, termVar, userVar, hostVar] 0
    [envVar homeVar u.home 512, envVar userVar u.username 128, envVar hostVar hostname 256,
      .text pathSetting, .text termSetting]
  envp.map some ++ [none]

/-- Whether a slot of `envp` sets a variable. -/
def sets (cells name : Bytes) (slot : Option EnvPtr) : Bool :=
  slot.any (fun x => name.isPrefixOf (x.deref cells))

/-- An `envp` of `512` slots is well formed: it has the fixed texts, in front of the entries of the
captured environment that set none of the filtered variables, up to `510` in total, and an end; and
it sets each of the filtered variables once. -/
structure IsEnvironment (r : RawEnv) (filtered fixed : List Bytes) (envp : List (Option EnvPtr)) :
    Prop where
  texts : envp.map (Option.map (EnvPtr.deref r.cells))
    = ((fixed ++ r.entries.filter (keeps filtered)).take 510).map some ++ [none]
  length_le : envp.length ≤ 512
  once : ∀ name ∈ filtered, envp.countP (sets r.cells name) = 1

/-- The text of a variable. -/
theorem deref_envVar (cells : Bytes) {name : Bytes} (hname : ∀ c ∈ name, c ≠ 0) (value : Bytes)
    {size : ℕ} (hsize : name.length < size) :
  (envVar name value size).deref cells = (name ++ cstr value).take (size - 1)
  := by
  obtain ⟨n, hn⟩ : ∃ n, size - name.length = n + 1 := ⟨size - name.length - 1, by omega⟩
  rw [envVar]
  exact (cstr_safeConcat _ _ (by omega)).trans (by rw [hn, List.replicate_succ, cstr_append_zero hname])

/-- Of the names of some texts, none of which begins another, each begins one text. -/
theorem countP_isPrefixOf
    {vars : List (Bytes × Bytes)} (hvars : ∀ v ∈ vars, v.1 <+: v.2)
    (hnames : (vars.map Prod.fst).Pairwise fun a b => ¬ a <+: b ∧ ¬ b <+: a) {v : Bytes × Bytes}
    (h : v ∈ vars) :
  (vars.map Prod.snd).countP (fun e => v.1.isPrefixOf e) = 1
  := by
  have hnot : ∀ {v w : Bytes × Bytes}, w.1 <+: w.2 → ¬ v.1 <+: w.1 → ¬ w.1 <+: v.1 →
      ¬ v.1.isPrefixOf w.2 = true := by
    intro v w hw hvw hwv hprefix
    rw [List.isPrefixOf_iff_prefix] at hprefix
    obtain hle | hle := List.prefix_or_prefix_of_prefix hprefix hw
    · exact hvw hle
    · exact hwv hle
  induction vars with
  | nil => cases h
  | cons w vars ih =>
      obtain ⟨hfirst, hpairs⟩ := List.pairwise_cons.mp hnames
      obtain ⟨hw, hrest⟩ := List.forall_mem_cons.mp hvars
      rw [List.map_cons, List.countP_cons]
      obtain rfl | hmem := List.mem_cons.mp h
      · rw [if_pos (List.isPrefixOf_iff_prefix.mpr hw), List.countP_eq_zero.mpr]
        intro e he
        obtain ⟨w, hmem, rfl⟩ := List.mem_map.mp he
        obtain ⟨hvw, hwv⟩ := hfirst w.1 (List.mem_map_of_mem hmem)
        exact hnot (hrest w hmem) hvw hwv
      · obtain ⟨hwv, hvw⟩ := hfirst v.1 (List.mem_map_of_mem hmem)
        rw [ih hrest hpairs hmem, if_neg (hnot hw hvw hwv)]

/-- Fixed variables and the walk behind them make a well-formed environment, if none of the names
begins another. -/
theorem isEnvironment_envLoop
    (r : RawEnv) {vars : List (Bytes × Bytes)} {filtered : List Bytes} {envp : List EnvPtr}
    (hlen : vars.length ≤ 510) (henvp : envp.map (EnvPtr.deref r.cells) = vars.map Prod.snd)
    (hvars : ∀ v ∈ vars, v.1 <+: v.2)
    (hnames : (vars.map Prod.fst).Pairwise fun a b => ¬ a <+: b ∧ ¬ b <+: a)
    (hfiltered : filtered ⊆ vars.map Prod.fst) :
  IsEnvironment r filtered (vars.map Prod.snd)
    ((envLoop r.cells r.rawEnvLen filtered 0 envp).map some ++ [none])
  := by
  have hlength : envp.length = vars.length := by
    have hmap := congrArg List.length henvp
    rwa [List.length_map, List.length_map] at hmap
  have htexts : (envLoop r.cells r.rawEnvLen filtered 0 envp).map (EnvPtr.deref r.cells)
      = vars.map Prod.snd ++ (r.entries.filter (keeps filtered)).take (510 - vars.length) := by
    rw [map_envLoop r filtered 0 (by omega), henvp, hlength]
    rfl
  constructor
  · rw [List.map_append, List.map_map, List.take_append, List.length_map, List.take_of_length_le,
      ← htexts, List.map_map]
    · rfl
    · rw [List.length_map]
      exact hlen
  · have hmap := congrArg List.length htexts
    rw [List.length_map, List.length_append, List.length_map, List.length_take] at hmap
    rw [List.length_append, List.length_map, List.length_singleton]
    omega
  · intro name hname
    obtain ⟨v, hv, rfl⟩ := List.mem_map.mp (hfiltered hname)
    have hslots : ((envLoop r.cells r.rawEnvLen filtered 0 envp).map some ++ [none]).countP
          (sets r.cells v.1)
        = ((envLoop r.cells r.rawEnvLen filtered 0 envp).map (EnvPtr.deref r.cells)).countP
          (fun e => v.1.isPrefixOf e) := by
      rw [List.countP_append, List.countP_map, List.countP_map]
      rfl
    rw [hslots, htexts, List.countP_append, countP_isPrefixOf hvars hnames hv,
      List.countP_eq_zero.mpr]
    intro e he hprefix
    obtain ⟨-, hkeep⟩ := List.mem_filter.mp (List.mem_of_mem_take he)
    rw [keeps, Bool.not_eq_true', List.any_eq_false] at hkeep
    exact hkeep v.1 hname hprefix

/-- The fixed variables of a command executed for the user, each with its text. -/
def executeVars (u : UserSession) : List (Bytes × Bytes) :=
  [(homeVar, (homeVar ++ cstr u.home).take 511), (pathVar, pathSetting)]

/-- The fixed variables of the user's shell in the terminal, each with its text. -/
def terminalVars (u : UserSession) (gethostname : Option Bytes) : List (Bytes × Bytes) :=
  let hostname := gethostname.getD (chars ['u', 'n', 'k', 'n', 'o', 'w', 'n'])
  [(homeVar, (homeVar ++ cstr u.home).take 511), (userVar, (userVar ++ cstr u.username).take 127),
    (hostVar, (hostVar ++ cstr hostname).take 255), (pathVar, pathSetting), (termVar, termSetting)]

theorem isPrefix_take {name : Bytes} {n : ℕ} (h : name.length ≤ n) (value : Bytes) :
  name <+: (name ++ value).take n
  := by
  rw [List.take_append, List.take_of_length_le h]
  exact List.prefix_append name _

theorem cstr_pathSetting :
  cstr pathSetting = pathSetting
  := cstr_of_ne_zero (by decide +kernel)

theorem cstr_termSetting :
  cstr termSetting = termSetting
  := cstr_of_ne_zero (by decide +kernel)

/-- Whatever environment was captured, a command executed for the user and the user's shell in the
terminal get one that is well formed. -/
theorem envp_wellFormed (u : UserSession) (gethostname : Option Bytes) (r : RawEnv) :
  IsEnvironment r [homeVar, pathVar] ((executeVars u).map Prod.snd) (executeEnvp false u r)
    ∧ IsEnvironment r [homeVar, pathVar, termVar, userVar, hostVar]
      ((terminalVars u gethostname).map Prod.snd) (terminalEnvp u gethostname r)
  := by
  have hhome : (envVar homeVar u.home 512).deref r.cells = (homeVar ++ cstr u.home).take 511 :=
    deref_envVar r.cells (by decide +kernel) u.home (by decide)
  constructor
  · apply isEnvironment_envLoop r
    · exact (by decide : 2 ≤ 510)
    · exact congrArg₂ List.cons hhome (congrArg (fun e => [e]) cstr_pathSetting)
    · simp only [executeVars, List.forall_mem_cons]
      exact ⟨isPrefix_take (by decide) _, List.prefix_append _ _, by simp⟩
    · have hnames : [homeVar, pathVar].Pairwise fun a b => ¬ a <+: b ∧ ¬ b <+: a := by decide
      exact hnames
    · simp [executeVars]
  · have huser : (envVar userVar u.username 128).deref r.cells
        = (userVar ++ cstr u.username).take 127 :=
      deref_envVar r.cells (by decide +kernel) u.username (by decide)
    have hhost : ∀ hostname, (envVar hostVar hostname 256).deref r.cells
        = (hostVar ++ cstr hostname).take 255 := by
      intro hostname
      exact deref_envVar r.cells (by decide +kernel) hostname (by decide)
    apply isEnvironment_envLoop r
    · exact (by decide : 5 ≤ 510)
    · exact congrArg₂ List.cons hhome (congrArg₂ List.cons huser
        (congrArg₂ List.cons (hhost _) (congrArg₂ List.cons cstr_pathSetting
          (congrArg (fun e => [e]) cstr_termSetting))))
    · simp only [terminalVars, List.forall_mem_cons]
      exact ⟨isPrefix_take (by decide) _, isPrefix_take (by decide) _, isPrefix_take (by decide) _,
        List.prefix_append _ _, List.prefix_append _ _, by simp⟩
    · have hnames : [homeVar, userVar, hostVar, pathVar, termVar].Pairwise
          fun a b => ¬ a <+: b ∧ ¬ b <+: a := by
        decide
      exact hnames
    · simp [terminalVars]

end LnxCad.Session
