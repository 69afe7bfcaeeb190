import Sodex.CInt
import Sodex.CText

/-!
# The configuration of the admin servers

`/etc/sodex-admin.conf` is a list of lines `key = value`. Lines, keys and values pass through
buffers of 192, 32 and 192 bytes, and a token is stored in 64.
-/
namespace Sodex.Admin

open CInt CText

def ADMIN_TOKEN_MAX : ℕ := 64
def ADMIN_SECRET_MAX : ℕ := 192
def ADMIN_HEX_SEED_MAX : ℕ := 65
def ADMIN_HEX_PUBLICKEY_MAX : ℕ := 65
def ADMIN_HEX_SECRETKEY_MAX : ℕ := 129
def ADMIN_TEXT_REQUEST_MAX : ℕ := 192
def ADMIN_CONFIG_MAX : ℕ := 1024

/-- The configured part of `struct admin_runtime_state`. -/
structure Runtime where
  statusToken : List UInt8
  controlToken : List UInt8
  allowIp : UInt32
  debugShellPort : UInt16
  sshPort : UInt16
  sshSignerPort : UInt16
  sshPassword : List UInt8
  sshHostkeyEd25519Seed : List UInt8
  sshHostkeyEd25519Public : List UInt8
  sshHostkeyEd25519Secret : List UInt8
  sshRngSeed : List UInt8
  configErrorCount : ℕ
  deriving DecidableEq

def parsePositiveInt (text : List UInt8) : ℤ :=
  if text = [] then -1
  else if text.any fun b => b < 48 ∨ 57 < b then -1
  else text.foldl (fun value b => toInt (value * 10 + (b.toNat - 48))) 0

def isHexString (text : List UInt8) : Bool :=
  text ≠ [] ∧ text.all fun b => (48 ≤ b ∧ b ≤ 57) ∨ (97 ≤ b ∧ b ≤ 102) ∨ (65 ≤ b ∧ b ≤ 70)

/-- The loop of `admin_parse_ipv4`. -/
def ipv4Loop : List UInt8 → List UInt8 → ℕ → ℕ → Option (List UInt8)
  | [], raw, value, digits =>
    if digits = 0 ∨ 4 ≤ raw.length then none else some (raw ++ [value.toUInt8])
  | c :: rest, raw, value, digits =>
    if 48 ≤ c ∧ c ≤ 57 then
      let value := value * 10 + (c.toNat - 48)
      if 3 < digits + 1 ∨ 255 < value then none else ipv4Loop rest raw value (digits + 1)
    else if c = 46 then
      if digits = 0 ∨ 4 ≤ raw.length then none else ipv4Loop rest (raw ++ [value.toUInt8]) 0 0
    else none

/-- The address with these four bytes in memory. -/
def addressOf (raw : List UInt8) : UInt32 :=
  raw.foldr (fun b address => (address <<< 8) ||| b.toUInt32) 0

def parseIpv4 (text : List UInt8) : Option UInt32 :=
  ((ipv4Loop text [] 0 0).filter fun raw => raw.length = 4).map addressOf

def trimLine (line : List UInt8) (cap : ℕ) : List UInt8 := trimCopy cap line

inductive LineResult where
  | ignored
  | applied
  | unknownKey
  | invalidFormat
  | invalidValue
  deriving DecidableEq

def LineResult.isError (r : LineResult) : Bool :=
  r = .unknownKey ∨ r = .invalidFormat ∨ r = .invalidValue

def parsePort (value : List UInt8) : Option UInt16 :=
  let port := parsePositiveInt value
  if port < 0 ∨ 65535 < port then none else some port.toNat.toUInt16

/-- A value of hexadecimal digits that fills its buffer. -/
def parseHex (cap : ℕ) (value : List UInt8) : Option (List UInt8) :=
  if value.length ≠ cap - 1 ∨ !isHexString value then none else some (copyString cap value)

/-- A value that has to be well formed. -/
def applyValue {α : Type} (rt : Runtime) (value : Option α) (set : α → Runtime) :
    LineResult × Runtime :=
  match value with
  | none => (.invalidValue, rt)
  | some v => (.applied, set v)

/-- `admin_apply_config_line`, once key and value are cut out. -/
def applyConfigKey (rt : Runtime) (key value : List UInt8) : LineResult × Runtime :=
  if key = ascii "status_token" then
    (.applied, { rt with statusToken := copyString ADMIN_TOKEN_MAX value })
  else if key = ascii "control_token" then
    (.applied, { rt with controlToken := copyString ADMIN_TOKEN_MAX value })
  else if key = ascii "allow_ip" then
    applyValue rt (parseIpv4 value) fun ip => { rt with allowIp := ip }
  else if key = ascii "debug_shell_port" then
    applyValue rt (parsePort value) fun port => { rt with debugShellPort := port }
  else if key = ascii "ssh_port" then
    applyValue rt (parsePort value) fun port => { rt with sshPort := port }
  else if key = ascii "ssh_password" then
    (.applied, { rt with sshPassword := copyString ADMIN_SECRET_MAX value })
  else if key = ascii "ssh_signer_port" then
    applyValue rt (parsePort value) fun port => { rt with sshSignerPort := port }
  else if key = ascii "ssh_hostkey_ed25519_seed" then
    applyValue rt (parseHex ADMIN_HEX_SEED_MAX value) fun v =>
      { rt with sshHostkeyEd25519Seed := v }
  else if key = ascii "ssh_hostkey_ed25519_public" then
    applyValue rt (parseHex ADMIN_HEX_PUBLICKEY_MAX value) fun v =>
      { rt with sshHostkeyEd25519Public := v }
  else if key = ascii "ssh_hostkey_ed25519_secret" then
    applyValue rt (parseHex ADMIN_HEX_SECRETKEY_MAX value) fun v =>
      { rt with sshHostkeyEd25519Secret := v }
  else if key = ascii "ssh_rng_seed" then
    applyValue rt (parseHex ADMIN_HEX_SEED_MAX value) fun v => { rt with sshRngSeed := v }
  else (.unknownKey, rt)

def applyConfigLine (rt : Runtime) (line : List UInt8) : LineResult × Runtime :=
  let raw := trimLine line ADMIN_TEXT_REQUEST_MAX
  if raw = [] ∨ raw.head? = some 35 then (.ignored, rt)
  else if 61 ∉ raw then (.invalidFormat, rt)
  else
    let key := trimLine (before 61 raw) 32
    let value := trimLine (after 61 raw) ADMIN_SECRET_MAX
    if key = [] then (.invalidFormat, rt) else applyConfigKey rt key value

/-- A line of `admin_apply_config_text`. -/
def applyLine (rt : Runtime) (line : List UInt8) : Runtime :=
  let out := applyConfigLine rt (trimLine line ADMIN_TEXT_REQUEST_MAX)
  if out.1.isError then { out.2 with configErrorCount := out.2.configErrorCount + 1 } else out.2

def applyConfigText (rt : Runtime) (text : List UInt8) : Runtime := (lines text).foldl applyLine rt

/-- The values the kernel is built with: the `SODEX_` macros. -/
structure Build where
  statusToken : List UInt8
  controlToken : List UInt8
  allowIp : UInt32
  sshPort : UInt16
  sshSignerPort : UInt16
  sshPassword : List UInt8
  sshHostkeyEd25519Seed : List UInt8
  sshRngSeed : List UInt8

/-- The macros when the build sets none. -/
def Build.default : Build where
  statusToken := []
  controlToken := []
  allowIp := addressOf [10, 0, 2, 2]
  sshPort := 0
  sshSignerPort := 0
  sshPassword := []
  sshHostkeyEd25519Seed := []
  sshRngSeed := []

/-- `admin_runtime_reset` before the configuration file is read. -/
def Build.runtime (build : Build) : Runtime where
  statusToken := copyString ADMIN_TOKEN_MAX build.statusToken
  controlToken := copyString ADMIN_TOKEN_MAX build.controlToken
  allowIp := build.allowIp
  debugShellPort := 0
  sshPort := build.sshPort
  sshSignerPort := build.sshSignerPort
  sshPassword := copyString ADMIN_SECRET_MAX build.sshPassword
  sshHostkeyEd25519Seed := copyString ADMIN_HEX_SEED_MAX build.sshHostkeyEd25519Seed
  sshHostkeyEd25519Public := []
  sshHostkeyEd25519Secret := []
  sshRngSeed := copyString ADMIN_HEX_SEED_MAX build.sshRngSeed
  configErrorCount := 0

/-- `admin_runtime_reset`; `file` is the content of the configuration file, or `none` when it
cannot be opened or read. -/
def runtimeReset (build : Build) (file : Option (List UInt8)) : Runtime :=
  let rt := build.runtime
  match file with
  | none => { rt with configErrorCount := 1 }
  | some text =>
    if ADMIN_CONFIG_MAX ≤ text.length then { rt with configErrorCount := 1 }
    else applyConfigText rt text

/-- The key and the value of a line, as they stand there. -/
def assignment (line : List UInt8) : Option (List UInt8 × List UInt8) :=
  let text := trim line
  if text = [] ∨ text.head? = some 35 ∨ 61 ∉ text then none
  else some (trim (before 61 text), trim (after 61 text))

/-- The value that a configuration text gives to a key, as it stands there; `start` if it gives
none. -/
def configured (key : List UInt8) (start : List UInt8) (text : List UInt8) : List UInt8 :=
  (lines text).foldl (fun value line =>
    match assignment line with
    | some (k, v) => if k = key then v else value
    | none => value) start

/-- A line that passes through the buffers unchanged: its tokens are short enough to be
stored. -/
def LineFits (line : List UInt8) : Prop :=
  0 ∉ line ∧ (trim line).length ≤ 191 ∧
    ∀ a ∈ assignment line, a.1 ∈ [ascii "status_token", ascii "control_token"] → a.2.length ≤ 63

instance (line : List UInt8) : Decidable (LineFits line) :=
  inferInstanceAs (Decidable (_ ∧ _ ∧ _))

/-- The complete token of a configuration; a file that is too large is not read. -/
def configuredToken (key start : List UInt8) (file : Option (List UInt8)) : List UInt8 :=
  match file with
  | none => start
  | some text => if ADMIN_CONFIG_MAX ≤ text.length then start else configured key start text

def statusTokenOf (build : Build) (file : Option (List UInt8)) : List UInt8 :=
  configuredToken (ascii "status_token") build.statusToken file

def controlTokenOf (build : Build) (file : Option (List UInt8)) : List UInt8 :=
  configuredToken (ascii "control_token") build.controlToken file

/-- A configuration whose tokens are short enough to be stored. -/
def ConfigFits (build : Build) (file : Option (List UInt8)) : Prop :=
  (0 ∉ build.statusToken ∧ build.statusToken.length ≤ 63) ∧
    (0 ∉ build.controlToken ∧ build.controlToken.length ≤ 63) ∧
    ∀ text ∈ file, text.length < ADMIN_CONFIG_MAX → ∀ line ∈ lines text, LineFits line

instance (build : Build) (file : Option (List UInt8)) : Decidable (ConfigFits build file) :=
  inferInstanceAs (Decidable (_ ∧ _ ∧ _))

section Tokens

variable {build : Build} {line text : List UInt8}

theorem applyConfigKey_tokens (rt : Runtime) (key value : List UInt8) :
    (applyConfigKey rt key value).2.statusToken =
        (if key = ascii "status_token" then copyString ADMIN_TOKEN_MAX value
          else rt.statusToken) ∧
      (applyConfigKey rt key value).2.controlToken =
        if key = ascii "control_token" then copyString ADMIN_TOKEN_MAX value
        else rt.controlToken := by
  have hvalue {α : Type} (v : Option α) (set : α → Runtime)
      (hset : ∀ a, (set a).statusToken = rt.statusToken ∧
        (set a).controlToken = rt.controlToken) :
      (applyValue rt v set).2.statusToken = rt.statusToken ∧
        (applyValue rt v set).2.controlToken = rt.controlToken := by
    cases v with
    | none => exact ⟨rfl, rfl⟩
    | some a => exact hset a
  unfold applyConfigKey
  by_cases hstatus : key = ascii "status_token"
  · subst hstatus
    exact ⟨rfl, rfl⟩
  rw [if_neg hstatus, if_neg hstatus]
  by_cases hcontrol : key = ascii "control_token"
  · rw [if_pos hcontrol, if_pos hcontrol]
    exact ⟨rfl, rfl⟩
  rw [if_neg hcontrol, if_neg hcontrol]
  iterate 9
    split
    · first
      | exact hvalue _ _ fun _ => ⟨rfl, rfl⟩
      | exact ⟨rfl, rfl⟩
  exact ⟨rfl, rfl⟩

/-- A key in its buffer is a token's key if the whole key is. -/
theorem trimLine_eq_iff {l key : List UInt8} (hzero : 0 ∉ l) (hkey : key.length < 31) :
    trimLine l 32 = key ↔ trim l = key := by
  have hfree : 0 ∉ (trim l).take 31 := fun hmem =>
    hzero ((trim_sublist l).subset (List.mem_of_mem_take hmem))
  rw [trimLine, trimCopy, cstr_eq_self hfree]
  constructor
  · intro h
    have hlen := congrArg List.length h
    rw [List.length_take] at hlen
    rw [← h, List.take_of_length_le (by omega)]
  · rintro rfl
    exact List.take_of_length_le (by omega)

theorem trimLine_eq_trim {l : List UInt8} (hzero : 0 ∉ l) (hlen : (trim l).length ≤ 191) :
    trimLine l 192 = trim l := trimCopy_eq_trim hzero hlen

theorem applyLine_tokens (rt : Runtime) (hfits : LineFits line) :
    ((applyLine rt line).statusToken = match assignment line with
      | some (k, v) => if k = ascii "status_token" then v else rt.statusToken
      | none => rt.statusToken) ∧
    (applyLine rt line).controlToken = match assignment line with
      | some (k, v) => if k = ascii "control_token" then v else rt.controlToken
      | none => rt.controlToken := by
  obtain ⟨hzero, hlen, htokens⟩ := hfits
  have htext : 0 ∉ trim line := fun hmem => hzero ((trim_sublist line).subset hmem)
  have hraw : trimLine (trimLine line ADMIN_TEXT_REQUEST_MAX) ADMIN_TEXT_REQUEST_MAX =
      trim line := by
    rw [ADMIN_TEXT_REQUEST_MAX, trimLine_eq_trim hzero hlen,
      trimLine_eq_trim htext (by rwa [trim_trim]), trim_trim]
  -- counting errors does not change the tokens
  have hcount : ∀ out : LineResult × Runtime,
      (if out.1.isError then { out.2 with configErrorCount := out.2.configErrorCount + 1 }
        else out.2).statusToken = out.2.statusToken ∧
      (if out.1.isError then { out.2 with configErrorCount := out.2.configErrorCount + 1 }
        else out.2).controlToken = out.2.controlToken := by
    intro out
    split <;> exact ⟨rfl, rfl⟩
  unfold applyLine
  simp only [hcount]
  unfold applyConfigLine
  simp only [hraw]
  unfold assignment at htokens ⊢
  by_cases hnone : trim line = [] ∨ (trim line).head? = some 35
  · rw [if_pos hnone, if_pos (hnone.elim .inl fun h => .inr (.inl h))]
    exact ⟨rfl, rfl⟩
  rw [if_neg hnone]
  rw [not_or] at hnone
  by_cases hsep : 61 ∉ trim line
  · rw [if_pos hsep, if_pos (.inr (.inr hsep))]
    exact ⟨rfl, rfl⟩
  have hsome : ¬(trim line = [] ∨ (trim line).head? = some 35 ∨ 61 ∉ trim line) := by
    simp only [not_or]
    exact ⟨hnone.1, hnone.2, hsep⟩
  rw [if_neg hsep, if_neg hsome]
  rw [if_neg hsome] at htokens
  have hkey : 0 ∉ before 61 (trim line) := fun hmem =>
    htext ((List.takeWhile_sublist _).subset hmem)
  have hafter : (after 61 (trim line)).Sublist (trim line) :=
    (List.drop_sublist _ _).trans (List.dropWhile_sublist _)
  have hvalue : trimLine (after 61 (trim line)) ADMIN_SECRET_MAX = trim (after 61 (trim line)) :=
    trimLine_eq_trim (fun hmem => htext (hafter.subset hmem))
      (((trim_sublist _).trans hafter).length_le.trans hlen)
  have hstored : trim (before 61 (trim line)) ∈ [ascii "status_token", ascii "control_token"] →
      copyString ADMIN_TOKEN_MAX (trim (after 61 (trim line))) = trim (after 61 (trim line)) := by
    intro hmem
    refine copyString_eq_self (fun hmem => ?_) (htokens _ rfl hmem)
    exact htext (hafter.subset ((trim_sublist _).subset hmem))
  have hstatus := trimLine_eq_iff hkey (by decide : (ascii "status_token").length < 31)
  have hcontrol := trimLine_eq_iff hkey (by decide : (ascii "control_token").length < 31)
  have hempty := trimLine_eq_iff hkey (by decide : ([] : List UInt8).length < 31)
  by_cases hnokey : trimLine (before 61 (trim line)) 32 = []
  · rw [if_pos hnokey]
    simp only [hempty.mp hnokey]
    exact ⟨(if_neg (by decide)).symm, (if_neg (by decide)).symm⟩
  · rw [if_neg hnokey, hvalue]
    obtain ⟨hs, hc⟩ := applyConfigKey_tokens rt (trimLine (before 61 (trim line)) 32)
      (trim (after 61 (trim line)))
    rw [hs, hc]
    simp only [hstatus, hcontrol]
    constructor
    · split
      · rename_i hkey
        exact hstored (by simp [hkey])
      · rfl
    · split
      · rename_i hkey
        exact hstored (by simp [hkey])
      · rfl

/-- The stored tokens are the ones the configuration gives. -/
theorem applyConfigText_tokens (hfits : ∀ line ∈ lines text, LineFits line) (rt : Runtime) :
    (applyConfigText rt text).statusToken =
        configured (ascii "status_token") rt.statusToken text ∧
      (applyConfigText rt text).controlToken =
        configured (ascii "control_token") rt.controlToken text := by
  unfold applyConfigText configured
  generalize lines text = ls at hfits
  induction ls generalizing rt with
  | nil => exact ⟨rfl, rfl⟩
  | cons line ls ih =>
    obtain ⟨hline, hrest⟩ := List.forall_mem_cons.mp hfits
    obtain ⟨hs, hc⟩ := applyLine_tokens rt hline
    simp only [List.foldl_cons, ← hs, ← hc]
    exact ih (applyLine rt line) hrest

theorem runtimeReset_tokens {file : Option (List UInt8)} (hfits : ConfigFits build file) :
    (runtimeReset build file).statusToken = statusTokenOf build file ∧
      (runtimeReset build file).controlToken = controlTokenOf build file := by
  obtain ⟨⟨hszero, hslen⟩, ⟨hczero, hclen⟩, hlines⟩ := hfits
  have hstatus : build.runtime.statusToken = build.statusToken := copyString_eq_self hszero hslen
  have hcontrol : build.runtime.controlToken = build.controlToken :=
    copyString_eq_self hczero hclen
  unfold runtimeReset statusTokenOf controlTokenOf configuredToken
  cases file with
  | none => exact ⟨hstatus, hcontrol⟩
  | some text =>
    simp only
    split
    · exact ⟨hstatus, hcontrol⟩
    · rename_i hsmall
      have htokens := applyConfigText_tokens (hlines text rfl (Nat.not_le.mp hsmall)) build.runtime
      rw [hstatus, hcontrol] at htokens
      exact htokens

end Tokens

end Sodex.Admin
