import Mathlib.Data.List.Infix
import Sodex.AgentPaths
import Sodex.ByteMem

/-!
# The agent's tools and their permission check

`perm_check_tool` decides on the input of a tool, then the tool takes its arguments from the
same input and opens or renames files, or runs a command. The answers of the kernel are given.
-/
namespace Sodex.Agent

open CInt CText Json ByteMem

/-- A path as `store_path_rule` keeps it. -/
def PathRule : Type := { rule : List UInt8 // ∃ value, normalizePath value 256 = some rule }

/-- Allowed and denied paths for one kind of access. -/
structure PathRules where
  allow : List PathRule
  deny : List PathRule

inductive Mode where
  | strict
  | standard
  | permissive
  deriving DecidableEq, Repr

/-- `struct permission_policy`. -/
structure Policy where
  mode : Mode
  read : PathRules
  write : PathRules
  denyCommands : List (List UInt8)

inductive Tool where
  | readFile
  | listDir
  | writeFile
  | renamePath
  | runCommand
  | getSystemInfo
  | other
  deriving DecidableEq, Repr

def pathAllowed (path : List UInt8) (rules : PathRules) : Bool :=
  (rules.allow.isEmpty || rules.allow.any fun rule => pathIsUnder path rule.val) &&
    !rules.deny.any fun rule => pathIsUnder path rule.val

/-- `strstr` finds `needle`. -/
def contains (needle text : List UInt8) : Bool := needle <:+: text

/-- The part of `perm_check_tool` that checks a path, if one was found. -/
def checkPath (rules : PathRules) (path : Option (List UInt8)) : Bool :=
  path.all fun path => path.isEmpty || pathAllowed path rules

/-- What a tool asks of the kernel by name. -/
inductive Access where
  | open (path : List UInt8)
  | rename (source target : List UInt8)
  | shell (command : List UInt8)
  deriving DecidableEq, Repr

/-- The answers of the kernel to a tool. -/
structure Answers where
  /-- The file or directory of the input can be opened. -/
  opened : Bool
  /-- `lseek` succeeds. -/
  sought : Bool
  /-- Bytes read from the directory. -/
  bytesRead : ℕ
  /-- What follows `dir_buf` in memory, from its first byte on. -/
  dirBuf : Bytes
  /-- `s_artifact_counter`. -/
  artifactCounter : UInt32

def AGENT_FILE_READ_LIMIT_MAX : ℤ := 65536
def AGENT_FILE_WRITE_MAX : ℕ := 3072
def MAX_DIR_ENTRIES : ℕ := 64
def EXT3_FT_REG_FILE : UInt8 := 1
def AGENT_ARTIFACT_DIR : List UInt8 := ascii "/var/agent/artifacts"

def hexDigit (n : ℕ) : UInt8 := (if n < 10 then 48 + n else 87 + n).toUInt8

/-- `%08x`. -/
def hex8 (id : UInt32) : List UInt8 :=
  (List.range 8).map fun i => hexDigit (id.toNat / 16 ^ (7 - i) % 16)

/-- The name of the file that `bounded_output_begin_artifact` opens. -/
def artifactPath (kind : List UInt8) (id : UInt32) : List UInt8 :=
  AGENT_ARTIFACT_DIR ++ ascii "/" ++ kind ++ ascii "_" ++ hex8 id ++ ascii ".txt"

section Tools

variable (stale : Stale) (cwd : Option (List UInt8)) (answers : Answers) (input : List UInt8)

def toolReadFile : List Access :=
  match jsonGetNormalizedPath stale cwd input (ascii "path") with
  | none => []
  | some path =>
    let offset := (jsonGetIntField stale input (ascii "offset")).getD 0
    let limit := jsonGetIntField stale input (ascii "limit")
    if offset < 0 then []
    else if limit.any fun limit => limit ≤ 0 ∨ AGENT_FILE_READ_LIMIT_MAX < limit then []
    else .open path ::
      if answers.opened ∧ (offset ≤ 0 ∨ answers.sought) then
        [.open (artifactPath (ascii "read") answers.artifactCounter)]
      else []

def toolWriteFile : List Access :=
  match jsonGetNormalizedPath stale cwd input (ascii "path") with
  | none => []
  | some path =>
    if (jsonGetStringField stale input (ascii "content") (AGENT_FILE_WRITE_MAX + 1)).isNone then []
    else
      let mode := cstr ((jsonGetStringField stale input (ascii "mode") 16).getD (ascii "overwrite"))
      if mode = ascii "overwrite" ∨ mode = ascii "append" ∨ mode = ascii "create" then [.open path]
      else []

def toolRenamePath : List Access :=
  match jsonGetNormalizedPath stale cwd input (ascii "from"),
    jsonGetNormalizedPath stale cwd input (ascii "to") with
  | some source, some target => if source = target then [] else [.rename source target]
  | _, _ => []

/-- The length of the directory record at an offset of `dir_buf`. -/
def entryLen (offset : ℕ) : ℕ := (get16 answers.dirBuf (offset + 4)).toNat

/-- The name in the directory record at an offset of `dir_buf`, up to `name_len` bytes. -/
def entryName (offset : ℕ) : List UInt8 :=
  cstr ((List.range (answers.dirBuf (offset + 6)).toNat).map fun i => answers.dirBuf (offset + 8 + i))

/-- The loop of `tool_list_dir`: the files whose size is taken. -/
def listEntries (path : List UInt8) : ℕ → ℕ → ℕ → List Access
  | 0, _, _ => []
  | fuel + 1, offset, count =>
    let recLen := entryLen answers offset
    let name := entryName answers offset
    if answers.bytesRead ≤ offset ∨ MAX_DIR_ENTRIES ≤ count then []
    else if recLen < 8 ∨ answers.bytesRead < offset + recLen then []
    else if get32 answers.dirBuf offset = 0 ∨ answers.dirBuf (offset + 6) = 0 ∨ name = ascii "." ∨
        name = ascii ".." then
      listEntries path fuel (offset + recLen) count
    else
      match pathJoin path name PATHNAME_MAX with
      | none => listEntries path fuel (offset + recLen) count
      | some full =>
        (if answers.dirBuf (offset + 7) = EXT3_FT_REG_FILE then [.open full] else []) ++
          listEntries path fuel (offset + recLen) (count + 1)

def toolListDir : List Access :=
  match jsonGetNormalizedPath stale cwd input (ascii "path") with
  | none => []
  | some path =>
    .open path :: if answers.opened then listEntries answers path answers.bytesRead 0 0 else []

def toolRunCommand : List Access :=
  match jsonGetStringField stale input (ascii "command") 512 with
  | none => []
  | some command =>
    [.open (artifactPath (ascii "run") answers.artifactCounter), .shell (cstr command)]

/-- What a tool does by name. -/
def accesses (tool : Tool) : List Access :=
  match tool with
  | .readFile => toolReadFile stale cwd answers input
  | .writeFile => toolWriteFile stale cwd input
  | .renamePath => toolRenamePath stale cwd input
  | .listDir => toolListDir stale cwd answers input
  | .runCommand => toolRunCommand stale answers input
  | _ => []

end Tools

end Sodex.Agent
