import Mathlib.Data.Fintype.Basic
import Sodex.AgentTools

/-!
# Command proposals

`term_command_block.c` keeps the command that the agent proposes, with a class that
`term_command_block_classify` derives from its first letters.
-/
namespace Sodex.Agent

open CText

/-- `enum term_command_class`. -/
inductive CommandClass where
  | none
  | readOnly
  | write
  | process
  | network
  deriving DecidableEq, Repr

instance : Fintype CommandClass :=
  ⟨{.none, .readOnly, .write, .process, .network}, fun c => by cases c <;> decide⟩

/-- `enum term_command_state`. -/
inductive CommandState where
  | none
  | pending
  | running
  | done
  | denied
  deriving DecidableEq, Repr

def readOnlyPrefixes : List (List UInt8) :=
  ["ls", "cat ", "grep ", "find ", "pwd", "head ", "tail ", "wc ", "sort ", "uniq ", "diff ",
    "cut ", "awk ", "sed ", "readlink ", "stat ", "ps"].map ascii

def writePrefixes : List (List UInt8) :=
  ["rm ", "mv ", "cp ", "touch ", "mkdir ", "rmdir ", "chmod ", "chown ", "tee ", "echo ",
    "printf ", "make", "git add ", "git commit", "git checkout ", "git switch "].map ascii

def processPrefixes : List (List UInt8) :=
  ["kill ", "killall ", "fg", "bg", "wait"].map ascii

def networkPrefixes : List (List UInt8) :=
  ["curl ", "webfetch ", "websearch ", "ping ", "dig ", "ssh ", "scp ", "nc "].map ascii

def blockTrim (text : List UInt8) : List UInt8 := text.dropWhile fun c => c = 32 ∨ c = 9 ∨ c = 10

/-- `block_starts_with`, for a list of words. -/
def startsWithAny (words : List (List UInt8)) (text : List UInt8) : Bool :=
  words.any fun word => word.isPrefixOf text

def classify (command : List UInt8) : CommandClass :=
  let trimmed := blockTrim command
  if trimmed = [] then .none
  else if contains (ascii " >") trimmed ∨ contains (ascii ">>") trimmed ∨
      contains (ascii "| tee ") trimmed then .write
  else if startsWithAny readOnlyPrefixes trimmed then .readOnly
  else if startsWithAny processPrefixes trimmed then .process
  else if startsWithAny networkPrefixes trimmed then .network
  else if startsWithAny writePrefixes trimmed then .write
  else if networkPrefixes.any (contains · trimmed) then .network
  else .write

def TERM_COMMAND_BLOCK_TEXT_MAX : ℕ := 256

/-- `struct term_command_block`, without the text of its result. -/
structure Block where
  active : Bool
  commandClass : CommandClass
  state : CommandState
  command : List UInt8
  deriving DecidableEq, Repr

def Block.clear : Block := ⟨false, .none, .none, []⟩

/-- `term_command_block_set_proposal`. -/
def Block.proposal (command : List UInt8) : Block :=
  ⟨true, classify command, .pending, copyString TERM_COMMAND_BLOCK_TEXT_MAX (blockTrim command)⟩

/-- `term_command_block_mark_running`, `_done` and `_denied`. -/
def Block.mark (b : Block) (state : CommandState) : Block := { b with active := true, state := state }

def Block.isPending (b : Block) : Bool := b.active && b.state = .pending

end Sodex.Agent
