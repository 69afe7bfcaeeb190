import Sodex.SxBuiltins

/-!
# What every builtin does

A script is made of changes of the handles, failures and questions to the system. What these do to
the host, and does not change when it is done twice, every builtin does. In a check every builtin is
silent: it has tested the mode before each question.
-/
namespace Sodex.Sx

open CText Computations Builtin

namespace Script

variable {α β : Type} {span : Span} {message : String}

/-- The script neither asks the system nor exits. -/
def Silent : Script α → Prop
  | done _ => True
  | fail _ => True
  | exit _ => False
  | look next => ∀ h, (next h).Silent
  | change _ next => next.Silent
  | question _ _ => False

@[simp] theorem silent_pure (a : α) : (pure a : Script α).Silent := trivial

@[simp] theorem silent_fail (diag : Diagnostic) : (fail diag : Script α).Silent := trivial

@[simp] theorem silent_failAt : (failAt span message : Script α).Silent := trivial

@[simp] theorem silent_orFail (a : Option α) : (orFail span message a).Silent := by
  cases a <;> trivial

@[simp] theorem silent_guarded (placeholder : α) (m : Script α) :
    (guarded false placeholder m).Silent := trivial

@[simp] theorem silent_setHandles (f : Handles → Handles) : (setHandles f).Silent := trivial

@[simp] theorem silent_withHandles {f : Handles → Script α} :
    (withHandles f).Silent ↔ ∀ h, (f h).Silent := .rfl

@[simp] theorem silent_bind {m : Script α} {f : α → Script β} (hm : m.Silent)
    (hf : ∀ a, (f a).Silent) : (m >>= f).Silent := by
  induction m with
  | done a => exact hf a
  | fail diag => trivial
  | exit code => exact hm
  | look next ih => exact fun h => ih h (hm h)
  | change g next ih => exact ih hm
  | question op next ih => exact hm

end Script

open Script

section Silent

variable (span : Span) (message : String)

@[simp] theorem silent_allocPipe (readFd writeFd : ℤ) : (allocPipe readFd writeFd).Silent := by
  rw [allocPipe, silent_withHandles]
  intro h
  split <;> simp

@[simp] theorem silent_allocList : allocList.Silent := by
  rw [allocList, silent_withHandles]
  intro h
  split <;> simp

@[simp] theorem silent_allocMap : allocMap.Silent := by
  rw [allocMap, silent_withHandles]
  intro h
  split <;> simp

@[simp] theorem silent_storeResult (outcome : Outcome) :
    (storeResult span message outcome).Silent := by
  rw [storeResult, silent_withHandles]
  intro h
  split <;> simp

@[simp] theorem silent_readString (m : Script (Option Text)) :
    (readString false span message m).Silent := by simp [readString]

@[simp] theorem silent_readBytes (m : Script (Option Text)) :
    (readBytes false span message m).Silent := by simp [readBytes]

@[simp] theorem silent_effect (m : Script Bool) : (effect false span message m).Silent := trivial

@[simp] theorem silent_spawnFromValues (argv : List Text) (stdin stdout stderr : ℤ) :
    (spawnFromValues false argv stdin stdout stderr).Silent := by
  unfold spawnFromValues
  split <;> simp

@[simp] theorem silent_runProcess (argv : List Text) (capture : Bool) :
    (runProcess false argv capture).Silent := by
  unfold runProcess
  split <;> simp

/-- The builtin, if there is one, is silent. -/
def AllSilent (builtin : Option Routine) : Prop := ∀ r ∈ builtin, ∀ args, (r args).Silent

theorem AllSilent.of_none : AllSilent none := nofun

theorem AllSilent.of_some {r : Routine} (hr : ∀ args, (r args).Silent) : AllSilent (some r) := by
  rintro r' ⟨⟩
  exact hr

theorem AllSilent.ite {c : Prop} [Decidable c] {b b' : Option Routine} (hb : AllSilent b)
    (hb' : AllSilent b') : AllSilent (if c then b else b') := by
  split
  · exact hb
  · exact hb'

/-- Each builtin has tested the mode before its questions. -/
theorem silent_findBuiltin (getenv : Text → Option Text) (argv : List Text) (target name : Text) :
    AllSilent (findBuiltin getenv false span argv target name) := by
  unfold findBuiltin ioBuiltin fsBuiltin timeBuiltin textBuiltin jsonBuiltin bytesBuiltin
    listBuiltin mapBuiltin resultBuiltin testBuiltin netBuiltin procBuiltin
  repeat' first | refine AllSilent.ite ?_ ?_ | exact AllSilent.of_none | refine AllSilent.of_some ?_
  all_goals
    intro args
    simp only [ioPrint, ioReadAll, ioReadLine, ioReadFd, ioReadFdBytes, ioWriteFd, ioWriteFdBytes,
      ioClose, fsExists, fsIsDir, fsReadText, fsReadBytes, fsTryRead, fsListDir, fsWriteText,
      fsWriteBytes, fsMkdir, fsRemove, fsRename, fsChdir, fsCwd, pathQuestion, pathEffect,
      textsEffect, timeNowTicks, timeSleepTicks, textLen, textIndexOf, textSlice, textToI32,
      textContains, textTrim, textConcat, jsonValid, jsonGetStr, jsonGetBool, jsonGetI32, jsonGet,
      bytesFromText, bytesToText, bytesLen, textFunction, textsFunction, listNew, listLen, listPush,
      listGet, listSet, setList, listFunction, mapNew, mapLen, mapHas, mapGet, mapSet, mapRemove,
      setMap, mapKeyFunction, mapFunction, resultOk, resultErr, resultIsOk, resultError,
      resultValue, resultFunction, testAssertEq, testFail, netConnect, netListen, netAccept,
      netRead, netWrite, netWriteBytes, netPollRead, netClose, procArgvCount, procArgv, procEnv,
      procHasEnv, procStatusOk, procRun, procSpawn, procTryRun, procWait, procPipe, procPipeFd,
      procPipeClose, procSpawnIo, procFork, procExit, procStrings, unknownBuiltin]
    repeat' first | split | (rw [silent_withHandles]; intro h) | refine silent_bind ?_ fun _ => ?_
    all_goals first | trivial | simp

theorem silent_builtinScript (getenv : Text → Option Text) (argv : List Text) (target name : Text)
    (args : List Value) : (builtinScript getenv false span argv target name args).Silent := by
  unfold builtinScript
  split
  · trivial
  · next r hr => exact silent_findBuiltin span getenv argv target name r hr args

end Silent

variable {W α : Type} {sys : System W} {execute : Bool} {R : Host W → Host W → Prop}

/-- What changes of the handles and, in earnest, questions do to the host. -/
structure HostClosed (sys : System W) (execute : Bool) (R : Host W → Host W → Prop) : Prop where
  refl : ∀ h, R h h
  trans : ∀ {a b c}, R a b → R b c → R a c
  setHandles : ∀ f, Comp.Does R (setHandles f)
  ask : execute = true → ∀ op, Comp.Does R (ask sys op)

theorem HostClosed.script (h : HostClosed sys execute R) {script : Script α}
    (hscript : execute = true ∨ script.Silent) : Comp.Does R (script.run sys) := by
  induction script with
  | done a => exact Comp.Does.pure h.refl a
  | fail diag => exact Comp.Does.stop h.refl _
  | exit code => exact Comp.Does.stop h.refl _
  | look next ih => exact Comp.Does.view fun s => ih s.handles (hscript.imp_right fun hs => hs _) s
  | change f next ih => exact Comp.Does.bind (R := R) h.trans (h.setHandles f) fun _ => ih hscript
  | question op next ih =>
    have hask := hscript.resolve_right id
    exact Comp.Does.bind (R := R) h.trans (h.ask hask op) fun a => ih a (.inl hask)

theorem HostClosed.builtin (h : HostClosed sys execute R) (span : Span) (argv : List Text)
    (target name : Text) (args : List Value) :
    Comp.Does R (runBuiltin sys execute span argv target name args) := by
  refine h.script ?_
  cases execute
  · exact .inr (silent_builtinScript ..)
  · exact .inl rfl

end Sodex.Sx
