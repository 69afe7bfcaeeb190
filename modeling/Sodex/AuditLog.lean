import Sodex.CFormat
import Sodex.Runs

/-!
# The audit log of the agent

`audit_log` appends a line to a file, `audit_read_last` takes its first 8191 bytes apart again,
and `audit_rotate` keeps about the second half of them. The fields are printed as they are.
-/
namespace Sodex.Audit

open CInt CText CFormat Runs List Option

variable {s : Log} {io : Io}

def AUDIT_MAX_ENTRY : ℕ := 512

/-- What `audit_read_last` can read of the file. -/
def AUDIT_BUF : ℕ := 8191

def AUDIT_MAX_LINES : ℕ := 256

/-- The fields of `struct audit_entry`, as texts. -/
structure Record where
  timestamp : ℤ
  session : List UInt8
  step : ℤ
  action : List UInt8
  tool : List UInt8
  detail : List UInt8
  deriving DecidableEq, Repr

/-- A text that fits a buffer together with its terminating zero. -/
def FitsBuffer (cap : ℕ) (text : List UInt8) : Prop := text.length < cap ∧ 0 ∉ text

instance (cap : ℕ) (text : List UInt8) : Decidable (FitsBuffer cap text) :=
  inferInstanceAs (Decidable (_ ∧ _))

/-- `struct audit_entry`: two numbers, and texts in buffers of their own. -/
structure Entry extends Record where
  timestamp_int : -2147483648 ≤ timestamp ∧ timestamp < 2147483648
  step_int : -2147483648 ≤ step ∧ step < 2147483648
  session_fits : FitsBuffer 33 session
  action_fits : FitsBuffer 16 action
  tool_fits : FitsBuffer 64 tool
  detail_fits : FitsBuffer 256 detail

instance : DecidableEq Entry := fun a b =>
  decidable_of_iff (a.toRecord = b.toRecord)
    ⟨fun h => by cases a; cases b; simp_all, fun h => congrArg Entry.toRecord h⟩

/-- The line of an entry without its end. -/
def Record.body (r : Record) : List UInt8 :=
  ascii "[" ++ putInt r.timestamp ++ ascii "] session=" ++ r.session ++ ascii " step=" ++
    putInt r.step ++ ascii " " ++ r.action ++ ascii " " ++ r.tool ++ ascii " " ++ r.detail

/-- How the calls of the file system end. -/
structure Io where
  /-- `open` succeeds. -/
  opened : Bool
  /-- The most that `read` returns. -/
  readable : ℕ
  /-- The second `open` of `audit_rotate` succeeds. -/
  reopened : Bool
  /-- The most that `write` writes. -/
  written : ℕ

/-- `audit_log`; false for -1. What `write` returns is not looked at. -/
def auditLog (io : Io) (file : Option (List UInt8)) (e : Entry) : Bool × Option (List UInt8) :=
  let line := e.body ++ [10]
  if AUDIT_MAX_ENTRY ≤ line.length then (false, file)
  else if !io.opened then (false, file)
  else (true, some (file.getD [] ++ line.take io.written))

/-- One field of a line: it ends at a space, which is skipped, or when its buffer is full. -/
def readField (cap : ℕ) (text : List UInt8) : List UInt8 × List UInt8 :=
  let field := (text.takeWhile (· ≠ 32)).take cap
  let rest := text.drop field.length
  (field, if rest.head? = some 32 then rest.tail else rest)

/-- The fields after `step=`. -/
def readTail (r : Record) (stp : List UInt8) : Record :=
  let fp := stp.dropWhile (· ≠ 32)
  let action := readField 15 (if fp.head? = some 32 then fp.tail else fp)
  let tool := readField 63 action.2
  { r with step := strtol stp, action := action.1, tool := tool.1, detail := tool.2.take 255 }

/-- The body of the loop of `audit_read_last`. -/
def parseLine (line : List UInt8) : Option Record :=
  if line.head? = some 91 then
    let session := ((strstr (ascii "session=") line).map fun sp =>
      ((sp.drop 8).takeWhile (· ≠ 32)).take 32).getD []
    let r : Record := ⟨strtol line.tail, session, 0, [], [], []⟩
    match strstr (ascii "step=") line with
    | none => some r
    | some stp => some (readTail r (stp.drop 5))
  else none

/-- `audit_read_last`; `none` for -1. -/
def auditReadLast (io : Io) (file : Option (List UInt8)) (maxEntries : ℕ) : Option (List Record) :=
  if maxEntries = 0 ∨ !io.opened then none
  else
    file.map fun file =>
      let buf := file.take (min AUDIT_BUF io.readable)
      -- a line ends at a zero too
      (((lines buf).take AUDIT_MAX_LINES).rtake maxEntries).filterMap fun line =>
        parseLine (cstr line)

/-- Where `audit_rotate` cuts: after the first line end in the second half. -/
def rotateStart (buf : List UInt8) : ℕ :=
  let half := buf.length / 2
  match (buf.drop half).findIdx? (· = 10) with
  | none => half
  | some i => half + i + 1

/-- `audit_rotate`: the file afterwards, and how much of it was taken off. -/
def auditRotate (io : Io) (file : Option (List UInt8)) (maxSize : ℤ) :
    Option (List UInt8) × Option ℕ :=
  match file with
  | none => (none, none)
  | some text =>
    let buf := text.take (min AUDIT_BUF io.readable)
    let start := rotateStart buf
    if maxSize ≤ 0 ∨ !io.opened ∨ buf = [] ∨ (buf.length : ℤ) < maxSize ∨ buf.length ≤ start ∨
        !io.reopened then (some text, none)
    else (some ((buf.drop start).take io.written), some start)

/-- The log, and the entries that should be in it. -/
structure Log where
  file : Option (List UInt8)
  kept : List Entry

def Log.empty : Log := ⟨none, []⟩

inductive Call where
  | log (e : Entry)
  | rotate (maxSize : ℤ)

/-- A call that logs an entry, and one that rotates: what stood in whole lines before the cut is
not kept. -/
def logStep (s : Log) : Io × Call → Option Log
  | (io, .log e) =>
    let out := auditLog io s.file e
    some ⟨out.2, if out.1 then s.kept ++ [e] else s.kept⟩
  | (io, .rotate maxSize) =>
    let out := auditRotate io s.file maxSize
    some ⟨out.1, match out.2 with
      | none => s.kept
      | some start => s.kept.drop (((s.file.getD []).take start).count 10)⟩

/-- The separators of a line are not in its fields, nor is the key of the step in the session. -/
def Record.Plain (r : Record) : Prop :=
  (32 ∉ r.session ∧ 10 ∉ r.session ∧ ¬ascii "step=" <:+: r.session) ∧
    (32 ∉ r.action ∧ 10 ∉ r.action) ∧ (32 ∉ r.tool ∧ 10 ∉ r.tool) ∧ 10 ∉ r.detail

instance (r : Record) : Decidable r.Plain := inferInstanceAs (Decidable (_ ∧ _))

section RoundTrip

variable {field : List UInt8} (n : ℤ) (e : Entry) (r : Record)

theorem not_mem_putInt {c : UInt8} (hminus : c ≠ 45) (hdigit : isDigit c = false) :
    c ∉ putInt n := by
  intro hmem
  rcases mem_putInt hmem with h | h
  · exact hminus h
  · rw [hdigit] at h
    exact Bool.false_ne_true h

/-- The fields of a line from left to right. -/
theorem Record.body_eq : r.body = 91 :: (putInt r.timestamp ++ 93 :: 32 :: (ascii "session=" ++
      (r.session ++ 32 :: (ascii "step=" ++ (putInt r.step ++
        32 :: (r.action ++ 32 :: (r.tool ++ 32 :: r.detail))))))) := by
  have hopen : ascii "[" = [91] := by decide
  have hsession : ascii "] session=" = 93 :: 32 :: ascii "session=" := by decide
  have hstep : ascii " step=" = 32 :: ascii "step=" := by decide
  have hspace : ascii " " = [32] := by decide
  simp only [Record.body, hopen, hsession, hstep, hspace, append_assoc, cons_append,
    nil_append]

theorem takeWhile_field (h : 32 ∉ field) (rest : List UInt8) :
    (field ++ 32 :: rest).takeWhile (· ≠ 32) = field := by
  rw [takeWhile_append_of_pos fun c hc => by simpa using fun hc' : c = 32 => h (hc' ▸ hc)]
  simp

theorem dropWhile_field (h : 32 ∉ field) (rest : List UInt8) :
    (field ++ 32 :: rest).dropWhile (· ≠ 32) = 32 :: rest := by
  rw [dropWhile_append_of_pos fun c hc => by simpa using fun hc' : c = 32 => h (hc' ▸ hc)]
  simp

theorem readField_field {cap : ℕ} (h : 32 ∉ field) (hlen : field.length ≤ cap) (rest : List UInt8) :
    readField cap (field ++ 32 :: rest) = (field, rest) := by
  simp only [readField, takeWhile_field h, take_of_length_le hlen, drop_left,
    head?_cons, if_true, tail_cons]

theorem readTail_fields {step : ℤ} {action tool detail : List UInt8}
    (hstep : -2147483648 ≤ step ∧ step < 2147483648) (haction : 32 ∉ action ∧ action.length ≤ 15)
    (htool : 32 ∉ tool ∧ tool.length ≤ 63) (hdetail : detail.length ≤ 255) :
    readTail r (putInt step ++ 32 :: (action ++ 32 :: (tool ++ 32 :: detail))) =
      { r with step := step, action := action, tool := tool, detail := detail } := by
  have hends : Ends (32 :: (action ++ 32 :: (tool ++ 32 :: detail))) := by
    simp [Ends, isDigit]
  simp only [readTail, strtol_putInt hstep.1 hstep.2 hends,
    dropWhile_field (not_mem_putInt step (by decide) (by decide)), head?_cons, if_true,
    tail_cons, readField_field haction.1 haction.2, readField_field htool.1 htool.2,
    take_of_length_le hdetail]

/-- A key that starts with `s` is not in the timestamp. -/
theorem strstr_stamp (key rest : List UInt8) :
    strstr (115 :: key) (91 :: (putInt n ++ 93 :: 32 :: rest)) = strstr (115 :: key) rest := by
  have hskip : (115 : UInt8) ∉ 91 :: (putInt n ++ [93, 32]) := by
    have hnum := not_mem_putInt (c := 115) n (by decide) (by decide)
    simp [hnum]
  have hsplit : 91 :: (putInt n ++ 93 :: 32 :: rest) = (91 :: (putInt n ++ [93, 32])) ++ rest := by
    simp
  rw [hsplit, strstr_skip _ hskip]

/-- The key of the session is found behind the timestamp. -/
theorem strstr_session (rest : List UInt8) :
    strstr (ascii "session=") (91 :: (putInt n ++ 93 :: 32 :: (ascii "session=" ++ rest))) =
      some (ascii "session=" ++ rest) := by
  have hkey : ascii "session=" = 115 :: ascii "ession=" := by decide
  rw [hkey, strstr_stamp, ← hkey, strstr_found]

/-- The key of the step is found behind the session. -/
theorem strstr_step {session : List UInt8} (h : ¬ascii "step=" <:+: session) (rest : List UInt8) :
    strstr (ascii "step=") (91 :: (putInt n ++ 93 :: 32 :: (ascii "session=" ++
      (session ++ 32 :: (ascii "step=" ++ rest))))) = some (ascii "step=" ++ rest) := by
  have hkey : ascii "step=" = 115 :: ascii "tep=" := by decide
  have hover : ∀ text, strstr (ascii "step=") (ascii "session=" ++ text) =
      strstr (ascii "step=") text := by
    intro text
    simp [ascii, strstr, isPrefixOf]
  have hspace : strstr (ascii "step=") (32 :: (ascii "step=" ++ rest)) =
      strstr (ascii "step=") (ascii "step=" ++ rest) := by
    simp [ascii, strstr, isPrefixOf]
  rw [hkey, strstr_stamp, ← hkey, hover, strstr_before (by decide) _ h, hspace, strstr_found]

theorem Entry.parseLine_body (h : e.Plain) : parseLine e.body = some e.toRecord := by
  obtain ⟨⟨hsession, -, hstep⟩, ⟨haction, -⟩, ⟨htool, -⟩, -⟩ := h
  have hends : ∀ text, Ends (93 :: text) := fun text => by simp [Ends, isDigit]
  have hsessionlen : e.session.length ≤ 32 := Nat.le_of_lt_succ e.session_fits.1
  have htail := fun r => readTail_fields r e.step_int
    ⟨haction, Nat.le_of_lt_succ e.action_fits.1⟩ ⟨htool, Nat.le_of_lt_succ e.tool_fits.1⟩
    (Nat.le_of_lt_succ e.detail_fits.1)
  rw [Record.body_eq]
  simp only [parseLine, head?_cons, if_true, strstr_session, strstr_step _ hstep, map_some, getD_some,
    tail_cons, strtol_putInt e.timestamp_int.1 e.timestamp_int.2 (hends _)]
  have hdrop : ∀ text, (ascii "session=" ++ text).drop 8 = text := fun text => by simp [ascii]
  have hdrop' : ∀ text, (ascii "step=" ++ text).drop 5 = text := fun text => by simp [ascii]
  rw [hdrop, hdrop', takeWhile_field hsession, take_of_length_le hsessionlen, htail]

theorem Entry.body_one_line (h : e.Plain) : 10 ∉ e.body := by
  obtain ⟨⟨-, hsession, -⟩, ⟨-, haction⟩, ⟨-, htool⟩, hdetail⟩ := h
  have hts := not_mem_putInt (c := 10) e.timestamp (by decide) (by decide)
  have hst := not_mem_putInt (c := 10) e.step (by decide) (by decide)
  rw [Record.body_eq]
  simp [ascii, hts, hst, hsession, haction, htool, hdetail]

theorem Entry.zero_not_mem_body : 0 ∉ e.body := by
  have hts := not_mem_putInt (c := 0) e.timestamp (by decide) (by decide)
  have hst := not_mem_putInt (c := 0) e.step (by decide) (by decide)
  rw [Record.body_eq]
  simp [ascii, hts, hst, e.session_fits.2, e.action_fits.2, e.tool_fits.2, e.detail_fits.2]

end RoundTrip

/-- The file is made of the lines of the entries kept. -/
def Log.Written (s : Log) : Prop :=
  (∀ e ∈ s.kept, e.Plain) ∧ s.file.getD [] = unlines (s.kept.map fun e => e.body)

theorem Log.Written.kept_nil {l : Log} (h : l.Written) (hfile : l.file = none) : l.kept = [] := by
  have hlines := h.2
  rw [hfile] at hlines
  cases hkept : l.kept with
  | nil => rfl
  | cons e rest =>
    rw [hkept] at hlines
    simp [unlines] at hlines

theorem Log.Written.one_line (h : s.Written) :
    ∀ body ∈ s.kept.map (fun e => e.body), 10 ∉ body := by
  intro body hbody
  obtain ⟨e, he, rfl⟩ := mem_map.mp hbody
  exact e.body_one_line (h.1 e he)

/-- A plain entry is logged and its line is written whole; a file that is rewritten was read whole
and its rest is written whole. -/
def Undisturbed (s : Log) : Io × Call → Prop
  | (io, .log e) => io.opened → e.Plain ∧ e.body.length < io.written
  | (io, .rotate maxSize) =>
    (auditRotate io s.file maxSize).2.isSome →
      (s.file.getD []).length ≤ min AUDIT_BUF io.readable ∧ (s.file.getD []).length ≤ io.written

instance (s : Log) : ∀ call, Decidable (Undisturbed s call)
  | (_, .log _) => inferInstanceAs (Decidable (_ → _))
  | (_, .rotate _) => inferInstanceAs (Decidable (_ → _))

theorem Log.written_empty : Log.empty.Written := by
  simp [Log.Written, Log.empty]

theorem auditLog_cases (io : Io) (file : Option (List UInt8)) (e : Entry) :
    auditLog io file e = (false, file) ∨
      io.opened = true ∧
        auditLog io file e = (true, some (file.getD [] ++ (e.body ++ [10]).take io.written)) := by
  unfold auditLog
  by_cases hlen : AUDIT_MAX_ENTRY ≤ (e.body ++ [10]).length
  · exact .inl (if_pos hlen)
  · rw [if_neg hlen]
    cases hopen : io.opened
    · exact .inl rfl
    · exact .inr ⟨rfl, rfl⟩

theorem Log.Written.log (h : s.Written) {e : Entry} (hstep : Undisturbed s (io, .log e)) :
    Log.Written ⟨(auditLog io s.file e).2,
      if (auditLog io s.file e).1 then s.kept ++ [e] else s.kept⟩ := by
  rcases auditLog_cases io s.file e with hlog | ⟨hopen, hlog⟩
  · rw [hlog]
    exact h
  · obtain ⟨hplain, hlen⟩ := hstep hopen
    have hwhole : (e.body ++ [10]).take io.written = unlines [e.body] := by
      rw [take_of_length_le (by rw [length_append]; exact hlen)]
      simp [unlines]
    rw [hlog, hwhole, h.2, ← unlines_append]
    constructor
    · intro e' he'
      rcases mem_append.mp he' with he' | he'
      · exact h.1 e' he'
      · exact mem_singleton.mp he' ▸ hplain
    · simp

/-- A rotation cuts at the start, or behind a line end. -/
theorem rotateStart_cut {buf : List UInt8} (h : buf.getLast? = some 10) :
    rotateStart buf = 0 ∨ buf[rotateStart buf - 1]? = some 10 := by
  simp only [rotateStart]
  split
  · rename_i hnone
    by_cases hhalf : buf.length / 2 < buf.length
    · -- the last byte is a line end in the second half
      have hlast : buf.getLast? = (buf.drop (buf.length / 2)).getLast? := by
        rw [getLast?_drop, if_neg (by omega)]
      have hmem : (10 : UInt8) ∈ buf.drop (buf.length / 2) :=
        mem_of_getLast? (hlast ▸ h)
      simpa using findIdx?_eq_none_iff.mp hnone 10 hmem
    · left
      omega
  · rename_i i hi
    right
    obtain ⟨hlt, hat, -⟩ := findIdx?_eq_some_iff_getElem.mp hi
    have hten : (buf.drop (buf.length / 2))[i]? = some 10 := by
      rw [getElem?_eq_getElem hlt]
      exact congrArg some (by simpa using hat)
    rwa [Nat.add_sub_cancel, ← getElem?_drop]

theorem getLast?_unlines {bodies : List (List UInt8)} (h : bodies ≠ []) :
    (unlines bodies).getLast? = some 10 := by
  rw [← dropLast_append_getLast h, unlines_append]
  simp [unlines]

theorem Log.Written.rotate (h : s.Written) {maxSize : ℤ}
    (hstep : Undisturbed s (io, .rotate maxSize)) :
    Log.Written ⟨(auditRotate io s.file maxSize).1,
      match (auditRotate io s.file maxSize).2 with
      | none => s.kept
      | some start => s.kept.drop (((s.file.getD []).take start).count 10)⟩ := by
  obtain ⟨file, kept⟩ := s
  cases file with
  | none => exact h
  | some text =>
    have htext : text = unlines (kept.map fun e => e.body) := h.2
    simp only [Undisturbed, auditRotate] at hstep ⊢
    split
    · exact h
    · rename_i hcond
      rw [if_neg hcond] at hstep
      obtain ⟨hread, hwrite⟩ := hstep rfl
      simp only [getD_some] at hread hwrite ⊢
      rw [take_of_length_le hread] at hcond ⊢
      have hne : kept.map (fun e => e.body) ≠ [] := by
        intro hnil
        exact hcond (.inr (.inr (.inl (by rw [htext, hnil]; rfl))))
      have hcut := rotateStart_cut (htext ▸ getLast?_unlines hne)
      rw [htext] at hcut
      refine ⟨fun e he => h.1 e (mem_of_mem_drop he), ?_⟩
      have hrest : ((text.drop (rotateStart text)).take io.written) =
          text.drop (rotateStart text) :=
        take_of_length_le (by rw [length_drop]; omega)
      calc (text.drop (rotateStart text)).take io.written
          = text.drop (rotateStart text) := hrest
        _ = unlines ((kept.map fun e => e.body).drop
              ((text.take (rotateStart text)).count 10)) := by
            rw [htext]
            exact drop_unlines h.one_line hcut
        _ = _ := by rw [map_drop]

/-- What reads the log: the file opens, is read whole, and has few enough lines. -/
def Readable (io : Io) (s : Log) : Prop :=
  io.opened = true ∧ s.file.isSome ∧ (s.file.getD []).length ≤ min AUDIT_BUF io.readable ∧
    s.kept.length ≤ AUDIT_MAX_LINES

instance (io : Io) (s : Log) : Decidable (Readable io s) := inferInstanceAs (Decidable (_ ∧ _))

theorem Log.Written.read_last (h : s.Written) (hread : Readable io s) {n : ℕ} (hn : 0 < n) :
    auditReadLast io s.file n = some ((s.kept.rtake n).map Entry.toRecord) := by
  obtain ⟨file, kept⟩ := s
  obtain ⟨hopen, hsome, hlen, hcount⟩ := hread
  obtain ⟨text, rfl⟩ := isSome_iff_exists.mp hsome
  have htext : text = unlines (kept.map fun e => e.body) := h.2
  have hlines : lines text = kept.map fun e => e.body := by rw [htext, lines_unlines h.one_line]
  have hrtake : (kept.map fun e => e.body).rtake n = (kept.rtake n).map fun e => e.body := by
    simp [rtake]
  have hparse : ∀ e ∈ kept.rtake n, parseLine (cstr e.body) = some e.toRecord := by
    intro e he
    rw [cstr_eq_self e.zero_not_mem_body]
    exact e.parseLine_body (h.1 e (mem_of_mem_drop he))
  have hcond : ¬(n = 0 ∨ (!io.opened) = true) := by
    rw [hopen]
    simpa using Nat.pos_iff_ne_zero.mp hn
  have hbuf : text.take (min AUDIT_BUF io.readable) = text := take_of_length_le hlen
  have hall : (kept.map fun e => e.body).take AUDIT_MAX_LINES = kept.map fun e => e.body :=
    take_of_length_le (by rw [length_map]; exact hcount)
  simp only [auditReadLast, if_neg hcond, map_some, some.injEq]
  rw [hbuf, hlines, hall, hrtake, filterMap_map]
  rw [filterMap_eq_map_iff_forall_eq_some]
  intro e he
  rw [Function.comp_apply]
  exact hparse e he

theorem Log.Written.step {s' : Log} (h : s.Written) {call : Io × Call}
    (hcall : Undisturbed s call) (hstep : logStep s call = some s') : s'.Written := by
  obtain ⟨io, call⟩ := call
  cases call with
  | log e => exact some.inj hstep ▸ h.log hcall
  | rotate maxSize => exact some.inj hstep ▸ h.rotate hcall

theorem Log.Written.run {s' : Log} (h : s.Written) {calls : List (Io × Call)}
    (hcalls : Along logStep Undisturbed s calls) (hrun : Runs.run logStep s calls = some s') :
    s'.Written :=
  run_preserves (fun _ _ _ hs hcall hstep => hs.step hcall hstep) calls s s' h hcalls hrun

/-- In every run in which plain entries are logged and no line is cut off, the file is made of the
lines of the entries kept, and the last of them are read as they were logged. -/
theorem audit_faithful (calls : List (Io × Call)) (s : Log)
    (hrun : run logStep Log.empty calls = some s)
    (hcalls : Along logStep Undisturbed Log.empty calls) :
    s.file.getD [] = unlines (s.kept.map fun e => e.body) ∧
      ∀ io n, Readable io s → 0 < n →
        auditReadLast io s.file n = some ((s.kept.rtake n).map Entry.toRecord) := by
  have hwritten : s.Written := Log.written_empty.run hcalls hrun
  exact ⟨hwritten.2, fun io n hread hn => hwritten.read_last hread hn⟩

/-- Everything is read and written as it should. -/
def wholeIo : Io := ⟨true, AUDIT_BUF, true, AUDIT_BUF⟩

theorem fits_session : FitsBuffer 33 (ascii "s1") := by decide

theorem fits_runCommand : FitsBuffer 64 (ascii "run_command") := by decide

/-- An entry for a tool that ran. -/
def executed (detail : List UInt8) (h : FitsBuffer 256 detail) : Entry :=
  have haction : FitsBuffer 16 (ascii "execute") := by decide
  ⟨⟨5, ascii "s1", 1, ascii "execute", ascii "run_command", detail⟩, by norm_num, by norm_num,
    fits_session, haction, fits_runCommand, h⟩

/-- Three entries are logged and the oldest two are rotated out. -/
def threeExecuted : List (Io × Call) :=
  [(wholeIo, .log (executed (ascii "ls") (by decide))),
    (wholeIo, .log (executed (ascii "cat a step=2") (by decide))),
    (wholeIo, .log (executed (ascii "[pwd]") (by decide))), (wholeIo, .rotate 64)]

theorem threeExecuted_faithful : ∃ s, run logStep Log.empty threeExecuted = some s ∧
      s.kept = [executed (ascii "[pwd]") (by decide)] ∧ Readable wholeIo s ∧
      auditReadLast wholeIo s.file 2 = some ((s.kept.rtake 2).map Entry.toRecord) := by
  have hrun : (run logStep Log.empty threeExecuted).map (fun s => decide
      (s.kept = [executed (ascii "[pwd]") (by decide)] ∧ Readable wholeIo s)) = some true := by
    decide +kernel
  obtain ⟨s, hs, hreads⟩ := map_eq_some_iff.mp hrun
  obtain ⟨hkept, hread⟩ := of_decide_eq_true hreads
  exact ⟨s, hs, hkept, hread,
    (audit_faithful threeExecuted s hs (by decide +kernel)).2 wholeIo 2 hread (by decide)⟩

/-- A line end in the detail starts an entry of its own. -/
def forging : Entry :=
  executed (ascii "x" ++ 10 :: ascii "[7] session=s2 step=9 execute read_file /etc/a") (by decide)

theorem detail_forges_entry :
    ∃ s, run logStep Log.empty [(wholeIo, .log forging)] = some s ∧ s.kept = [forging] ∧
      Readable wholeIo s ∧
      auditReadLast wholeIo s.file 8 = some
        [(executed (ascii "x") (by decide)).toRecord,
          ⟨7, ascii "s2", 9, ascii "execute", ascii "read_file", ascii "/etc/a"⟩] := by
  have hrun : (run logStep Log.empty [(wholeIo, .log forging)]).map (fun s => decide
      (s.kept = [forging] ∧ Readable wholeIo s ∧
      auditReadLast wholeIo s.file 8 = some
        [(executed (ascii "x") (by decide)).toRecord,
          ⟨7, ascii "s2", 9, ascii "execute", ascii "read_file", ascii "/etc/a"⟩])) = some true := by
    decide +kernel
  obtain ⟨s, hs, hread⟩ := map_eq_some_iff.mp hrun
  exact ⟨s, hs, of_decide_eq_true hread⟩

end Sodex.Audit
