import Sodex.RingBuffer

/-!
# The bytes of a pipe

`pipe_read`, `pipe_write` and `pipe_close` on one pipe. It is an assumption here that a call runs
without interruption up to the point where a reader goes to sleep: system calls enter with
interrupts on, and the source takes no lock. Readers that sleep may be woken at any time.
-/
namespace Sodex.Pipe

open RingBuffer

def PIPE_BUFFER_SIZE : ℕ := 4096

/-- `struct pipe_info` without its wait queues. -/
structure PipeInfo where
  buffer : ℕ → UInt8
  readPos : ℕ
  writePos : ℕ
  dataSize : ℕ
  readOpen : ℕ
  writeOpen : ℕ

/-- What `pipe` sets up. -/
def PipeInfo.init : PipeInfo := ⟨fun _ => 0, 0, 0, 0, 1, 1⟩

/-- `pipe_read`: the bytes read, or `none` if the reader goes to sleep. -/
def pipeRead (p : PipeInfo) (count : ℕ) : Option (List UInt8 × PipeInfo) :=
  if p.dataSize = 0 then if p.writeOpen = 0 then some ([], p) else none
  else
    let total := min count p.dataSize
    let firstChunk := min (PIPE_BUFFER_SIZE - p.readPos) total
    let bytes := fetch p.buffer p.readPos firstChunk ++ fetch p.buffer 0 (total - firstChunk)
    some (bytes,
      { p with
        readPos := (p.readPos + total) % PIPE_BUFFER_SIZE
        dataSize := p.dataSize - total })

/-- `pipe_write`: how many of the bytes were accepted, `none` for -1. -/
def pipeWrite (p : PipeInfo) (src : List UInt8) : Option ℕ × PipeInfo :=
  if p.readOpen = 0 then (none, p)
  else
    let total := min src.length (PIPE_BUFFER_SIZE - p.dataSize)
    if total = 0 then (some 0, p)
    else
      let firstChunk := min (PIPE_BUFFER_SIZE - p.writePos) total
      let buffer := store p.buffer p.writePos (src.take firstChunk)
      (some total,
        { p with
          buffer := store buffer 0 ((src.take total).drop firstChunk)
          writePos := (p.writePos + total) % PIPE_BUFFER_SIZE
          dataSize := p.dataSize + total })

/-- The calls of the processes that share a pipe, and what they come back to. -/
inductive Call where
  | read (count : ℕ)
  | write (src : List UInt8)
  /-- A reader is woken, perhaps by a signal. -/
  | wake (reader : ℕ) (signal : Bool)
  | closeRead
  | closeWrite
  deriving DecidableEq, Repr

/-- A pipe, the sleeping readers with their counts, and the bytes that writes have accepted and that
reads have returned so far. -/
structure Stream where
  pipe : PipeInfo
  sleepers : List ℕ
  accepted : List UInt8
  received : List UInt8

def Stream.init : Stream := ⟨.init, [], [], []⟩

def Stream.step (s : Stream) : Call → Stream
  | .read count =>
    match pipeRead s.pipe count with
    | none => { s with sleepers := s.sleepers ++ [count] }
    | some (bytes, p) => { s with pipe := p, received := s.received ++ bytes }
  | .write src =>
    let (ret, p) := pipeWrite s.pipe src
    { s with pipe := p, accepted := s.accepted ++ src.take (ret.getD 0) }
  | .wake reader signal =>
    match s.sleepers[reader]? with
    | none => s
    | some count =>
      if s.pipe.dataSize = 0 ∧ s.pipe.writeOpen ≠ 0 ∧ signal then
        { s with sleepers := s.sleepers.eraseIdx reader }
      else
        match pipeRead s.pipe count with
        | none => s
        | some (bytes, p) =>
          { s with
            pipe := p
            sleepers := s.sleepers.eraseIdx reader
            received := s.received ++ bytes }
  | .closeRead => { s with pipe := { s.pipe with readOpen := s.pipe.readOpen - 1 } }
  | .closeWrite => { s with pipe := { s.pipe with writeOpen := s.pipe.writeOpen - 1 } }

def PipeInfo.waiting (p : PipeInfo) : List UInt8 :=
  content p.buffer PIPE_BUFFER_SIZE p.readPos p.dataSize

def PipeInfo.Ok (p : PipeInfo) : Prop :=
  Filled PIPE_BUFFER_SIZE p.buffer p.writePos p.readPos p.dataSize p.waiting

/-- A read takes the bytes it returns from the front. -/
theorem pipeRead_waiting {p p' : PipeInfo} {count : ℕ} {bytes : List UInt8} (h : p.Ok)
    (hread : pipeRead p count = some (bytes, p')) : p'.Ok ∧ p.waiting = bytes ++ p'.waiting := by
  unfold pipeRead at hread
  split at hread
  · split at hread
    · obtain ⟨rfl, rfl⟩ := Prod.mk.inj (Option.some.inj hread)
      exact ⟨h, rfl⟩
    · exact nomatch hread
  obtain ⟨hbytes, hp⟩ := Prod.mk.inj (Option.some.inj hread)
  subst hp
  have hle := h.fits
  generalize htotal : min count p.dataSize = total at *
  obtain ⟨htake, hdrop⟩ := h.drop (by omega : total ≤ p.dataSize)
  rw [fetch_wrap h.tail_lt (by omega), htake] at hbytes
  have hrest : content p.buffer PIPE_BUFFER_SIZE _ _ = p.waiting.drop total := hdrop.holds
  subst hbytes
  rw [PipeInfo.Ok, PipeInfo.waiting, hrest, List.take_append_drop]
  exact ⟨hdrop, rfl⟩

/-- A write appends the bytes it accepts. -/
theorem pipeWrite_waiting {p : PipeInfo} (src : List UInt8) (h : p.Ok) : (pipeWrite p src).2.Ok ∧
      (pipeWrite p src).2.waiting = p.waiting ++ src.take ((pipeWrite p src).1.getD 0) := by
  unfold pipeWrite
  split
  · exact ⟨h, by simp⟩
  dsimp only
  split
  · exact ⟨h, by simp⟩
  obtain ⟨total, htotal⟩ :
    ∃ total, min src.length (PIPE_BUFFER_SIZE - p.dataSize) = total := ⟨_, rfl⟩
  have hlength : (src.take total).length = total := by rw [List.length_take]; omega
  have hstore := push_eq_store_wrap (src.take total) p.buffer h.head_lt (by omega) rfl
  have hpush := h.push (by omega : p.dataSize + (src.take total).length ≤ _)
  rw [hlength, List.take_take, min_eq_left (min_le_right _ _)] at hstore
  rw [hlength, hstore, push_head _ _ h.head_lt, hlength] at hpush
  rw [htotal]
  have hafter : content _ PIPE_BUFFER_SIZE _ _ = p.waiting ++ src.take total := hpush.holds
  rw [PipeInfo.Ok, PipeInfo.waiting, hafter]
  exact ⟨hpush, rfl⟩

/-- The pipe is in order, and what has been accepted is what has been received and what waits. -/
structure Stream.Ok (s : Stream) : Prop where
  pipe : s.pipe.Ok
  fifo : s.accepted = s.received ++ s.pipe.waiting

theorem Stream.Ok.read {s : Stream} (h : s.Ok) {count : ℕ} {bytes : List UInt8} {p : PipeInfo}
    (hread : pipeRead s.pipe count = some (bytes, p)) (sleepers : List ℕ) :
    Stream.Ok { s with pipe := p, sleepers := sleepers, received := s.received ++ bytes } := by
  obtain ⟨hok, hwaiting⟩ := pipeRead_waiting h.pipe hread
  refine ⟨hok, ?_⟩
  rw [h.fifo, hwaiting, List.append_assoc]

theorem Stream.Ok.step {s : Stream} (h : s.Ok) (call : Call) : (s.step call).Ok := by
  cases call with
  | read count =>
    cases hread : pipeRead s.pipe count with
    | none =>
      simp only [Stream.step, hread]
      exact ⟨h.pipe, h.fifo⟩
    | some out =>
      simp only [Stream.step, hread]
      exact h.read hread s.sleepers
  | write src =>
    obtain ⟨hok, hwaiting⟩ := pipeWrite_waiting src h.pipe
    refine ⟨hok, ?_⟩
    change s.accepted ++ src.take ((pipeWrite s.pipe src).1.getD 0) =
      s.received ++ (pipeWrite s.pipe src).2.waiting
    rw [h.fifo, hwaiting, List.append_assoc]
  | wake reader signal =>
    simp only [Stream.step]
    split
    · exact h
    rename_i count _
    split
    · exact ⟨h.pipe, h.fifo⟩
    cases hread : pipeRead s.pipe count with
    | none => exact h
    | some out => exact h.read hread _
  | closeRead => exact ⟨h.pipe, h.fifo⟩
  | closeWrite => exact ⟨h.pipe, h.fifo⟩

theorem Stream.ok_run (calls : List Call) : (calls.foldl Stream.step .init).Ok :=
  List.foldlRecOn calls Stream.step ⟨⟨rfl, by decide, by decide, rfl⟩, rfl⟩
    fun _ h call _ => h.step call

/-- Whatever the calls and their order, the positions stay in order, and the bytes that have been
read, followed by those in the pipe, are the bytes that have been accepted. -/
theorem pipe_is_fifo (calls : List Call) : let s := calls.foldl Stream.step .init
    s.pipe.dataSize ≤ PIPE_BUFFER_SIZE ∧
      s.pipe.writePos = (s.pipe.readPos + s.pipe.dataSize) % PIPE_BUFFER_SIZE ∧
      s.received <+: s.accepted ∧ s.accepted = s.received ++ s.pipe.waiting ∧
      s.pipe.waiting.length = s.pipe.dataSize := by
  have h := Stream.ok_run calls
  exact ⟨h.pipe.fits, h.pipe.head_eq, ⟨_, h.fifo.symm⟩, h.fifo, length_content⟩

/-- Both calls are those of a bounded queue of the bytes that are under way. -/
theorem pipe_calls_exact (calls : List Call) (count : ℕ) (src : List UInt8) :
    let s := calls.foldl Stream.step .init
    let queue := s.accepted.drop s.received.length
    (pipeRead s.pipe count).map Prod.fst =
        (if queue = [] ∧ s.pipe.writeOpen ≠ 0 then none else some (queue.take count)) ∧
      (pipeWrite s.pipe src).1 = if s.pipe.readOpen = 0 then none
        else some (min src.length (PIPE_BUFFER_SIZE - queue.length)) := by
  intro s queue
  have h : s.Ok := Stream.ok_run calls
  have hqueue : queue = s.pipe.waiting := by
    simp only [queue, h.fifo, List.drop_left]
  have hlen : s.pipe.waiting.length = s.pipe.dataSize := length_content
  rw [hqueue, hlen]
  constructor
  · by_cases hempty : s.pipe.dataSize = 0
    · have hnil : s.pipe.waiting = [] := List.length_eq_zero_iff.mp (hlen.trans hempty)
      rw [pipeRead, if_pos hempty, hnil]
      split_ifs <;> simp_all
    · have hne : s.pipe.waiting ≠ [] := fun hnil => hempty (by rw [← hlen, hnil]; rfl)
      rw [if_neg fun hnil => hne hnil.1]
      cases hread : pipeRead s.pipe count with
      | none => simp [pipeRead, hempty] at hread
      | some out =>
        have hwaiting := (pipeRead_waiting h.pipe hread).2
        have htotal : out.1.length = min count s.pipe.dataSize := by
          rw [pipeRead, if_neg hempty] at hread
          rw [← Option.some.inj hread]
          simp [fetch]
        rw [Option.map_some, List.take_eq_take_min, hlen, ← htotal, hwaiting, List.take_left]
  · unfold pipeWrite
    split
    · rfl
    · dsimp only
      split_ifs with hfull
      · rw [hfull]
      · rfl

end Sodex.Pipe
