import Sodex.CText
import Sodex.Runs

/-!
# The event stream of a response

`sse_feed` reads the bytes of one received chunk, ends a line at LF, CR or CRLF and gives out an
event at an empty line. Whether an LF belongs to the CR before it is asked inside the chunk only.
-/
namespace Sodex.Sse

open CText Runs

def SSE_MAX_EVENT_NAME : ℕ := 64
def SSE_MAX_DATA_LEN : ℕ := 8192

abbrev Line := List UInt8

/-- `struct sse_event`: the name before its terminator and the `data_len` bytes of the data. -/
structure Event where
  eventName : List UInt8
  data : List UInt8
  deriving DecidableEq

/-- The event being built. -/
structure Pending where
  event : Event
  hasEventName : Bool
  hasData : Bool
  deriving DecidableEq

def resetPending : Pending := ⟨⟨[], []⟩, false, false⟩

/-- What stands behind the colon of a field, without one leading space. -/
def fieldValue (line : Line) : List UInt8 :=
  let value := after 58 line
  if value.head? = some 32 then value.tail else value

/-- The data as it is given out. -/
def Pending.trimmed (p : Pending) : List UInt8 :=
  if p.event.data.getLast? = some 10 then p.event.data.dropLast else p.event.data

/-- `process_line`: a line without its end, and the event it gives out. -/
def processLine (p : Pending) (line : Line) : Pending × Option Event :=
  if line = [] then
    if p.hasData then
      let name := if p.hasEventName then p.event.eventName else ascii "message"
      (resetPending, some ⟨name, p.trimmed⟩)
    else (resetPending, none)
  else if line.head? = some 58 then (p, none)
  else if before 58 line = ascii "event" then
    let name := (fieldValue line).take (SSE_MAX_EVENT_NAME - 1)
    ({ p with event.eventName := name, hasEventName := true }, none)
  else if before 58 line = ascii "data" then
    if p.event.data.length + (fieldValue line).length + 1 < SSE_MAX_DATA_LEN then
      ({ p with event.data := p.event.data ++ fieldValue line ++ [10], hasData := true }, none)
    else (p, none)
  else (p, none)

/-- `struct sse_parser`. The last field is a history variable: the lines that were handed to
`process_line` so far. -/
structure Parser where
  lineBuf : Line
  pending : Pending
  consumed : ℕ
  ended : List Line
  deriving DecidableEq

def sseParserInit : Parser := ⟨[], resetPending, 0, []⟩

inductive Answer where
  | data (event : Event)
  | needMore
  | error
  deriving DecidableEq

/-- The parser after the line in its buffer, read up to `next`. -/
def Parser.endLine (p : Parser) (next : ℕ) : Parser :=
  ⟨[], (processLine p.pending p.lineBuf).1, next, p.ended ++ [p.lineBuf]⟩

/-- The loop over the bytes of a chunk of `len` bytes that are still to be read. -/
def feedLoop (len : ℕ) (p : Parser) : List UInt8 → Parser × Answer
  | [] => ({ p with consumed := len }, .needMore)
  | 13 :: 10 :: rest =>
    match (processLine p.pending p.lineBuf).2 with
    | some event => (p.endLine (len - rest.length), .data event)
    | none => feedLoop len (p.endLine (len - rest.length)) rest
  | c :: rest =>
    if c = 10 ∨ c = 13 then
      match (processLine p.pending p.lineBuf).2 with
      | some event => (p.endLine (len - rest.length), .data event)
      | none => feedLoop len (p.endLine (len - rest.length)) rest
    else if p.lineBuf.length < SSE_MAX_DATA_LEN - 1 then
      feedLoop len { p with lineBuf := p.lineBuf ++ [c] } rest
    else ({ p with consumed := len }, .error)

def sseFeed (p : Parser) (chunk : List UInt8) : Parser × Answer :=
  if chunk = [] then ({ p with consumed := 0 }, .needMore)
  else feedLoop chunk.length p (chunk.drop p.consumed)

/-- The parser and the events its caller has got. -/
structure Session where
  parser : Parser
  delivered : List Event
  deriving DecidableEq

/-- The caller's loop: `sse_feed` is called until it asks for more. There is no result when it
reports an error, or when the calls do not come to an end. -/
def feedUntilMore (chunk : List UInt8) : ℕ → Session → Option Session
  | 0, _ => none
  | calls + 1, s =>
    match sseFeed s.parser chunk with
    | (p, .data event) => feedUntilMore chunk calls ⟨p, s.delivered ++ [event]⟩
    | (p, .needMore) => some ⟨p, s.delivered⟩
    | (_, .error) => none

/-- One chunk; every call but the last gives out an event and reads a byte. -/
def feedChunk (s : Session) (chunk : List UInt8) : Option Session :=
  feedUntilMore chunk (chunk.length + 1) { s with parser.consumed := 0 }

def feedChunks (chunks : List (List UInt8)) : Option Session :=
  run feedChunk ⟨sseParserInit, []⟩ chunks

/-- The events delivered for a stream that arrives in these chunks. -/
def delivered (chunks : List (List UInt8)) : Option (List Event) :=
  (feedChunks chunks).map (·.delivered)

/-- The lines that have ended, the bytes after them, and whether the last byte was a CR. -/
structure Lines where
  ended : List Line
  rest : Line
  cr : Bool
  deriving DecidableEq

/-- One byte of a stream: LF, CR and CRLF end a line once. -/
def Lines.step (s : Lines) (c : UInt8) : Lines :=
  if c = 10 ∧ s.cr then { s with cr := false }
  else if c = 10 ∨ c = 13 then ⟨s.ended ++ [s.rest], [], c = 13⟩
  else ⟨s.ended, s.rest ++ [c], false⟩

def streamLines (bytes : List UInt8) : Lines := bytes.foldl Lines.step ⟨[], [], false⟩

/-- No line, the unfinished one included, reaches the line limit. -/
def Lines.Short (s : Lines) : Prop := ∀ line ∈ s.rest :: s.ended, line.length < SSE_MAX_DATA_LEN

instance (s : Lines) : Decidable s.Short := List.decidableBAll _ _

/-- The events are those of the uncut stream, and every line has ended once. -/
structure SplitsRight (chunks : List (List UInt8)) : Prop where
  events : ∃ events, delivered chunks = some events ∧ delivered [chunks.flatten] = some events
  once : (feedChunks chunks).map (·.parser.ended) = some (streamLines chunks.flatten).ended

/-- Some chunk begins with the LF of a CRLF. -/
def CutsCrlf (chunks : List (List UInt8)) : Prop :=
  ∃ before chunk after, chunks = before ++ chunk :: after ∧
    before.flatten.getLast? = some 13 ∧ chunk.head? = some 10

section Lines

variable {s t : Lines} {c : UInt8} {bytes : List UInt8}

/-- The lines as the next chunk finds them. -/
def Lines.atCut (s : Lines) : Lines := { s with cr := false }

theorem cr_step (s : Lines) (c : UInt8) : (s.step c).cr = decide (c = 13) := by
  rw [Lines.step]
  split_ifs with hlf hend
  · simp [hlf.1]
  · rfl
  · exact (decide_eq_false fun hcr => hend (.inr hcr)).symm

theorem cr_streamLines (bytes : List UInt8) :
    (streamLines bytes).cr = true ↔ bytes.getLast? = some 13 := by
  induction bytes using List.reverseRecOn with
  | nil => simp [streamLines]
  | append_singleton bytes c _ => simp [streamLines, cr_step]

theorem Lines.atCut_short : s.atCut.Short ↔ s.Short := Iff.rfl

/-- Only an LF is read otherwise after a CR. -/
theorem step_atCut (h : ¬(c = 10 ∧ s.cr)) : s.atCut.step c = s.step c := by
  rw [Lines.step, Lines.step, if_neg h, if_neg (by simp [Lines.atCut])]
  rfl

theorem foldl_atCut (h : ¬(bytes.head? = some 10 ∧ s.cr)) :
    (bytes.foldl Lines.step s.atCut).atCut = (bytes.foldl Lines.step s).atCut := by
  cases bytes with
  | nil => rfl
  | cons c bytes => rw [List.foldl_cons, List.foldl_cons, step_atCut (by simpa using h)]

/-- A line only grows until it ends, and stays as it has ended. -/
theorem Lines.Short.of_step (h : (s.step c).Short) : s.Short := by
  intro line hline
  rw [Lines.step] at h
  split_ifs at h
  · exact h line hline
  · refine h line (List.mem_cons_of_mem _ ?_)
    exact List.mem_append.mpr ((List.mem_cons.mp hline).symm.imp_right List.mem_singleton.mpr)
  · obtain rfl | hended := List.mem_cons.mp hline
    · have hgrown := h _ List.mem_cons_self
      rw [List.length_append] at hgrown
      omega
    · exact h line (List.mem_cons_of_mem _ hended)

theorem Lines.Short.of_foldl (h : (bytes.foldl Lines.step s).Short) : s.Short := by
  induction bytes generalizing s with
  | nil => exact h
  | cons c bytes ih => exact (ih h).of_step

/-- The lines of a chunk after those before it. -/
def Lines.readChunk (s : Lines) (chunk : List UInt8) : Lines := (chunk.foldl Lines.step s).atCut

/-- The lines of a stream as it is read chunk by chunk. -/
def chunkLines (chunks : List (List UInt8)) : Lines := chunks.foldl Lines.readChunk ⟨[], [], false⟩

theorem Lines.Short.of_chunks {chunks : List (List UInt8)}
    (h : (chunks.foldl Lines.readChunk s).Short) : s.Short := by
  induction chunks generalizing s with
  | nil => exact h
  | cons chunk chunks ih => exact (Lines.atCut_short.mp (ih h)).of_foldl

theorem cr_chunkLines (chunks : List (List UInt8)) : (chunkLines chunks).cr = false := by
  induction chunks using List.reverseRecOn with
  | nil => rfl
  | append_singleton chunks chunk _ => simp [chunkLines, Lines.readChunk, Lines.atCut]

end Lines

section Reads

variable {p : Parser} {s : Session} {bytes chunk : List UInt8} {events : List Event}

/-- One line after those that have been read. -/
def readLine (r : Pending × List Event) (line : Line) : Pending × List Event :=
  ((processLine r.1 line).1, r.2 ++ (processLine r.1 line).2.toList)

/-- What lines make of a new parser, and the events they give out. -/
def readLines (lines : List Line) : Pending × List Event := lines.foldl readLine (resetPending, [])

def Parser.lines (p : Parser) : Lines := ⟨p.ended, p.lineBuf, false⟩

/-- The pending event and the events delivered are those of the lines that have ended. -/
def Tracks (p : Parser) (events : List Event) : Prop := readLines p.ended = (p.pending, events)

theorem Tracks.endLine {event : Option Event} (h : Tracks p events)
    (hevent : (processLine p.pending p.lineBuf).2 = event) (next : ℕ) :
    Tracks (p.endLine next) (events ++ event.toList) := by
  rw [Tracks, readLines, Parser.endLine, List.foldl_append, ← readLines, h, ← hevent]
  rfl

/-- The loop has read to the end of the chunk, or up to an event. -/
def Feeds (len : ℕ) (p : Parser) (events : List Event) (bytes : List UInt8) :
    Parser × Answer → Prop
  | (q, .needMore) => q.lines = (bytes.foldl Lines.step p.lines).atCut ∧ Tracks q events
  | (q, .data event) => Tracks q (events ++ [event]) ∧ ∃ rest, rest <:+ bytes ∧
      rest.length < bytes.length ∧ q.consumed = len - rest.length ∧
      (rest.foldl Lines.step q.lines).atCut = (bytes.foldl Lines.step p.lines).atCut
  | (_, .error) => ¬(bytes.foldl Lines.step p.lines).Short

theorem Feeds.extend {len : ℕ} {q : Parser} {rest : List UInt8} {r : Parser × Answer}
    (h : Feeds len q events rest r) (hsuffix : rest <:+ bytes)
    (hlines : (rest.foldl Lines.step q.lines).atCut = (bytes.foldl Lines.step p.lines).atCut) :
    Feeds len p events bytes r := by
  match r, h with
  | (_, .needMore), h => exact ⟨h.1.trans hlines, h.2⟩
  | (_, .data _), ⟨htracks, rest', hrest', hlt, hconsumed, hlines'⟩ =>
    exact ⟨htracks, rest', hrest'.trans hsuffix, hlt.trans_le hsuffix.length_le, hconsumed,
      hlines'.trans hlines⟩
  | (_, .error), h => exact fun hshort => h (Lines.atCut_short.mp (hlines ▸ hshort))

theorem step_lineEnd {c : UInt8} (hc : c = 10 ∨ c = 13) (p : Parser) (next : ℕ) :
    (p.lines.step c).atCut = (p.endLine next).lines := by
  rw [Lines.step, if_neg (by simp [Parser.lines]), if_pos hc]
  rfl

theorem step_text {c : UInt8} (hc : ¬(c = 10 ∨ c = 13)) (p : Parser) :
    p.lines.step c = Parser.lines { p with lineBuf := p.lineBuf ++ [c] } := by
  rw [Lines.step, if_neg (by simp [Parser.lines]), if_neg hc]
  rfl

theorem foldl_lineEnd {c : UInt8} (hc : c = 10 ∨ c = 13)
    (hcrlf : ∀ rest, c = 13 → bytes = 10 :: rest → False) (p : Parser) (next : ℕ) :
    (bytes.foldl Lines.step (p.endLine next).lines).atCut =
      ((c :: bytes).foldl Lines.step p.lines).atCut := by
  rw [List.foldl_cons, ← step_lineEnd hc, foldl_atCut]
  rintro ⟨hlf, hcr⟩
  obtain ⟨rest, hrest⟩ := List.head?_eq_some_iff.mp hlf
  rw [cr_step, decide_eq_true_iff] at hcr
  exact hcrlf rest hcr hrest

/-- The loop reports an error for a line that is too long only. -/
theorem feedLoop_feeds (len : ℕ) (h : Tracks p events) :
    Feeds len p events bytes (feedLoop len p bytes) := by
  fun_induction feedLoop len p bytes with
  | case1 p => exact ⟨rfl, h⟩
  | case2 p rest event hevent =>
    exact ⟨h.endLine hevent _, rest, ⟨[13, 10], rfl⟩, Nat.lt_add_of_pos_right Nat.two_pos, rfl,
      rfl⟩
  | case3 p rest hevent ih =>
    have htracks := h.endLine hevent (len - rest.length)
    rw [Option.toList_none, List.append_nil] at htracks
    exact (ih htracks).extend ⟨[13, 10], rfl⟩ rfl
  | case4 p c rest hcrlf hc event hevent =>
    exact ⟨h.endLine hevent _, rest, List.suffix_cons c rest, Nat.lt_succ_self _, rfl,
      foldl_lineEnd hc hcrlf p _⟩
  | case5 p c rest hcrlf hc hevent ih =>
    have htracks := h.endLine hevent (len - rest.length)
    rw [Option.toList_none, List.append_nil] at htracks
    exact (ih htracks).extend (List.suffix_cons c rest) (foldl_lineEnd hc hcrlf p _)
  | case6 p c rest hcrlf hc hlen ih =>
    refine (ih h).extend (List.suffix_cons c rest) ?_
    rw [List.foldl_cons, step_text hc]
  | case7 p c rest hcrlf hc hlen =>
    intro hshort
    rw [List.foldl_cons, step_text hc] at hshort
    have hgrown := hshort.of_foldl _ List.mem_cons_self
    rw [Parser.lines, List.length_append, List.length_singleton] at hgrown
    omega

/-- All of the lines have been read, or one of them is too long. -/
def Reads (lines : Lines) : Option Session → Prop
  | some t => t.parser.lines = lines ∧ Tracks t.parser t.delivered
  | none => ¬lines.Short

/-- As many calls as there are bytes, and one that asks for more, read the whole chunk. -/
theorem feedUntilMore_reads {calls : ℕ} (h : Tracks s.parser s.delivered)
    (hcalls : (chunk.drop s.parser.consumed).length < calls) :
    Reads ((chunk.drop s.parser.consumed).foldl Lines.step s.parser.lines).atCut
      (feedUntilMore chunk calls s) := by
  induction calls generalizing s with
  | zero => omega
  | succ calls ih =>
    rw [feedUntilMore, sseFeed]
    by_cases hchunk : chunk = []
    · subst hchunk
      rw [List.drop_nil]
      exact ⟨rfl, h⟩
    rw [if_neg hchunk]
    have hfeeds := @feedLoop_feeds s.parser (chunk.drop s.parser.consumed) _ chunk.length h
    match hfeed : feedLoop chunk.length s.parser (chunk.drop s.parser.consumed), hfeeds with
    | (q, .needMore), hfeeds => exact hfeeds
    | (q, .data event), ⟨htracks, rest, hrest, hlt, hconsumed, hlines⟩ =>
      have hdrop : chunk.drop q.consumed = rest := by
        rw [hconsumed]
        exact (List.suffix_iff_eq_drop.mp (hrest.trans (List.drop_suffix _ chunk))).symm
      have hnext := @ih ⟨q, s.delivered ++ [event]⟩ htracks
      rw [hdrop, hlines] at hnext
      exact hnext (by omega)
    | (q, .error), hfeeds => exact hfeeds

theorem run_feedChunk {chunks : List (List UInt8)} (h : Tracks s.parser s.delivered) :
    Reads (chunks.foldl Lines.readChunk s.parser.lines) (run feedChunk s chunks) := by
  induction chunks generalizing s with
  | nil => exact ⟨rfl, h⟩
  | cons chunk chunks ih =>
    have hreads : Reads (s.parser.lines.readChunk chunk) (feedChunk s chunk) :=
      feedUntilMore_reads (s := { s with parser.consumed := 0 }) h (Nat.lt_succ_self _)
    rw [run, List.foldl_cons]
    cases hfeed : feedChunk s chunk with
    | none =>
      rw [hfeed] at hreads
      exact fun hshort => hreads (Lines.Short.of_chunks hshort)
    | some u =>
      rw [hfeed] at hreads
      rw [← hreads.1]
      exact ih hreads.2

theorem Reads.result {lines : Lines} {r : Option Session} (h : Reads lines r)
    (hshort : lines.Short) : r.map (·.delivered) = some (readLines lines.ended).2 ∧
      r.map (·.parser.ended) = some lines.ended := by
  match r, h with
  | some t, ⟨hlines, htracks⟩ =>
    subst hlines
    exact ⟨congrArg some (congrArg Prod.snd htracks).symm, rfl⟩
  | none, hlong => exact absurd hshort hlong

theorem feedChunks_reads (chunks : List (List UInt8)) :
    Reads (chunkLines chunks) (feedChunks chunks) :=
  run_feedChunk rfl

end Reads

section Cut

variable {s t : Lines} {chunks : List (List UInt8)}

/-- How many lines end depends on the byte before the first one only. -/
theorem length_foldl (hcr : s.cr = t.cr) (bytes : List UInt8) :
    (bytes.foldl Lines.step s).ended.length + t.ended.length =
      (bytes.foldl Lines.step t).ended.length + s.ended.length := by
  induction bytes generalizing s t with
  | nil => exact Nat.add_comm _ _
  | cons c bytes ih =>
    have hnext := ih (s := s.step c) (t := t.step c) (by rw [cr_step, cr_step])
    have hstep : (s.step c).ended.length + t.ended.length =
        (t.step c).ended.length + s.ended.length := by
      rw [Lines.step, Lines.step, hcr]
      split_ifs <;> simp <;> omega
    rw [List.foldl_cons, List.foldl_cons]
    omega

theorem cutsCrlf_append (chunks : List (List UInt8)) (chunk : List UInt8) :
    CutsCrlf (chunks ++ [chunk]) ↔ CutsCrlf chunks ∨
      chunk.head? = some 10 ∧ (streamLines chunks.flatten).cr := by
  rw [cr_streamLines]
  constructor
  · rintro ⟨before, cut, after, hsplit, hcut⟩
    obtain rfl | ⟨after, last, rfl⟩ := List.eq_nil_or_concat after
    · obtain ⟨rfl, hchunk⟩ := List.append_inj' hsplit rfl
      cases hchunk
      exact .inr hcut.symm
    · rw [List.concat_eq_append, ← List.cons_append, ← List.append_assoc] at hsplit
      obtain ⟨rfl, -⟩ := List.append_inj' hsplit rfl
      exact .inl ⟨before, cut, after, rfl, hcut⟩
  · rintro (⟨before, cut, after, rfl, hcut⟩ | hcut)
    · exact ⟨before, cut, after ++ [chunk], by simp, hcut⟩
    · exact ⟨chunks, chunk, [], rfl, hcut.symm⟩

theorem chunkLines_append (chunks : List (List UInt8)) (chunk : List UInt8) :
    chunkLines (chunks ++ [chunk]) = (chunkLines chunks).readChunk chunk := by
  rw [chunkLines, List.foldl_append]
  rfl

theorem streamLines_append (chunks : List (List UInt8)) (chunk : List UInt8) :
    streamLines (chunks ++ [chunk]).flatten =
      chunk.foldl Lines.step (streamLines chunks.flatten) := by
  rw [List.flatten_append, List.flatten_singleton, streamLines, List.foldl_append]
  rfl

theorem chunkLines_eq (h : ¬CutsCrlf chunks) :
    chunkLines chunks = (streamLines chunks.flatten).atCut := by
  induction chunks using List.reverseRecOn with
  | nil => rfl
  | append_singleton chunks chunk ih =>
    rw [cutsCrlf_append, not_or] at h
    rw [chunkLines_append, streamLines_append, ih h.1, Lines.readChunk, foldl_atCut h.2]

/-- Read chunk by chunk, a stream has a line more for every CRLF that is cut. -/
theorem length_chunkLines (chunks : List (List UInt8)) :
    (streamLines chunks.flatten).ended.length ≤ (chunkLines chunks).ended.length ∧
      (CutsCrlf chunks →
        (streamLines chunks.flatten).ended.length < (chunkLines chunks).ended.length) := by
  induction chunks using List.reverseRecOn with
  | nil => exact ⟨le_rfl, by simp [CutsCrlf]⟩
  | append_singleton chunks chunk ih =>
    have hcr := cr_chunkLines chunks
    rw [chunkLines_append, streamLines_append, cutsCrlf_append]
    generalize streamLines chunks.flatten = t at *
    generalize chunkLines chunks = s at *
    by_cases hcut : chunk.head? = some 10 ∧ t.cr
    · obtain ⟨bytes, rfl⟩ := List.head?_eq_some_iff.mp hcut.1
      have hblank : (s.step 10).ended.length = s.ended.length + 1 := by simp [Lines.step, hcr]
      have hskipped : (t.step 10).ended = t.ended := by simp [Lines.step, hcut.2]
      have hrest : (s.readChunk (10 :: bytes)).ended.length + _ = _ :=
        length_foldl (s := s.step 10) (t := t.step 10) (by rw [cr_step, cr_step]) bytes
      rw [hblank, hskipped, ← List.foldl_cons] at hrest
      omega
    · have hrest : (s.readChunk chunk).ended.length + t.ended.length = _ :=
        length_foldl (t := t.atCut) hcr chunk
      have hlines := congrArg Lines.ended (foldl_atCut hcut)
      simp only [Lines.atCut] at hlines hrest
      rw [hlines] at hrest
      simp only [hcut, or_false]
      exact ⟨by omega, fun h => by have := ih.2 h; omega⟩

end Cut

/-- However a stream of short lines is cut into chunks, its events are delivered as those of the
uncut stream and every line ends once, unless a CRLF is cut. -/
theorem splitsRight_iff (chunks : List (List UInt8)) (hshort : (streamLines chunks.flatten).Short) :
    SplitsRight chunks ↔ ¬CutsCrlf chunks := by
  have hreads := feedChunks_reads chunks
  constructor
  · intro h hcut
    obtain ⟨t, ht, hended⟩ := Option.map_eq_some_iff.mp h.once
    rw [ht] at hreads
    have hmore := (length_chunkLines chunks).2 hcut
    rw [← hended, ← hreads.1] at hmore
    exact hmore.false
  · intro h
    rw [chunkLines_eq h] at hreads
    have hresult := hreads.result hshort
    exact ⟨⟨_, hresult.1, ((feedChunks_reads [chunks.flatten]).result hshort).1⟩, hresult.2⟩

/-- An event stream that is cut inside a line. -/
def helloStream : List (List UInt8) := [ascii "data: he", ascii "llo\r\n\r\n"]

theorem helloStream_splitsRight :
    (streamLines helloStream.flatten).Short ∧ (SplitsRight helloStream ↔ ¬CutsCrlf helloStream) :=
  have hshort : (streamLines helloStream.flatten).Short := by decide +kernel
  ⟨hshort, splitsRight_iff helloStream hshort⟩

/-- A CRLF that is cut between two lines of data gives out their event in two parts. -/
def cutStream : List (List UInt8) := [ascii "data: a\r", ascii "\ndata: b\n\n"]

theorem cutStream_splits_wrongly : (streamLines cutStream.flatten).Short ∧
      delivered cutStream = some [⟨ascii "message", ascii "a"⟩, ⟨ascii "message", ascii "b"⟩] ∧
      delivered [cutStream.flatten] = some [⟨ascii "message", ascii "a\nb"⟩] ∧
      ¬SplitsRight cutStream := by
  have hcut : delivered cutStream =
      some [⟨ascii "message", ascii "a"⟩, ⟨ascii "message", ascii "b"⟩] := by decide +kernel
  have huncut : delivered [cutStream.flatten] = some [⟨ascii "message", ascii "a\nb"⟩] := by
    decide +kernel
  refine ⟨by decide +kernel, hcut, huncut, fun h => ?_⟩
  obtain ⟨events, hevents, hevents'⟩ := h.events
  have hsame := hcut.symm.trans (hevents.trans (hevents'.symm.trans huncut))
  revert hsame
  decide +kernel

end Sodex.Sse
