import Sodex.AdminServer
import Sodex.CFormat

/-!
# Requests in pieces

A poll reads all that has arrived before it looks for the end of the request. What follows the
request counts against the buffer, too.
-/
namespace Sodex.Admin

open CText CFormat List

/-- What the socket hands out at once. -/
structure Chunk (front : Front) where
  bytes : List UInt8
  ne_nil : bytes ≠ []
  length_le : bytes.length ≤ front.chunkMax

variable {front : Front}

def received (poll : List (Chunk front)) : List UInt8 := poll.flatMap Chunk.bytes

inductive Answer where
  | waits
  | tooLarge
  | handled (request : Option Request)
  deriving DecidableEq

/-- What the polls of a connection come to within the idle timeout. -/
def answer (front : Front) : List (List (Chunk front)) → List UInt8 → Answer
  | [], _ => .waits
  | poll :: polls, buffer =>
    match readLoop front (poll.map Chunk.bytes) buffer with
    | none => .tooLarge
    | some buffer =>
      if front.complete buffer then .handled (front.parse buffer) else answer front polls buffer

/-- The polls of a connection that its peer keeps open, each at its tick. -/
def pollAll (front : Front) (s : State) (conn : Conn) :
    List (UInt32 × List (Chunk front)) → Option Conn × State
  | [] => (some conn, s)
  | (tick, poll) :: polls =>
    match pollConn front s tick conn false (poll.map Chunk.bytes) with
    | (none, s) => (none, s)
    | (some conn, s) => pollAll front s conn polls

/-- At one of their ticks the polls do what the request asks for. -/
def DoesRequest (front : Front) (s : State) (conn : Conn)
    (polls : List (UInt32 × List (Chunk front))) (request : Option Request) : Prop :=
  ∃ tick ∈ polls.map Prod.fst, ∃ buffer, front.parse buffer = request ∧
    (pollAll front s conn polls).2 = handleRequest front s tick { conn with buffer := buffer }

/-- A request up to its terminator, shorter than the buffer. -/
structure ClientRequest (front : Front) where
  bytes : List UInt8
  complete : front.complete bytes = true
  minimal : ∀ k < bytes.length, front.complete (bytes.take k) = false
  length_lt : bytes.length < front.requestMax

/-- The number of bytes after the poll that brings byte `n` of the stream. -/
def arrived : List (List (Chunk front)) → ℕ → ℕ
  | [], _ => 0
  | poll :: polls, n =>
    (received poll).length +
      if n ≤ (received poll).length then 0 else arrived polls (n - (received poll).length)

def httpStatusText (status : ℤ) : List UInt8 :=
  if status = 200 then ascii "OK"
  else if status = 400 then ascii "Bad Request"
  else if status = 403 then ascii "Forbidden"
  else if status = 404 then ascii "Not Found"
  else if status = 413 then ascii "Payload Too Large"
  else if status = 429 then ascii "Too Many Requests"
  else ascii "Internal Server Error"

/-- What `http_build_response` writes before the body. -/
def httpHead (status : ℤ) (length : ℕ) (contentType : List UInt8) (retryAfter : ℤ) : List UInt8 :=
  ascii "HTTP/1.1 " ++ putInt status ++ ascii " " ++ httpStatusText status ++
    ascii "\r\nContent-Type: " ++ contentType ++ ascii "\r\nContent-Length: " ++ putInt length ++
    (if 0 < retryAfter then ascii "\r\nRetry-After: " ++ putInt retryAfter else []) ++
    ascii "\r\nConnection: close\r\n\r\n"

def ADMIN_RESPONSE_MAX : ℕ := 512

/-- `http_build_response`: every piece is cut at the end of the buffer. -/
def httpBuildResponse (status : ℤ) (body contentType : List UInt8) (retryAfter : ℤ) : List UInt8 :=
  (httpHead status body.length contentType retryAfter ++ body).take (ADMIN_RESPONSE_MAX - 1)

/-- The end of a request does not depend on what follows it. -/
structure Front.Prompt (front : Front) : Prop where
  nil : front.complete [] = false
  complete : ∀ r rest, front.complete r = true → front.complete (r ++ rest) = true
  parse : ∀ r rest, front.complete r = true → front.parse (r ++ rest) = front.parse r

section Polls

variable {poll : List (Chunk front)} {polls : List (List (Chunk front))} {buffer r : List UInt8}

theorem readLoop_poll (h : buffer.length < front.requestMax) :
    readLoop front (poll.map Chunk.bytes) buffer =
      if buffer.length + (received poll).length < front.requestMax
      then some (buffer ++ received poll) else none := by
  induction poll generalizing buffer with
  | nil => simp [readLoop, received, h]
  | cons chunk poll ih =>
    have hlen : (received (chunk :: poll)).length = chunk.bytes.length + (received poll).length :=
      length_append
    rw [map_cons, readLoop, take_of_length_le chunk.length_le, if_neg chunk.ne_nil, hlen]
    by_cases hfull : front.requestMax ≤ buffer.length + chunk.bytes.length
    · rw [if_pos hfull, if_neg (by omega)]
    · rw [if_neg hfull, ih (by rw [length_append]; omega), length_append, append_assoc, add_assoc]
      rfl

theorem pollAll_closing (s : State) {conn : Conn} (polls : List (UInt32 × List (Chunk front)))
    (hclosing : conn.closing = true) : (pollAll front s conn polls).2 = s := by
  induction polls with
  | nil => rfl
  | cons poll polls ih => simpa [pollAll, pollConn, hclosing] using ih

/-- Polls of a connection that is open and not idle do what the answer says. -/
theorem pollAll_answer (s : State) (conn : Conn) {polls : List (UInt32 × List (Chunk front))}
    (hopen : conn.closing = false)
    (hidle : ∀ p ∈ polls, ticksSince conn.acceptedTick p.1 ≤ ADMIN_IDLE_TIMEOUT_TICKS)
    (hroom : conn.buffer.length < front.requestMax) {request : Option Request}
    (hanswer : answer front (polls.map Prod.snd) conn.buffer = .handled request) :
    DoesRequest front s conn polls request := by
  induction polls generalizing conn with
  | nil => cases hanswer
  | cons poll polls ih =>
    obtain ⟨htick, hidle⟩ := forall_mem_cons.mp hidle
    simp only [map_cons, answer, readLoop_poll hroom] at hanswer
    by_cases hfull : conn.buffer.length + (received poll.2).length < front.requestMax
    · have hpoll : pollConn front s poll.1 conn false (poll.2.map Chunk.bytes) =
          if front.complete (conn.buffer ++ received poll.2) then
            (some { conn with buffer := conn.buffer ++ received poll.2, closing := true },
              handleRequest front s poll.1 { conn with buffer := conn.buffer ++ received poll.2 })
          else (some { conn with buffer := conn.buffer ++ received poll.2 }, s) := by
        simp only [pollConn, hopen, not_lt.mpr htick, readLoop_poll hroom, if_pos hfull,
          Bool.false_eq_true, if_false]
      simp only [if_pos hfull] at hanswer
      unfold DoesRequest
      rw [pollAll, hpoll]
      by_cases hcomplete : front.complete (conn.buffer ++ received poll.2) = true
      · rw [if_pos hcomplete] at hanswer ⊢
        exact ⟨poll.1, mem_cons_self, _, Answer.handled.inj hanswer, pollAll_closing _ _ rfl⟩
      · rw [if_neg hcomplete] at hanswer ⊢
        obtain ⟨tick, hmem, hrest⟩ := ih { conn with buffer := conn.buffer ++ received poll.2 } hopen
          hidle (by rwa [length_append]) hanswer
        exact ⟨tick, mem_cons_of_mem _ hmem, hrest⟩
    · rw [if_neg hfull] at hanswer
      cases hanswer

/-- The induction is on the polls; what came before is a proper part of the request. -/
theorem answer_eq (hfront : front.Prompt) (request : ClientRequest front)
    (hbuffer : buffer.length < request.bytes.length) (hrequest : request.bytes = buffer ++ r)
    (hstream : r <+: polls.flatMap received) : answer front polls buffer =
      if buffer.length + arrived polls r.length < front.requestMax
      then .handled (front.parse request.bytes) else .tooLarge := by
  have hshort := request.length_lt
  have hlen := congrArg length hrequest
  rw [length_append] at hlen
  induction polls generalizing buffer r with
  | nil =>
    rw [prefix_nil.mp hstream, length_nil] at hlen
    omega
  | cons poll polls ih =>
    rw [flatMap_cons] at hstream
    rw [answer, readLoop_poll (by omega), arrived]
    by_cases hall : r.length ≤ (received poll).length
    · obtain ⟨rest, hrest⟩ := prefix_of_prefix_length_le hstream (prefix_append _ _) hall
      have hcomplete := hfront.complete _ rest request.complete
      have hparse := hfront.parse _ rest request.complete
      rw [hrequest, append_assoc, hrest] at hcomplete hparse
      rw [if_pos hall, add_zero, hrequest, ← hparse]
      split_ifs <;> simp only [hcomplete, if_true]
    · obtain ⟨r', rfl⟩ := prefix_of_prefix_length_le (prefix_append _ _) hstream (by omega)
      rw [length_append] at hlen hall ⊢
      have hwait := request.minimal (buffer.length + (received poll).length) (by omega)
      rw [hrequest, ← append_assoc, ← length_append, take_left] at hwait
      rw [if_neg hall, if_pos (by omega), Nat.add_sub_cancel_left, ← add_assoc, ← length_append,
        ← ih]
      · simp [hwait]
      · rw [length_append]
        omega
      · rw [hrequest, append_assoc]
      · exact (prefix_append_right_inj _).mp hstream
      · rw [length_append, hlen, add_assoc]

end Polls

theorem firstLine_append {r : List UInt8} (h : (firstLine r).isSome = true) (rest : List UInt8) :
    firstLine (r ++ rest) = firstLine r := by
  obtain ⟨line, hline⟩ := Option.isSome_iff_exists.mp h
  obtain ⟨hmem, -⟩ := firstLine_eq hline
  have hcut : before 10 (r ++ rest) = before 10 r := by
    obtain ⟨l, l', rfl⟩ := append_of_mem hmem
    simp [before, takeWhile_append]
  rw [firstLine, firstLine, if_pos hmem, if_pos (mem_append_left _ hmem), hcut]

theorem adminFront_prompt : adminFront.Prompt where
  nil := rfl
  complete _ rest h := (congrArg Option.isSome (firstLine_append h rest)).trans h
  parse _ rest h := congrArg (Option.bind · parseCommand) (firstLine_append h rest)

/-- The header loop does not go beyond the empty line. -/
theorem headerLoop_blank {line : List UInt8} (hblank : trim line = [])
    (headers raws : List (List UInt8)) (token : List UInt8) :
    headerLoop ((headers ++ [line]).map (· ++ [10]) ++ raws) token =
      headerLoop ((headers ++ [line]).map (· ++ [10])) token := by
  induction headers generalizing token with
  | nil => simp [headerLoop, httpTrimCopy_blank hblank]
  | cons header headers ih => simp only [cons_append, map_cons, headerLoop, ih]

theorem httpParseRequest_append {r : List UInt8} (h : httpHeadersComplete r = true)
    (rest : List UInt8) : httpParseRequest (r ++ rest) = httpParseRequest r := by
  obtain ⟨start, line, more, rfl, hblank, hsingle⟩ := headersComplete_split h
  cases hfirst : lines (start ++ [10]) with
  | nil => exact absurd hfirst (lines_ne_nil (by simp))
  | cons first headers =>
    have hparse (more : List UInt8) : httpParseRequest (start ++ 10 :: (line ++ 10 :: more)) =
        (parseRequestLine (httpTrimCopy (first ++ [10]))).map fun r =>
          ⟨r.1, r.2, headerLoop ((headers ++ [line]).map (· ++ [10])) []⟩ := by
      rw [httpParseRequest, if_neg (by simp), httpLines_split hsingle, hfirst, cons_append,
        map_cons, cons_append]
      simp only [headerLoop_blank hblank]
    rw [append_assoc, cons_append, append_assoc, cons_append, hparse, hparse]

theorem httpFront_prompt : httpFront.Prompt where
  nil := by decide
  complete r rest h := by
    refine decide_eq_true ((of_decide_eq_true h).imp ?_ ?_) <;>
      exact fun h => h.trans (prefix_append r rest).isInfix
  parse _ rest h := congrArg (Option.bind · httpMapRequest) (httpParseRequest_append h rest)

/-- One of the two ports that take a request. -/
def TextFront := { front : Front // front = adminFront ∨ front = httpFront }

theorem TextFront.prompt (front : TextFront) : front.1.Prompt := by
  obtain ⟨front, rfl | rfl⟩ := front
  · exact adminFront_prompt
  · exact httpFront_prompt

/-- Polls within the idle timeout of a connection that bring the request, and whatever follows it. -/
structure Polls (request : ClientRequest front) where
  polls : List (UInt32 × List (Chunk front))
  accepted : UInt32
  stream : request.bytes <+: (polls.map Prod.snd).flatMap received
  idle : ∀ p ∈ polls, ticksSince accepted p.1 ≤ ADMIN_IDLE_TIMEOUT_TICKS

/-- The response carries a length that counts the bytes behind its head. -/
def LengthRight (status : ℤ) (body contentType : List UInt8) (retryAfter : ℤ) : Prop :=
  ∃ sent, httpBuildResponse status body contentType retryAfter =
    httpHead status body.length contentType retryAfter ++ sent ∧ sent.length = body.length

theorem lengthRight_iff (status : ℤ) (body contentType : List UInt8) (retryAfter : ℤ) :
    LengthRight status body contentType retryAfter ↔
      (httpHead status body.length contentType retryAfter ++ body).length < ADMIN_RESPONSE_MAX := by
  constructor
  · rintro ⟨sent, hsent, hlen⟩
    have hcut := length_take_le (ADMIN_RESPONSE_MAX - 1)
      (httpHead status body.length contentType retryAfter ++ body)
    rw [← httpBuildResponse, hsent, length_append, hlen, ← length_append] at hcut
    exact Nat.lt_of_le_sub_one (by decide) hcut
  · exact fun hfits => ⟨body, take_of_length_le (Nat.le_sub_one_of_lt hfits), rfl⟩

/-- The request is answered for itself exactly when the buffer has room for all that the poll
which completes it reads. -/
theorem segments_right_iff (front : TextFront) (request : ClientRequest front.1)
    (polls : Polls request) (s : State) (peer : UInt32)
    (status : ℤ) (body contentType : List UInt8) (retryAfter : ℤ) :
    ((answer front.1 (polls.1.map Prod.snd) [] = .handled (front.1.parse request.bytes) ∧
        DoesRequest front.1 s ⟨peer, polls.accepted, false, []⟩ polls.1
          (front.1.parse request.bytes)) ∧
      LengthRight status body contentType retryAfter) ↔
    arrived (polls.1.map Prod.snd) request.bytes.length < front.1.requestMax ∧
      (httpHead status body.length contentType retryAfter ++ body).length < ADMIN_RESPONSE_MAX := by
  have hpos : ([] : List UInt8).length < request.bytes.length := by
    refine length_pos_iff.mpr fun hnil => ?_
    have hcomplete := request.complete
    rw [hnil, front.prompt.nil] at hcomplete
    cases hcomplete
  have hanswer := answer_eq front.prompt request hpos rfl polls.stream
  rw [length_nil, zero_add] at hanswer
  rw [lengthRight_iff]
  refine and_congr_left' ⟨fun h => ?_, fun hroom => ?_⟩
  · by_contra hroom
    rw [if_neg hroom, h.1] at hanswer
    cases hanswer
  · rw [if_pos hroom] at hanswer
    exact ⟨hanswer, pollAll_answer s ⟨peer, polls.accepted, false, []⟩ rfl polls.idle
      (hpos.trans request.length_lt) hanswer⟩

/-- The chunk of a `PING`, with blanks behind it. -/
def ping (n : Fin 59) : Chunk adminFront where
  bytes := ascii "PING\n" ++ replicate n 32
  ne_nil := nofun
  length_le := by
    rw [length_append, length_replicate]
    exact Nat.add_le_add_left (Nat.le_of_lt_succ n.2) 5

/-- The polls of a `PING` that comes alone. -/
def pingRequest : ClientRequest adminFront := ⟨ascii "PING\n", by decide, by decide, by decide⟩

def pingPolls : Polls pingRequest := ⟨[(0, []), (5, [ping 0])], 0, by decide, by decide⟩

theorem pingPolls_right : let s := boot Build.default.runtime
    DoesRequest adminFront s ⟨9, 0, false, []⟩ pingPolls.polls
      (some ⟨.ping, requiredRole .ping, 0, []⟩) ∧ LengthRight 200 [] (ascii "text/plain") 0 := by
  obtain ⟨⟨-, hdoes⟩, hlength⟩ := (segments_right_iff ⟨adminFront, .inl rfl⟩ pingRequest pingPolls
    (boot Build.default.runtime) 9 200 [] (ascii "text/plain") 0).mpr ⟨by decide, by decide⟩
  have hparse : adminFront.parse pingRequest.bytes =
      some ⟨.ping, requiredRole .ping, 0, []⟩ := by decide
  exact ⟨hparse ▸ hdoes, hlength⟩

/-- The same request is answered when it arrives alone and refused with three chunks behind it. -/
theorem ping_refused :
    answer adminFront [[ping 0]] [] = .handled (some ⟨.ping, requiredRole .ping, 0, []⟩) ∧
    answer adminFront [[ping 58, ping 58, ping 58, ping 58]] [] = .tooLarge := by
  decide

end Sodex.Admin
