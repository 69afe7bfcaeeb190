import Mathlib.Data.List.Infix
import Sodex.AdminAuth

/-!
# Requests to the three admin ports

The admin port takes a command line, the HTTP port a request with headers, the debug shell
a line with a token. Each copies the token through buffers of its own.
-/
namespace Sodex.Admin

open CInt CText

def ADMIN_HTTP_REQUEST_MAX : ℕ := 384

/-- The first line of a buffer, with its end: `admin_extract_line_length`,
`debug_shell_extract_line_length`. -/
def firstLine (buffer : List UInt8) : Option (List UInt8) :=
  if 10 ∈ buffer then some (before 10 buffer ++ [10]) else none

/-- The command of a request without its token. -/
def parseAction (command : List UInt8) : Option (Action × ℤ) :=
  if command = ascii "PING" then some (.ping, 0)
  else if command = ascii "STATUS" then some (.status, 0)
  else if command = ascii "AGENT START" then some (.agentStart, 0)
  else if command = ascii "AGENT STOP" then some (.agentStop, 0)
  else if ascii "LOG TAIL " <+: command then
    let limit := parsePositiveInt (command.drop 9)
    if limit < 0 then none else some (.logTail, limit)
  else none

def parseCommand (line : List UInt8) : Option Request :=
  let trimmed := trimLine line ADMIN_TEXT_REQUEST_MAX
  if trimmed = [] then none
  else if ascii "TOKEN " <+: trimmed then
    let command := skipSpaces (trimmed.drop 6)
    if 32 ∉ command then none
    else
      (parseAction (skipSpaces (after 32 command))).map fun a =>
        ⟨a.1, requiredRole a.1, a.2, copyString ADMIN_TOKEN_MAX (before 32 command)⟩
  else (parseAction trimmed).map fun a => ⟨a.1, requiredRole a.1, a.2, []⟩

/-- `struct http_request`. -/
structure HttpRequest where
  method : List UInt8
  path : List UInt8
  token : List UInt8
  deriving DecidableEq

def httpHeadersComplete (buffer : List UInt8) : Bool :=
  ascii "\r\n\r\n" <:+: buffer ∨ ascii "\n\n" <:+: buffer

/-- The lines of a request as they are copied: with their ends, and with the zero after the
buffer when the last one has none. -/
def httpLines : List UInt8 → List (List UInt8)
  | [] => []
  | b :: rest =>
    if b = 10 then [10] :: httpLines rest
    else
      match httpLines rest with
      | [] => [[b, 0]]
      | line :: others => (b :: line) :: others

/-- `http_trim_copy` to a line buffer. -/
def httpTrimCopy (line : List UInt8) : List UInt8 := trimCopy 128 line

/-- The method and the path of the first line. -/
def parseRequestLine (line : List UInt8) : Option (List UInt8 × List UInt8) :=
  if 32 ∉ line then none
  else
    let path := skipSpaces (after 32 line)
    if 32 ∉ path then none else some (copyString 8 (before 32 line), copyString 64 (before 32 path))

/-- The token after an `Authorization` header. -/
def headerToken (line : List UInt8) : Option (List UInt8) :=
  if ascii "Authorization:" <+: line then
    let value := skipSpaces (line.drop 14)
    if ascii "Bearer " <+: value then some (copyString ADMIN_TOKEN_MAX (value.drop 7)) else none
  else none

/-- The header loop of `http_parse_request`: it ends at an empty line. -/
def headerLoop : List (List UInt8) → List UInt8 → List UInt8
  | [], token => token
  | raw :: rest, token =>
    let line := httpTrimCopy raw
    if line = [] then token else headerLoop rest ((headerToken line).getD token)

def httpParseRequest (data : List UInt8) : Option HttpRequest :=
  if 10 ∉ data then none
  else
    match httpLines data with
    | [] => none
    | first :: headers =>
      (parseRequestLine (httpTrimCopy first)).map fun r => ⟨r.1, r.2, headerLoop headers []⟩

def httpMapRequest (req : HttpRequest) : Option Request :=
  let token := copyString ADMIN_TOKEN_MAX req.token
  if req.method = ascii "GET" ∧ req.path = ascii "/healthz" then
    some ⟨.health, .health, 0, token⟩
  else if req.method = ascii "GET" ∧ req.path = ascii "/status" then
    some ⟨.status, .status, 0, token⟩
  else if req.method = ascii "POST" ∧ req.path = ascii "/agent/start" then
    some ⟨.agentStart, .control, 0, token⟩
  else if req.method = ascii "POST" ∧ req.path = ascii "/agent/stop" then
    some ⟨.agentStop, .control, 0, token⟩
  else none

def DEBUG_SHELL_PREFACE_MAX : ℕ := ADMIN_TEXT_REQUEST_MAX

/-- `debug_shell_parse_preface`. -/
def parsePreface (line : List UInt8) : Option (List UInt8) :=
  let trimmed := trimCopy DEBUG_SHELL_PREFACE_MAX line
  if ascii "TOKEN " <+: trimmed then
    let value := skipSpaces (trimmed.drop 6)
    if value = [] ∨ 32 ∈ value ∨ 9 ∈ value then none else some (copyString ADMIN_TOKEN_MAX value)
  else none

inductive Port where
  | admin
  | http
  | debugShell
  deriving DecidableEq

/-- The token of a request to the admin port: the second word of a line that begins with
`TOKEN`. -/
def sentCommandToken (buffer : List UInt8) : List UInt8 :=
  let line := trim (before 10 buffer)
  if ascii "TOKEN " <+: line then before 32 (skipSpaces (line.drop 6)) else []

/-- The token of a request to the debug shell: all that follows `TOKEN`. -/
def sentPrefaceToken (buffer : List UInt8) : List UInt8 :=
  let line := trim (before 10 buffer)
  if ascii "TOKEN " <+: line then skipSpaces (line.drop 6) else []

/-- The token in a header: all that follows `Bearer`. -/
def bearer (line : List UInt8) : Option (List UInt8) :=
  if ascii "Authorization:" <+: line then
    let value := skipSpaces (line.drop 14)
    if ascii "Bearer " <+: value then some (value.drop 7) else none
  else none

/-- The lines of the header of a request: those after the first, up to an empty one. -/
def headerLines (buffer : List UInt8) : List (List UInt8) :=
  (((lines buffer).drop 1).map trim).takeWhile (· ≠ [])

/-- The token of an HTTP request: that of the last header with one. -/
def sentHeaderToken (buffer : List UInt8) : List UInt8 :=
  (headerLines buffer).foldl (fun token line => (bearer line).getD token) []

def sentToken : Port → List UInt8 → List UInt8
  | .admin, buffer => sentCommandToken buffer
  | .http, buffer => sentHeaderToken buffer
  | .debugShell, buffer => sentPrefaceToken buffer

/-- A request that passes through the buffers unchanged: it has no zero byte, its token is
short enough to be stored, and so are its header lines. -/
def RequestFits (port : Port) (buffer : List UInt8) : Prop :=
  0 ∉ buffer ∧ (sentToken port buffer).length ≤ 63 ∧
    (port = .http → ∀ line ∈ headerLines buffer, line.length ≤ 127 ∧
      ∀ token ∈ bearer line, token.length ≤ 63)

instance (port : Port) (buffer : List UInt8) : Decidable (RequestFits port buffer) :=
  inferInstanceAs (Decidable (_ ∧ _ ∧ (_ → _)))

section Tokens

variable {buffer : List UInt8}

theorem trimCopy_firstLine (hzero : 0 ∉ buffer) (hlen : buffer.length < 192) :
    trimCopy 192 (before 10 buffer ++ [10]) = trim (before 10 buffer) := by
  have hsub : (before 10 buffer).Sublist buffer := List.takeWhile_sublist _
  rw [← trim_concat_newline]
  refine trimCopy_eq_trim ?_ ?_
  · intro hmem
    rcases List.mem_append.mp hmem with hmem | hmem
    · exact hzero (hsub.subset hmem)
    · simp at hmem
  · rw [trim_concat_newline]
    have := (trim_sublist (before 10 buffer)).length_le
    have := hsub.length_le
    omega

theorem firstLine_eq {line : List UInt8} (h : firstLine buffer = some line) :
    10 ∈ buffer ∧ before 10 buffer ++ [10] = line := by
  unfold firstLine at h
  split at h
  · rename_i hmem
    exact ⟨hmem, Option.some.inj h⟩
  · cases h

theorem parseCommand_token {line : List UInt8} {req : Request} (hline : firstLine buffer = some line)
    (hlen : buffer.length < 192) (hfits : RequestFits .admin buffer)
    (hparse : parseCommand line = some req) :
    req.token = sentToken .admin buffer ∧ req.requiredRole = requiredRole req.action := by
  obtain ⟨hzero, htoken, -⟩ := hfits
  obtain ⟨-, rfl⟩ := firstLine_eq hline
  rw [parseCommand, trimLine, ADMIN_TEXT_REQUEST_MAX, trimCopy_firstLine hzero hlen] at hparse
  unfold sentToken sentCommandToken at htoken ⊢
  simp only at hparse htoken ⊢
  split at hparse
  · cases hparse
  split at hparse
  · rename_i hword
    rw [if_pos hword] at htoken ⊢
    split at hparse
    · cases hparse
    obtain ⟨a, -, rfl⟩ := Option.map_eq_some_iff.mp hparse
    refine ⟨copyString_eq_self (fun hmem => hzero ?_) htoken, rfl⟩
    have hsub : (before 32 (skipSpaces ((trim (before 10 buffer)).drop 6))).Sublist buffer :=
      (List.takeWhile_sublist _).trans ((List.dropWhile_sublist _).trans
        ((List.drop_sublist _ _).trans ((trim_sublist _).trans (List.takeWhile_sublist _))))
    exact hsub.subset hmem
  · rename_i hword
    rw [if_neg hword]
    obtain ⟨a, -, rfl⟩ := Option.map_eq_some_iff.mp hparse
    exact ⟨rfl, rfl⟩

theorem parsePreface_token {line token : List UInt8} (hline : firstLine buffer = some line)
    (hlen : buffer.length < 192) (hfits : RequestFits .debugShell buffer)
    (hparse : parsePreface line = some token) :
    copyString ADMIN_TOKEN_MAX token = sentToken .debugShell buffer := by
  obtain ⟨hzero, htoken, -⟩ := hfits
  obtain ⟨-, rfl⟩ := firstLine_eq hline
  rw [parsePreface, DEBUG_SHELL_PREFACE_MAX, ADMIN_TEXT_REQUEST_MAX,
    trimCopy_firstLine hzero hlen] at hparse
  unfold sentToken sentPrefaceToken at htoken ⊢
  simp only at hparse htoken ⊢
  split at hparse
  · rename_i hword
    rw [if_pos hword] at htoken ⊢
    split at hparse
    · cases hparse
    have hsub : (skipSpaces ((trim (before 10 buffer)).drop 6)).Sublist buffer :=
      (List.dropWhile_sublist _).trans ((List.drop_sublist _ _).trans
        ((trim_sublist _).trans (List.takeWhile_sublist _)))
    have hcopy : copyString ADMIN_TOKEN_MAX (skipSpaces ((trim (before 10 buffer)).drop 6)) =
        skipSpaces ((trim (before 10 buffer)).drop 6) :=
      copyString_eq_self (fun hmem => hzero (hsub.subset hmem)) htoken
    rw [← Option.some.inj hparse, hcopy, hcopy]
  · cases hparse

theorem httpLines_append (l rest : List UInt8) :
    httpLines (l ++ 10 :: rest) = (lines (l ++ [10])).map (· ++ [10]) ++ httpLines rest := by
  induction l with
  | nil => simp [httpLines, lines]
  | cons b l ih =>
    rw [List.cons_append, List.cons_append, httpLines, lines, ih]
    split
    · rename_i hb
      simp
    · cases hl : lines (l ++ [10]) with
      | nil => exact absurd hl (lines_ne_nil (by simp))
      | cons line others => rfl

/-- A complete request has an empty line after the first one. -/
theorem headersComplete_split (h : httpHeadersComplete buffer = true) :
    ∃ start line rest, buffer = start ++ 10 :: (line ++ 10 :: rest) ∧ trim line = [] ∧
      lines (line ++ [10]) = [line] := by
  rcases of_decide_eq_true h with ⟨start, rest, rfl⟩ | ⟨start, rest, rfl⟩
  · exact ⟨start ++ [13], [13], rest, by simp [ascii], by decide, by decide⟩
  · exact ⟨start, [], rest, by simp [ascii], by decide, by decide⟩

theorem httpLines_split {line : List UInt8} (hline : lines (line ++ [10]) = [line])
    (start rest : List UInt8) : httpLines (start ++ 10 :: (line ++ 10 :: rest)) =
      (lines (start ++ [10]) ++ [line]).map (· ++ [10]) ++ httpLines rest := by
  rw [httpLines_append, httpLines_append line, hline, List.map_append, List.append_assoc]

theorem headerToken_eq (line : List UInt8) :
    headerToken line = (bearer line).map (copyString ADMIN_TOKEN_MAX) := by
  unfold headerToken bearer
  split
  · simp only
    split <;> rfl
  · rfl

theorem bearer_sublist {line token : List UInt8} (h : bearer line = some token) :
    token.Sublist line := by
  unfold bearer at h
  split at h
  · simp only at h
    split at h
    · rw [← Option.some.inj h]
      exact (List.drop_sublist _ _).trans ((List.dropWhile_sublist _).trans (List.drop_sublist _ _))
    · cases h
  · cases h

theorem httpTrimCopy_blank {line : List UInt8} (h : trim line = []) :
    httpTrimCopy (line ++ [10]) = [] := by
  rw [httpTrimCopy, trimCopy, trim_concat_newline, h]
  rfl

/-- The header loop takes the token of the last header with one, up to the empty line. -/
theorem headerLoop_eq {line : List UInt8} (hblank : trim line = [])
    (others raws : List (List UInt8)) (headers : List (List UInt8)) (token : List UInt8)
    (hzero : ∀ header ∈ headers, 0 ∉ header)
    (hfits : ∀ header ∈ ((headers ++ line :: others).map trim).takeWhile (· ≠ []),
      header.length ≤ 127 ∧ ∀ token ∈ bearer header, token.length ≤ 63) :
    headerLoop ((headers ++ [line]).map (· ++ [10]) ++ raws) token =
      (((headers ++ line :: others).map trim).takeWhile (· ≠ [])).foldl
        (fun token line => (bearer line).getD token) token := by
  induction headers generalizing token with
  | nil => simp [headerLoop, httpTrimCopy_blank hblank, hblank]
  | cons header headers ih =>
    obtain ⟨hhead, hrest⟩ := List.forall_mem_cons.mp hzero
    simp only [List.cons_append, List.map_cons, headerLoop, List.takeWhile_cons] at hfits ⊢
    by_cases hnone : trim header = []
    · simp [httpTrimCopy_blank hnone, hnone]
    · simp only [hnone, ne_eq, not_false_eq_true, decide_true, if_true] at hfits ⊢
      obtain ⟨⟨hlen, htoken⟩, hothers⟩ := List.forall_mem_cons.mp hfits
      have hline : httpTrimCopy (header ++ [10]) = trim header := by
        rw [← trim_concat_newline]
        refine trimCopy_eq_trim ?_ ?_
        · simpa using hhead
        · rw [trim_concat_newline]
          exact hlen
      have hstored : headerToken (trim header) = bearer (trim header) := by
        rw [headerToken_eq]
        cases hbearer : bearer (trim header) with
        | none => rfl
        | some sent =>
          refine congrArg some (copyString_eq_self (fun hmem => hhead ?_) (htoken sent hbearer))
          exact ((bearer_sublist hbearer).trans (trim_sublist header)).subset hmem
      rw [hline, if_neg hnone, List.foldl_cons, ← hstored]
      exact ih _ hrest hothers

theorem httpParseRequest_token {req : HttpRequest} (hcomplete : httpHeadersComplete buffer = true)
    (hfits : RequestFits .http buffer) (hparse : httpParseRequest buffer = some req) :
    req.token = sentToken .http buffer := by
  obtain ⟨hzero, -, hheaders⟩ := hfits
  obtain ⟨start, line, rest, rfl, hblank, hsingle⟩ := headersComplete_split hcomplete
  have hlines : lines (start ++ 10 :: (line ++ 10 :: rest)) =
      lines (start ++ [10]) ++ line :: lines rest := by
    rw [lines_append, lines_append line, hsingle]
    rfl
  have hfree := zero_not_mem_lines hzero
  show req.token = sentHeaderToken _
  unfold sentHeaderToken headerLines
  have hheaders := hheaders rfl
  unfold headerLines at hheaders
  rw [hlines] at hheaders hfree ⊢
  unfold httpParseRequest at hparse
  rw [httpLines_split hsingle] at hparse
  cases hfirst : lines (start ++ [10]) with
  | nil => exact absurd hfirst (lines_ne_nil (by simp))
  | cons first headers =>
    rw [hfirst] at hparse hheaders hfree
    split at hparse
    · cases hparse
    · obtain ⟨r, -, rfl⟩ := Option.map_eq_some_iff.mp hparse
      refine headerLoop_eq hblank (lines rest) (httpLines rest) headers [] ?_ hheaders
      intro header hmem
      exact hfree header (by simp [hmem])

theorem copyString_headerLoop (raws : List (List UInt8)) (token : List UInt8)
    (htoken : copyString ADMIN_TOKEN_MAX token = token) :
    copyString ADMIN_TOKEN_MAX (headerLoop raws token) = headerLoop raws token := by
  induction raws generalizing token with
  | nil => exact htoken
  | cons raw raws ih =>
    rw [headerLoop]
    split
    · exact htoken
    · refine ih _ ?_
      rw [headerToken_eq]
      cases bearer (httpTrimCopy raw) with
      | none => exact htoken
      | some sent => exact copyString_copyString _ _

theorem httpMapRequest_token {http : HttpRequest} {req : Request}
    (hparse : httpParseRequest buffer = some http) (hmap : httpMapRequest http = some req) :
    req.token = http.token ∧ req.requiredRole = requiredRole req.action := by
  have hcopy : copyString ADMIN_TOKEN_MAX http.token = http.token := by
    unfold httpParseRequest at hparse
    split at hparse
    · cases hparse
    split at hparse
    · cases hparse
    · obtain ⟨r, -, rfl⟩ := Option.map_eq_some_iff.mp hparse
      exact copyString_headerLoop _ _ rfl
  unfold httpMapRequest at hmap
  simp only [hcopy] at hmap
  -- all four commands take the token over
  split_ifs at hmap <;>
    · rw [← Option.some.inj hmap]
      exact ⟨rfl, rfl⟩

end Tokens

end Sodex.Admin
