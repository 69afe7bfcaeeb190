import Sodex.Json
import Sodex.SxHost

/-!
# The builtins of sx

`sx_eval_namespace_call` after its arguments. In a check no builtin asks the system: it goes on
with a placeholder.
-/
namespace Sodex.Sx

open CText Script

/-- A builtin that waits for its arguments. -/
abbrev Routine := List Value → Script Value

def isSpace (ch : UInt8) : Bool := ch = 32 ∨ ch = 9 ∨ ch = 13 ∨ ch = 10

def trimText (text : Text) : Text := (text.dropWhile isSpace).rdropWhile isSpace

def indexOf (text needle : Text) : ℤ :=
  match strstr needle text with
  | none => -1
  | some rest => text.length - rest.length

def contains (text needle : Text) : Bool := needle = [] ∨ 0 ≤ indexOf text needle

def sliceText (text : Text) (start stop : ℤ) : Option Text :=
  if start < 0 ∨ stop < start ∨ (text.length : ℤ) < stop then none
  else some ((text.drop start.toNat).take (stop - start).toNat)

def concatText (left right : Text) : Option Text :=
  if left.length + right.length < SX_TEXT_MAX then some (left ++ right) else none

/-- The digits of `strtol` with base ten, and what is left. -/
def readNumber : Text → ℤ → ℤ × Text
  | [], value => (value, [])
  | ch :: text, value =>
    if 48 ≤ ch ∧ ch ≤ 57 then readNumber text (CInt.toInt (value * 10 + (ch.toNat - 48)))
    else (value, ch :: text)

/-- `sx_parse_i32_string`. A text of blanks or of a sign alone is read as zero. -/
def parseI32 (text : Text) : Option ℤ :=
  if text = [] then none
  else
    let rest := text.dropWhile isSpace
    let (value, left) :=
      match rest with
      | 45 :: digits => ((CInt.toInt (-(readNumber digits 0).1)), (readNumber digits 0).2)
      | 43 :: digits => readNumber digits 0
      | digits => readNumber digits 0
    if left = [] then some value else none

def detachPipeFd (fd : ℤ) (h : Handles) : Handles :=
  if fd < 0 then h
  else
    let detach (p : Pipe) : Option Pipe :=
      let readFd := if p.readFd = fd then -1 else p.readFd
      let writeFd := if p.writeFd = fd then -1 else p.writeFd
      if readFd < 0 ∧ writeFd < 0 then none else some ⟨readFd, writeFd⟩
    { h with pipes := h.pipes.map (·.bind detach) }

def detachSocketFd (fd : ℤ) (h : Handles) : Handles :=
  if fd < 0 then h
  else { h with sockets := h.sockets.map (·.bind fun s => if s = fd then none else some s) }

def Handles.isTrackedSocket (h : Handles) (fd : ℤ) : Bool := 0 ≤ fd ∧ some fd ∈ h.sockets

def trackSocketFd (fd : ℤ) (h : Handles) : Option Handles :=
  if fd < 0 then none
  else if some fd ∈ h.sockets then some h
  else (freeSlot h.sockets).map fun i => { h with sockets := h.sockets.set i (some fd) }

/-- The descriptors that a child must not have. -/
def Handles.descriptors (h : Handles) : List ℤ :=
  h.pipes.reduceOption.flatMap (fun p => [p.readFd, p.writeFd]) ++ h.sockets.reduceOption

def allocPipe (readFd writeFd : ℤ) : Script (Option ℕ) :=
  withHandles fun h =>
    match freeSlot h.pipes with
    | none => pure none
    | some i => do
      setHandles fun h => { h with pipes := h.pipes.set i (some ⟨readFd, writeFd⟩) }
      pure (some i)

def allocList : Script (Option ℕ) :=
  withHandles fun h =>
    match freeSlot h.lists with
    | none => pure none
    | some i => do
      setHandles fun h => { h with lists := h.lists.set i (some []) }
      pure (some i)

def allocMap : Script (Option ℕ) :=
  withHandles fun h =>
    match freeSlot h.maps with
    | none => pure none
    | some i => do
      setHandles fun h => { h with maps := h.maps.set i (some (List.replicate SX_MAX_MAP_ITEMS none)) }
      pure (some i)

def storeResult (span : Span) (message : String) (outcome : Outcome) : Script Value :=
  withHandles fun h =>
    match freeSlot h.results with
    | none => failAt span message
    | some i => do
      setHandles fun h => { h with results := h.results.set i (some outcome) }
      pure (.result i)

section Effects

variable (execute : Bool) (span : Span)

/-- A text that is read from the system. -/
def readString (message : String) (m : Script (Option Text)) :
    Script Value := do
  let data ← guarded execute (some []) m
  let data ← orFail span message data
  pure (.ofBuffer data)

/-- Bytes that are read from the system. -/
def readBytes (message : String) (m : Script (Option Text)) :
    Script Value := do
  let data ← guarded execute (some []) m
  let data ← orFail span message data
  pure (.ofBytes data)

/-- Something that the system does or refuses. -/
def effect (message : String) (m : Script Bool) : Script Unit :=
  guarded execute () <| m >>= check span message

/-- `sx_capture_process_output`. -/
def captureFd (fd : ℤ) : Script (Option Text) :=
  if fd < 0 then pure none else ask (.capture fd)

/-- Everything is written to a descriptor. -/
def writeFd (fd : ℤ) (data : Text) : Script Bool :=
  if fd < 0 then pure false else ask (.write fd data)

def closeSocketFd (fd : ℤ) : Script Bool :=
  if fd < 0 then pure true else ask (.closeSocket fd)

def ioPrint (newline : Bool) : Routine
  | [value] => do
    effect execute span "output failed" <| ask (.output value.text)
    if newline then effect execute span "output failed" <| ask (.output [10])
    pure .unit
  | _ => failAt span "io.print/io.println expects 1 argument"

def ioReadAll : Routine
  | [] => readString execute span "io.read_all failed" <| captureFd 0
  | _ => failAt span "io.read_all expects 0 arguments"

def ioReadLine : Routine
  | [] => readString execute span "io.read_line failed" <| ask (.readLine 0)
  | _ => failAt span "io.read_line expects 0 arguments"

def ioReadFd : Routine
  | [.i32 fd] => readString execute span "io.read_fd failed" <| captureFd fd
  | _ => failAt span "io.read_fd expects 1 i32 argument"

def ioReadFdBytes : Routine
  | [.i32 fd] => readBytes execute span "io.read_fd_bytes failed" <| captureFd fd
  | _ => failAt span "io.read_fd_bytes expects 1 i32 argument"

def ioWriteFd : Routine
  | [.i32 fd, .string text] => do
    effect execute span "io.write_fd failed" <| writeFd fd text
    pure (.i32 text.length)
  | _ => failAt span "io.write_fd expects fd and string"

/-- `io.write_fd_bytes`: nothing is written without bytes, whatever the descriptor is. -/
def ioWriteFdBytes : Routine
  | [.i32 fd, .bytes data] => do
    if data ≠ [] then effect execute span "io.write_fd_bytes failed" <| ask (.write fd data)
    pure (.i32 data.length)
  | _ => failAt span "io.write_fd_bytes expects fd and bytes"

def ioClose : Routine
  | [.i32 fd] => withHandles fun h => do
    effect execute span "io.close failed" <|
      if h.isTrackedSocket fd then closeSocketFd fd else ask (.close fd)
    setHandles (detachPipeFd fd)
    setHandles (detachSocketFd fd)
    pure (.bool true)
  | _ => failAt span "io.close expects 1 i32 argument"

def pathQuestion (expects : String) (ask : Text → Script Bool) :
    Routine
  | [.string path] => do
    let answer ← guarded execute false <| ask path
    pure (.bool answer)
  | _ => failAt span expects

def pathEffect (expects failed : String) (act : Text → Script Bool) :
    Routine
  | [.string path] => do
    effect execute span failed <| act path
    pure (.bool true)
  | _ => failAt span expects

/-- Something that is done to two texts. -/
def textsEffect (expects failed : String)
    (act : Text → Text → Script Bool) :
    Routine
  | [.string first, .string second] => do
    effect execute span failed <| act first second
    pure (.bool true)
  | _ => failAt span expects

def fsExists : Routine :=
  pathQuestion execute span "fs.exists expects 1 string argument" fun path =>
    ask (.pathExists path)

def fsIsDir : Routine :=
  pathQuestion execute span "fs.is_dir expects 1 string argument" fun path => ask (.isDir path)

def fsReadText : Routine
  | [.string path] => readString execute span "fs.read_text failed" <| ask (.readFile path)
  | _ => failAt span "fs.read_text expects 1 string argument"

def fsReadBytes : Routine
  | [.string path] => readBytes execute span "fs.read_bytes failed" <| ask (.readFile path)
  | _ => failAt span "fs.read_bytes expects 1 string argument"

/-- `fs.try_read_text` and `fs.try_read_bytes`. -/
def fsTryRead (asBytes : Bool) : Routine
  | [.string path] => do
    let data ← guarded execute (some []) <| ask (.readFile path)
    let failed := if asBytes then ascii "fs.read_bytes failed" else ascii "fs.read_text failed"
    let outcome : Outcome :=
      match data with
      | none => ⟨false, .unit, failed⟩
      | some data => ⟨true, if asBytes then .ofBytes data else .ofBuffer data, []⟩
    storeResult span "fs.try_read_* failed" outcome
  | _ => failAt span "fs.try_read_* expects 1 string argument"

def fsListDir : Routine
  | [.string path] => readString execute span "fs.list_dir failed" <| ask (.listDir path)
  | _ => failAt span "fs.list_dir expects 1 string argument"

def fsWriteText (append : Bool) : Routine :=
  textsEffect execute span "fs.write_text/fs.append_text expects 2 string arguments"
    "fs.write_text/fs.append_text failed" fun path text => ask (.writeFile path text append)

def fsWriteBytes : Routine
  | [.string path, .bytes data] => do
    effect execute span "fs.write_bytes failed" <| ask (.writeFile path data false)
    pure (.i32 data.length)
  | _ => failAt span "fs.write_bytes expects string path and bytes"

def fsMkdir : Routine :=
  pathEffect execute span "fs.mkdir expects 1 string argument" "fs.mkdir failed" fun path =>
    ask (.mkdir path)

def fsRemove : Routine :=
  pathEffect execute span "fs.remove expects 1 string argument" "fs.remove failed" fun path => do
    let removed : Bool ← ask (.unlink path)
    if removed then pure true else ask (.rmdir path)

def fsRename : Routine :=
  textsEffect execute span "fs.rename expects 2 string arguments" "fs.rename failed"
    fun path target => ask (.rename path target)

def fsChdir : Routine :=
  pathEffect execute span "fs.chdir expects 1 string argument" "fs.chdir failed" fun path =>
    ask (.chdir path)

def fsCwd : Routine
  | [] => do
    let data ← guarded execute (some (ascii ".")) <| ask .currentDir
    let data ← orFail span "fs.cwd failed" data
    pure (.ofBuffer data)
  | _ => failAt span "fs.cwd expects 0 arguments"

def timeNowTicks : Routine
  | [] => do
    let ticks : ℤ ← guarded execute 0 <| ask .nowTicks
    pure (.i32 ticks)
  | _ => failAt span "time.now_ticks expects 0 arguments"

def timeSleepTicks : Routine
  | [.i32 ticks] => do
    effect execute span "time.sleep_ticks failed" <|
      if ticks < 0 then pure false
      else do
        ask (.sleep ticks)
        pure true
    pure (.bool true)
  | _ => failAt span "time.sleep_ticks expects 1 i32 argument"

/-- A new socket is kept in the table, or closed again if that is full. -/
def keepSocket (fd : ℤ) : Script Value :=
  withHandles fun h =>
    match trackSocketFd fd h with
    | none => do
      let _ ← closeSocketFd fd
      failAt span "socket table is full"
    | some h' => do
      setHandles fun _ => h'
      pure (.i32 fd)

def dummySocketFd : ℤ := SX_DUMMY_FD_BASE + 100

/-- `sx_build_sockaddr` with a host. -/
def buildSockaddr (host : Text) (port : ℤ) : Script (Option ℕ) :=
  if port < 0 ∨ 65535 < port then pure none else ask (.resolve host)

def netConnect : Routine
  | [.string host, .i32 port] =>
    guarded execute (.i32 dummySocketFd) do
      let address ← buildSockaddr host port
      let address ← orFail span "net.connect failed to resolve host" address
      let fd : Option ℤ ← ask .socket
      match fd with
      | none => failAt span "net.connect failed"
      | some fd =>
        let ok : Bool ← ask (.connect fd address port)
        if ok then keepSocket span fd
        else do
          let _ ← closeSocketFd fd
          failAt span "net.connect failed"
  | _ => failAt span "net.connect expects host and port"

/-- `net.listen`: the operation stands for `setsockopt`, `bind` and `listen`. -/
def netListen : Routine
  | [.i32 port] =>
    guarded execute (.i32 dummySocketFd) do
      if port < 0 ∨ 65535 < port then failAt span "net.listen failed"
      else
        let fd : Option ℤ ← ask .socket
        match fd with
        | none => failAt span "net.listen failed"
        | some fd =>
          let ok : Bool ← ask (.listen fd port)
          if ok then keepSocket span fd
          else do
            let _ ← closeSocketFd fd
            failAt span "net.listen failed"
  | _ => failAt span "net.listen expects 1 i32 port"

def netAccept : Routine
  | [.i32 listener] =>
    guarded execute (.i32 dummySocketFd) do
      let fd : Option ℤ ← ask (.accept listener)
      let fd ← orFail span "net.accept failed" fd
      keepSocket span fd
  | _ => failAt span "net.accept expects 1 i32 socket"

/-- `sx_socket_read_text`. -/
def receive (fd : ℤ) : Script (Option Text) :=
  if fd < 0 then pure none else ask (.receive fd)

def netRead (asBytes : Bool) : Routine
  | [.i32 fd] =>
    if asBytes then readBytes execute span "net.read/net.read_bytes failed" <| receive fd
    else readString execute span "net.read/net.read_bytes failed" <| receive fd
  | _ => failAt span "net.read/net.read_bytes expects 1 i32 socket"

/-- `sx_socket_write_all`. -/
def sendAll (fd : ℤ) (data : Text) : Script Bool :=
  if fd < 0 then pure false else ask (.send fd data)

def netWrite : Routine
  | [.i32 fd, .string text] => do
    effect execute span "net.write/net.write_bytes failed" <| sendAll fd text
    pure (.i32 text.length)
  | [.i32 _, _] => failAt span "net.write expects string payload"
  | _ => failAt span "net.write/net.write_bytes expects socket and payload"

def netWriteBytes : Routine
  | [.i32 fd, .bytes data] => do
    effect execute span "net.write/net.write_bytes failed" <| sendAll fd data
    pure (.i32 data.length)
  | [.i32 _, _] => failAt span "net.write_bytes expects bytes payload"
  | _ => failAt span "net.write/net.write_bytes expects socket and payload"

def netPollRead : Routine
  | [.i32 fd, .i32 timeout] => do
    let ready : ℤ ← guarded execute 0 <|
      if fd < 0 then pure (-1) else ask (.poll fd timeout)
    if ready < 0 then failAt span "net.poll_read failed" else pure (.bool (0 < ready))
  | _ => failAt span "net.poll_read expects socket and timeout"

def netClose : Routine
  | [.i32 fd] => do
    effect execute span "net.close failed" <| closeSocketFd fd
    setHandles (detachSocketFd fd)
    pure (.bool true)
  | _ => failAt span "net.close expects 1 i32 socket"

/-- The texts of arguments that are all strings. -/
def stringArgs : List Value → Option (List Text)
  | [] => some []
  | .string text :: rest => (stringArgs rest).map (text :: ·)
  | _ => none

/-- `sx_spawn_from_values` with the texts that are given to the child. -/
def spawnFromValues (argv : List Text) (stdin stdout stderr : ℤ) : Script (Option ℤ) :=
  if argv = [] then pure none
  else withHandles fun h =>
    guarded execute (some SX_DUMMY_PID) <| ask (.spawn argv stdin stdout stderr h.descriptors)

def waitForPid (pid : ℤ) : Script (Option ℤ) :=
  if pid < 0 then pure none else ask (.wait pid)

/-- `sx_run_process` with `capture_output`. -/
def captureProcess (argv : List Text) : Script (Option Value) := do
  let fds : Option (ℤ × ℤ) ← ask .pipe
  match fds with
  | none => pure none
  | some (readFd, writeFd) =>
    let pid ← spawnFromValues execute argv (-1) writeFd (-1)
    match pid with
    | none => do
      let _ ← ask (.close readFd)
      let _ ← ask (.close writeFd)
      pure none
    | some pid => do
      let _ ← ask (.close writeFd)
      let data : Option Text ← ask (.captureChild readFd pid)
      let _ ← ask (.close readFd)
      pure (data.map .ofBuffer)

def runProcess (argv : List Text) (capture : Bool) : Script (Option Value) :=
  if argv = [] then pure none
  else
    guarded execute (some (if capture then .string [] else .i32 0)) <|
      if capture then captureProcess execute argv
      else do
        let pid ← spawnFromValues execute argv (-1) (-1) (-1)
        match pid with
        | none => pure none
        | some pid =>
          let status ← waitForPid pid
          pure (status.map .i32)

/-- `proc.run`, `proc.capture`, `proc.spawn`, `proc.try_run` and `proc.try_capture`, with what is
done for arguments that are strings. -/
def procStrings (act : List Text → Script Value) (args : List Value) : Script Value :=
  match stringArgs args with
  | none => failAt span "proc.run/proc.capture/proc.spawn expects string arguments"
  | some argv => act argv

def procSpawn : Routine :=
  procStrings span fun argv => do
    let pid ← spawnFromValues execute argv (-1) (-1) (-1)
    let pid ← orFail span "proc.spawn failed" pid
    pure (.i32 pid)

def procRun (capture : Bool) : Routine :=
  procStrings span fun argv => do
    let value ← runProcess execute argv capture
    orFail span "proc.run/proc.capture failed" value

def procTryRun (capture : Bool) : Routine :=
  procStrings span fun argv => do
    let value ← runProcess execute argv capture
    let failed := if capture then ascii "proc.capture failed" else ascii "proc.run failed"
    let outcome : Outcome :=
      match value with
      | none => ⟨false, .unit, failed⟩
      | some value => ⟨true, value, []⟩
    storeResult span "proc.try_* failed" outcome

def procWait : Routine
  | [.i32 pid] => do
    let status ← guarded execute (some 0) <| waitForPid pid
    let status ← orFail span "proc.wait failed" status
    pure (.i32 status)
  | _ => failAt span "proc.wait expects 1 i32 argument"

/-- `proc.pipe`: in a check the descriptors depend on the handle. -/
def procPipe : Routine
  | [] =>
    if execute then do
      let fds : Option (ℤ × ℤ) ← ask .pipe
      let (readFd, writeFd) ← orFail span "proc.pipe failed" fds
      let handle ← allocPipe readFd writeFd
      match handle with
      | none => do
        let _ ← ask (.close readFd)
        let _ ← ask (.close writeFd)
        failAt span "proc.pipe handle table is full"
      | some handle => pure (.i32 handle)
    else do
      let handle ← allocPipe (-1) (-1)
      let handle ← orFail span "proc.pipe handle table is full" handle
      let readFd := SX_DUMMY_FD_BASE + handle * 2
      setHandles fun h => { h with pipes := h.pipes.set handle (some ⟨readFd, readFd + 1⟩) }
      pure (.i32 handle)
  | _ => failAt span "proc.pipe expects 0 arguments"

/-- `proc.pipe_read_fd` and `proc.pipe_write_fd`. -/
def procPipeFd (closed : String) (fd : Pipe → ℤ) : Routine
  | [.i32 handle] => withHandles fun h =>
    match slot h.pipes handle with
    | none => failAt span "invalid pipe handle"
    | some p => if fd p < 0 then failAt span closed else pure (.i32 (fd p))
  | _ => failAt span "proc.pipe_* expects 1 i32 handle"

/-- One end of a pipe, if it is still open. -/
def closeEnd (isOpen : Bool) (fd : ℤ) : Script Unit :=
  if isOpen then do
    let _ ← ask (.close fd)
    pure ()
  else pure ()

/-- `sx_close_pipe_handle` on the descriptors. -/
def closePipe (p : Pipe) : Script Unit := do
  closeEnd (0 ≤ p.readFd) p.readFd
  closeEnd (0 ≤ p.writeFd ∧ p.writeFd ≠ p.readFd) p.writeFd

def procPipeClose : Routine
  | [.i32 handle] => withHandles fun h =>
    match slot h.pipes handle with
    | none => pure (.bool true)
    | some p => do
      guarded execute () <| closePipe p
      setHandles fun h => { h with pipes := h.pipes.set handle.toNat none }
      pure (.bool true)
  | _ => failAt span "proc.pipe_* expects 1 i32 handle"

def procSpawnIo : Routine
  | .string path :: .i32 stdin :: .i32 stdout :: .i32 stderr :: rest =>
    match stringArgs rest with
    | none => failAt span "proc.spawn_io command arguments must be strings"
    | some argv => do
      let pid ← spawnFromValues execute (path :: argv) stdin stdout stderr
      let pid ← orFail span "proc.spawn_io failed" pid
      pure (.i32 pid)
  | _ => failAt span "proc.spawn_io expects path and 3 fd arguments"

def procFork : Routine
  | [] => do
    let pid : ℤ ← guarded execute SX_DUMMY_PID <| ask .fork
    if pid < 0 then failAt span "proc.fork failed" else pure (.i32 pid)
  | _ => failAt span "proc.fork expects 0 arguments"

def procExit : Routine
  | [.i32 code] => do
    guarded execute () do
      ask (.exit code)
      exit code
    pure .unit
  | _ => failAt span "proc.exit expects 1 i32 argument"

end Effects

section Values

variable (span : Span)

def textFunction (expects : String) (f : Text → Script Value) : Routine
  | [.string text] => f text
  | _ => failAt span expects

def textsFunction (expects : String) (f : Text → Text → Script Value) :
    Routine
  | [.string first, .string second] => f first second
  | _ => failAt span expects

def textLen : Routine :=
  textFunction span "text.len expects 1 string argument" fun text => pure (.i32 text.length)

def textIndexOf : Routine :=
  textsFunction span "text.index_of expects 2 string arguments" fun text needle =>
    pure (.i32 (indexOf text needle))

def textSlice : Routine
  | [.string text, .i32 start, .i32 stop] => do
    let slice ← orFail span "text.slice failed" (sliceText text start stop)
    pure (.string slice)
  | _ => failAt span "text.slice expects string, start, end"

def textToI32 : Routine :=
  textFunction span "text.to_i32 expects 1 string argument" fun text => do
    let value ← orFail span "text.to_i32 failed" (parseI32 text)
    pure (.i32 value)

def textContains : Routine :=
  textsFunction span "text.contains expects 2 string arguments" fun text needle =>
    pure (.bool (contains text needle))

def textTrim : Routine :=
  textFunction span "text.trim expects 1 string argument" fun text => pure (.string (trimText text))

def textConcat : Routine :=
  textsFunction span "text.concat expects 2 string arguments" fun left right => do
    let text ← orFail span "text.concat failed" (concatText left right)
    pure (.string text)

def parseJson (text : Text) : Option (List Json.Token) := (Json.parse text 256).toOption

def jsonValid : Routine :=
  textFunction span "json.valid expects 1 string argument" fun text =>
    pure (.bool (parseJson text).isSome)

/-- `json.get_*`, with what is made of the value that belongs to the key. -/
def jsonGet (get : Text → Json.Token → Script Value) : Routine :=
  textsFunction span "json.get_* expects json text and key string" fun text key => do
    let tokens ← orFail span "json.parse failed" (parseJson text)
    let index ← orFail span "json key not found" (Json.findKey text tokens 0 key)
    -- the rest of the token array is zero
    get text (tokens[index]?.getD ⟨.none, 0, some 0, 0, some 0⟩)

def jsonGetStr : Routine :=
  jsonGet span fun text token => do
    let value ← orFail span "json.get_str failed" (Json.tokenStr text token SX_TEXT_MAX)
    pure (.ofBuffer value)

def jsonGetBool : Routine :=
  jsonGet span fun text token => do
    let value ← orFail span "json.get_bool failed" (Json.tokenBool text token)
    pure (.bool value)

def jsonGetI32 : Routine :=
  jsonGet span fun text token => do
    let value ← orFail span "json.get_i32 failed" (Json.tokenInt text token)
    pure (.i32 value)

def bytesFromText : Routine :=
  textFunction span "bytes.from_text expects 1 string argument" fun text => pure (.ofBytes text)

def bytesToText : Routine
  | [.bytes data] => pure (.ofBuffer data)
  | _ => failAt span "bytes.to_text expects 1 bytes argument"

def bytesLen : Routine
  | [.bytes data] => pure (.i32 data.length)
  | _ => failAt span "bytes.len expects 1 bytes argument"

def listNew : Routine
  | [] => do
    let handle ← allocList
    let handle ← orFail span "list handle table is full" handle
    pure (.list handle)
  | _ => failAt span "list.new expects 0 arguments"

/-- The other builtins of a list, with what is done to its items and the arguments that follow. -/
def listFunction (f : ℕ → List Value → Routine) :
    Routine
  | .list handle :: args => withHandles fun h =>
    match slot h.lists handle with
    | none => failAt span "invalid list handle"
    | some items => f handle items args
  | _ => failAt span "list.* expects list as first argument"

def setList (handle : ℕ) (items : List Value) : Script Unit :=
  setHandles fun h => { h with lists := h.lists.set handle (some items) }

def listLen : Routine :=
  listFunction span fun _ items args =>
    if args = [] then pure (.i32 items.length) else failAt span "list.len expects 1 argument"

def listPush : Routine :=
  listFunction span fun handle items args =>
    match args with
    | [value] =>
      if SX_MAX_LIST_ITEMS ≤ items.length then failAt span "list is full"
      else do
        setList handle (items ++ [value])
        pure (.i32 (items.length + 1))
    | _ => failAt span "list.push expects 2 arguments"

def listGet : Routine :=
  listFunction span fun _ items args =>
    match args with
    | [.i32 index] =>
      if index < 0 then failAt span "list index out of range"
      else orFail span "list index out of range" items[index.toNat]?
    | _ => failAt span "list.get/list.set expects list, index, [value]"

def listSet : Routine :=
  listFunction span fun handle items args =>
    match args with
    | [.i32 index, value] =>
      if index < 0 ∨ (items.length : ℤ) ≤ index then failAt span "list index out of range"
      else do
        setList handle (items.set index.toNat value)
        pure (.bool true)
    | _ => failAt span "list.get/list.set expects list, index, [value]"

def mapNew : Routine
  | [] => do
    let handle ← allocMap
    let handle ← orFail span "map handle table is full" handle
    pure (.map handle)
  | _ => failAt span "map.new expects 0 arguments"

/-- The other builtins of a map, with what is done to its entries and the arguments that follow. -/
def mapFunction (f : ℕ → List (Option (Text × Value)) → Routine) :
    Routine
  | .map handle :: args => withHandles fun h =>
    match slot h.maps handle with
    | none => failAt span "invalid map handle"
    | some entries => f handle entries args
  | _ => failAt span "map.* expects map as first argument"

/-- The builtins of a map and a key, with the index of the entry of that key. -/
def mapKeyFunction
    (f : ℕ → List (Option (Text × Value)) → Text → Option ℕ → Routine) :
    Routine :=
  mapFunction span fun handle entries args =>
    match args with
    | .string key :: args =>
      f handle entries key (entries.findIdx? fun entry => entry.any (·.1 = key)) args
    | _ => failAt span "map.* expects string key as second argument"

def setMap (handle : ℕ) (entries : List (Option (Text × Value))) : Script Unit :=
  setHandles fun h => { h with maps := h.maps.set handle (some entries) }

def mapLen : Routine :=
  mapFunction span fun _ entries args =>
    if args = [] then pure (.i32 entries.reduceOption.length)
    else failAt span "map.len expects 1 argument"

def mapHas : Routine :=
  mapKeyFunction span fun _ _ _ found args =>
    if args = [] then pure (.bool found.isSome) else failAt span "map.has expects 2 arguments"

def mapGet : Routine :=
  mapKeyFunction span fun _ entries _ found args =>
    if args = [] then
      orFail span "map key not found"
        ((found.bind fun i => (entries[i]?).join).map Prod.snd)
    else failAt span "map.get expects 2 arguments"

def mapSet : Routine :=
  mapKeyFunction span fun handle entries key found args =>
    match args with
    | [value] =>
      match found.or (freeSlot entries) with
      | none => failAt span "map is full"
      | some i => do
        setMap handle (entries.set i (some (key, value)))
        pure (.bool true)
    | _ => failAt span "map.set expects 3 arguments"

def mapRemove : Routine :=
  mapKeyFunction span fun handle entries _ found args =>
    if args = [] then
      match found with
      | none => pure (.bool false)
      | some i => do
        setMap handle (entries.set i none)
        pure (.bool true)
    else failAt span "map.remove expects 2 arguments"

def resultOk : Routine
  | [value] => storeResult span "result.ok expects 1 argument" ⟨true, value, []⟩
  | _ => failAt span "result.ok expects 1 argument"

def resultErr : Routine
  | [.string text] => storeResult span "result.err expects 1 string argument" ⟨false, .unit, text⟩
  | _ => failAt span "result.err expects 1 string argument"

/-- The other builtins of a result. -/
def resultFunction (f : Outcome → Script Value) : Routine
  | [.result handle] => withHandles fun h =>
    match slot h.results handle with
    | none => failAt span "invalid result handle"
    | some outcome => f outcome
  | _ => failAt span "result.* expects result as first argument"

def resultIsOk : Routine :=
  resultFunction span fun outcome => pure (.bool outcome.ok)

def resultError : Routine :=
  resultFunction span fun outcome => pure (.ofText outcome.error)

def resultValue : Routine :=
  resultFunction span fun outcome =>
    if outcome.ok then pure outcome.value else failAt span "result has no value"

def Value.equals (left right : Value) : Bool := left = right

def testAssertEq : Routine
  | [left, right] =>
    if left.equals right then pure .unit else failAt span "test.assert_eq failed"
  | _ => failAt span "test.assert_eq expects 2 arguments"

def testFail : Routine
  | [.string text] => fail ⟨span, text.take (SX_DIAG_MESSAGE_MAX - 1)⟩
  | _ => failAt span "test.fail expects 1 string argument"

def procArgvCount (argv : List Text) : Routine
  | [] => pure (.i32 argv.length)
  | _ => failAt span "proc.argv_count expects 0 arguments"

def procArgv (argv : List Text) : Routine
  | [.i32 index] =>
    if index < 0 then failAt span "proc.argv index out of range"
    else do
      let text ← orFail span "proc.argv index out of range" argv[index.toNat]?
      pure (.ofText text)
  | _ => failAt span "proc.argv expects 1 i32 argument"

def envGet (getenv : Text → Option Text) (name : Text) : Option Text :=
  if name = [] then none else (getenv name).filter (· ≠ [])

def procEnv (getenv : Text → Option Text) : Routine :=
  textFunction span "proc.env/proc.has_env expects 1 string argument" fun name => do
    let text ← orFail span "proc.env key not found" (envGet getenv name)
    pure (.ofText text)

def procHasEnv (getenv : Text → Option Text) : Routine :=
  textFunction span "proc.env/proc.has_env expects 1 string argument" fun name =>
    pure (.bool (envGet getenv name).isSome)

def procStatusOk : Routine
  | [.i32 status] => pure (.bool (status = 0))
  | _ => failAt span "proc.status_ok expects 1 i32 argument"

end Values

section Namespaces

variable (getenv : Text → Option Text) (execute : Bool) (span : Span)

def ioBuiltin (name : Text) : Option Routine :=
  if name = ascii "print" then some (ioPrint execute span false)
  else if name = ascii "println" then some (ioPrint execute span true)
  else if name = ascii "read_all" then some (ioReadAll execute span)
  else if name = ascii "read_line" then some (ioReadLine execute span)
  else if name = ascii "read_fd" then some (ioReadFd execute span)
  else if name = ascii "read_fd_bytes" then some (ioReadFdBytes execute span)
  else if name = ascii "write_fd" then some (ioWriteFd execute span)
  else if name = ascii "write_fd_bytes" then some (ioWriteFdBytes execute span)
  else if name = ascii "close" then some (ioClose execute span)
  else none

def fsBuiltin (name : Text) : Option Routine :=
  if name = ascii "exists" then some (fsExists execute span)
  else if name = ascii "read_text" then some (fsReadText execute span)
  else if name = ascii "read_bytes" then some (fsReadBytes execute span)
  else if name = ascii "try_read_text" then some (fsTryRead execute span false)
  else if name = ascii "try_read_bytes" then some (fsTryRead execute span true)
  else if name = ascii "list_dir" then some (fsListDir execute span)
  else if name = ascii "write_text" then some (fsWriteText execute span false)
  else if name = ascii "append_text" then some (fsWriteText execute span true)
  else if name = ascii "write_bytes" then some (fsWriteBytes execute span)
  else if name = ascii "mkdir" then some (fsMkdir execute span)
  else if name = ascii "remove" then some (fsRemove execute span)
  else if name = ascii "rename" then some (fsRename execute span)
  else if name = ascii "chdir" then some (fsChdir execute span)
  else if name = ascii "cwd" then some (fsCwd execute span)
  else if name = ascii "is_dir" then some (fsIsDir execute span)
  else none

def timeBuiltin (name : Text) : Option Routine :=
  if name = ascii "now_ticks" then some (timeNowTicks execute span)
  else if name = ascii "sleep_ticks" then some (timeSleepTicks execute span)
  else none

def textBuiltin (name : Text) : Option Routine :=
  if name = ascii "len" then some (textLen span)
  else if name = ascii "index_of" then some (textIndexOf span)
  else if name = ascii "slice" then some (textSlice span)
  else if name = ascii "to_i32" then some (textToI32 span)
  else if name = ascii "contains" then some (textContains span)
  else if name = ascii "trim" then some (textTrim span)
  else if name = ascii "concat" then some (textConcat span)
  else none

/-- `sx_eval_namespace_call` of a name that no namespace has. -/
def unknownBuiltin : Script Value := failAt span "unknown builtin"

/-- A name other than those of the namespace is unknown only after the key has been found. -/
def jsonBuiltin (name : Text) : Option Routine :=
  if name = ascii "valid" then some (jsonValid span)
  else if name = ascii "get_str" then some (jsonGetStr span)
  else if name = ascii "get_bool" then some (jsonGetBool span)
  else if name = ascii "get_i32" then some (jsonGetI32 span)
  else some (jsonGet span fun _ _ => unknownBuiltin span)

def bytesBuiltin (name : Text) : Option Routine :=
  if name = ascii "from_text" then some (bytesFromText span)
  else if name = ascii "to_text" then some (bytesToText span)
  else if name = ascii "len" then some (bytesLen span)
  else none

/-- A name other than those of the namespace is unknown only after the list has been found. -/
def listBuiltin (name : Text) : Option Routine :=
  if name = ascii "new" then some (listNew span)
  else if name = ascii "len" then some (listLen span)
  else if name = ascii "push" then some (listPush span)
  else if name = ascii "get" then some (listGet span)
  else if name = ascii "set" then some (listSet span)
  else some (listFunction span fun _ _ _ => unknownBuiltin span)

/-- A name other than those of the namespace is unknown only after the map and a key have been
found. -/
def mapBuiltin (name : Text) : Option Routine :=
  if name = ascii "new" then some (mapNew span)
  else if name = ascii "len" then some (mapLen span)
  else if name = ascii "has" then some (mapHas span)
  else if name = ascii "get" then some (mapGet span)
  else if name = ascii "set" then some (mapSet span)
  else if name = ascii "remove" then some (mapRemove span)
  else some (mapKeyFunction span fun _ _ _ _ _ => unknownBuiltin span)

/-- A name other than those of the namespace is unknown only after the result has been found. -/
def resultBuiltin (name : Text) : Option Routine :=
  if name = ascii "ok" then some (resultOk span)
  else if name = ascii "err" then some (resultErr span)
  else if name = ascii "is_ok" then some (resultIsOk span)
  else if name = ascii "error" then some (resultError span)
  else if name = ascii "value" then some (resultValue span)
  else some (resultFunction span fun _ => unknownBuiltin span)

def testBuiltin (name : Text) : Option Routine :=
  if name = ascii "assert_eq" then some (testAssertEq span)
  else if name = ascii "fail" then some (testFail span)
  else none

def netBuiltin (name : Text) : Option Routine :=
  if name = ascii "connect" then some (netConnect execute span)
  else if name = ascii "listen" then some (netListen execute span)
  else if name = ascii "accept" then some (netAccept execute span)
  else if name = ascii "read" then some (netRead execute span false)
  else if name = ascii "read_bytes" then some (netRead execute span true)
  else if name = ascii "write" then some (netWrite execute span)
  else if name = ascii "write_bytes" then some (netWriteBytes execute span)
  else if name = ascii "poll_read" then some (netPollRead execute span)
  else if name = ascii "close" then some (netClose execute span)
  else none

def procBuiltin (argv : List Text) (name : Text) : Option Routine :=
  if name = ascii "argv_count" then some (procArgvCount span argv)
  else if name = ascii "argv" then some (procArgv span argv)
  else if name = ascii "env" then some (procEnv span getenv)
  else if name = ascii "has_env" then some (procHasEnv span getenv)
  else if name = ascii "status_ok" then some (procStatusOk span)
  else if name = ascii "run" then some (procRun execute span false)
  else if name = ascii "capture" then some (procRun execute span true)
  else if name = ascii "spawn" then some (procSpawn execute span)
  else if name = ascii "try_run" then some (procTryRun execute span false)
  else if name = ascii "try_capture" then some (procTryRun execute span true)
  else if name = ascii "wait" then some (procWait execute span)
  else if name = ascii "pipe" then some (procPipe execute span)
  else if name = ascii "pipe_read_fd" then
    some (procPipeFd span "pipe read end is closed" Pipe.readFd)
  else if name = ascii "pipe_write_fd" then
    some (procPipeFd span "pipe write end is closed" Pipe.writeFd)
  else if name = ascii "pipe_close" then some (procPipeClose execute span)
  else if name = ascii "spawn_io" then some (procSpawnIo execute span)
  else if name = ascii "fork" then some (procFork execute span)
  else if name = ascii "exit" then some (procExit execute span)
  else none

def findBuiltin (argv : List Text) (target name : Text) : Option Routine :=
  if target = ascii "io" then ioBuiltin execute span name
  else if target = ascii "fs" then fsBuiltin execute span name
  else if target = ascii "time" then timeBuiltin execute span name
  else if target = ascii "text" then textBuiltin span name
  else if target = ascii "json" then jsonBuiltin span name
  else if target = ascii "bytes" then bytesBuiltin span name
  else if target = ascii "list" then listBuiltin span name
  else if target = ascii "map" then mapBuiltin span name
  else if target = ascii "result" then resultBuiltin span name
  else if target = ascii "test" then testBuiltin span name
  else if target = ascii "net" then netBuiltin execute span name
  else if target = ascii "proc" then procBuiltin getenv execute span argv name
  else none

/-- `sx_eval_namespace_call`, when the arguments have been evaluated. -/
def builtinScript (argv : List Text) (target name : Text) (args : List Value) :
    Script Value :=
  match findBuiltin getenv execute span argv target name with
  | none => unknownBuiltin span
  | some builtin => builtin args

end Namespaces

def runBuiltin {W : Type} (sys : System W) (execute : Bool) (span : Span) (argv : List Text)
    (target name : Text) (args : List Value) : Builtin W Value :=
  (builtinScript sys.getenv execute span argv target name args).run sys

end Sodex.Sx
