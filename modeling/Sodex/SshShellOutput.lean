import Sodex.SshSession

/-!
# The output of the shell reaches the client

As long as every read of the terminal fits the window of the client, what is sent on the
channel is the translation of what was read. A read that does not fit is cut: the rest of it
is neither sent nor kept.
-/
namespace Sodex.Ssh

open CInt CtrMode Runs Newlines List

/-- The channel data that was queued on the connection. -/
def shellOutput (s : Server) : List UInt8 := s.out.accepted.flatMap dataOf

/-- What was queued is the translation of what was read. -/
def Delivers (s : Server) (read : List UInt8) : Prop :=
  shellOutput s = cook false read ∧ s.channel.txPrevCr = crAfter false read

section Delivers

variable {c : Crypto} {cfg : Config} {s s' : Server} {read : List UInt8}

section

variable (h : Delivers s read)
include h

theorem Delivers.quiet (hq : Quiet s s') : Delivers s' read := by
  obtain ⟨new, hnew, hplain⟩ := hq.sent
  have hnone : new.flatMap dataOf = [] :=
    flatMap_eq_nil_iff.mpr fun payload hmem => dataOf_plain (hplain payload hmem)
  refine ⟨?_, (congrArg Flow.txPrevCr hq.flow).trans h.2⟩
  rw [shellOutput, hnew, flatMap_append, hnone, append_nil]
  exact h.1

/-- Messages with the translation of further bytes. -/
theorem Delivers.sent {chunks : List (List UInt8)}
    {reads : List (Server × List UInt8)} (hsent : Sent s s' chunks)
    (htranslates : Translates s s' chunks reads) : Delivers s' (read ++ bytesRead reads) := by
  have hdata : (chunks.map (dataMessage s.channel.peerId)).flatMap dataOf = chunks.flatten := by
    simp [flatMap_map, dataOf_dataMessage, flatMap_id']
  refine ⟨?_, ?_⟩
  · rw [shellOutput, hsent.accepted, flatMap_append, hdata, htranslates.1, h.2, cook_append,
      ← h.1]
    rfl
  · rw [htranslates.2, h.2, crAfter_append]

theorem Delivers.rekeys {mem : Memory} {payload : List UInt8}
    (hkeys : Rekeys mem payload s s') : Delivers s' read := by
  cases hkeys <;> exact h

/-- A phase that does not read the terminal. -/
theorem Delivers.packet {tick : UInt32} {outside : Memory}
    {signer : SignerReply} (heffect : Effect c tick s (.packet outside signer) s')
    (hin : s'.link.inUse = true) : Delivers s' read := by
  have hrx (rx : Rx) : Delivers { s with rx := rx } read := h
  cases heffect with
  | release => cases hin
  | bytes buf hplain hq => cases hplain
  | idle _ hq => exact h.quiet hq
  | invalid _ _ hq => exact (hrx _).quiet hq
  | message _ _ _ _ hkeys hq => exact ((hrx _).rekeys hkeys).quiet hq
  | opening hrec hdec hmsg hq =>
    rename_i payload rx
    rcases handleChannelOpen_cases (payloadMem _ outside) hmsg with
      ⟨-, hrefused⟩ | ⟨request, -, hopened⟩
    · exact ((hrx _).quiet hrefused).quiet hq
    · obtain ⟨rng, out, hframe, hout⟩ := queueChannelOpenConfirmation_frame c
        { s with rx := rx, channel := s.channel.openFor request }
      rw [hopened, hframe] at hq
      have hconfirmed : out.accepted.flatMap dataOf = s.out.accepted.flatMap dataOf := by
        rcases hout with hout | hout
        · rw [hout]
        · rw [hout, flatMap_append]
          exact append_nil _
      have h' : Delivers { s with rng := rng, rx := rx, out := out,
                                  channel := s.channel.openFor request } read :=
        ⟨hconfirmed.trans h.1, h.2⟩
      exact h'.quiet hq
  | adjusting _ _ hmsg hq =>
    obtain ⟨amount, -, hadjusted⟩ := handleWindowAdjust_eq (payloadMem _ outside) hmsg
    rw [hadjusted] at hq
    refine Delivers.quiet ?_ hq
    exact h

end

def ReadsFit (c : Crypto) (x : Session) (input : UInt32 × Phase) : Prop :=
  ∀ y ∈ readsIn c x.server input, Fits y.1 y.2

instance (c : Crypto) (x : Session) (input : UInt32 × Phase) : Decidable (ReadsFit c x input) :=
  inferInstanceAs (Decidable (∀ y ∈ readsIn c x.server input, Fits y.1 y.2))

theorem Delivers.step (x : Session) (tick : UInt32) (phase : PollPhase) (s' : Server)
    (hin : x.server.link.inUse = true) (h : Delivers x.server x.read)
    (hfits : ReadsFit c x (tick, .poll phase)) (heffect : Effect c tick x.server phase s')
    (hin' : s'.link.inUse = true) :
    Delivers s' (x.read ++ bytesRead (readsIn c x.server (tick, .poll phase))) := by
  cases phase with
  | packet outside signer =>
    rw [show readsIn c x.server (tick, .poll (.packet outside signer)) = [] from rfl, bytesRead,
      flatMap_nil, append_nil]
    exact h.packet heffect hin'
  | shell blocked reads alive =>
    cases heffect with
    | release => cases hin'
    | bytes buf hplain hq => cases hplain
    | skip hskip =>
      have hnone : readsIn c x.server (tick, .poll (.shell blocked reads alive)) = [] :=
        if_pos (.inr hskip)
      rw [hnone, bytesRead, flatMap_nil, append_nil]
      exact h
    | output hopen hresult hq =>
      have hreads : readsIn c x.server (tick, .poll (.shell blocked reads alive)) =
          ttyReads c tick x.server blocked reads := if_neg (by simp [hin, hopen, hresult])
      rw [ReadsFit, hreads] at hfits
      obtain ⟨chunks, hsent, htranslates, -⟩ := pumpTtyToChannel_sent c tick x.server blocked reads
      rw [hreads]
      exact (h.sent hsent (htranslates hfits)).quiet hq
  | _ =>
    rw [show readsIn c x.server (tick, .poll _) = [] from rfl, bytesRead, flatMap_nil,
      append_nil]
    cases heffect with
    | release => cases hin'
    | bytes buf hplain hq => exact Delivers.quiet (s := x.server.withBuf buf) h hq

end Delivers

/-- In every run in which each read of the terminal fits the window of the client, the channel
data queued on the connection is the translation of all bytes that were read from the terminal. -/
theorem shell_output_delivered (c : Crypto) (cfg : Config) (phases : List (UInt32 × Phase))
    (x : Session) (hrun : run (sessionStep c cfg) sessionInit phases = some x)
    (hfits : Along (sessionStep c cfg) (ReadsFit c) sessionInit phases)
    (hin : x.server.link.inUse = true) : shellOutput x.server = cook false x.read := by
  refine (session_invariant (J := fun x => Delivers x.server x.read) ?_ ?_ phases x hrun hfits
    hin).1
  · intro s hout hchannel
    exact ⟨by simp [shellOutput, hout, resetOut], by simp [hchannel, resetChannel]⟩
  · exact Delivers.step

/-- A request for the channel with a window. -/
def openSession (window maxPacket : UInt32) : List UInt8 :=
  90 :: wireText "session" ++ writeU32Be 7 ++ writeU32Be window ++ writeU32Be maxPacket

def shellRequest : List UInt8 := 98 :: writeU32Be 0 ++ wireText "shell" ++ [0]

def windowAdjust (amount : UInt32) : List UInt8 := 93 :: writeU32Be 0 ++ writeU32Be amount

/-- A tick at which the shell of the connection runs and has written `text`. -/
def shellTick (tick : UInt32) (chunk : List UInt8) (text : String) : TickInput :=
  { clientTick tick none [] chunk with tty := true, pid := 5, reads := [ascii text], alive := true }

/-- A client that opens a channel with a window and has its shell started. -/
def shellClient (window : UInt32) (ticks : List TickInput) : List (UInt32 × Phase) :=
  runPhases ([clientTick 1 (some true) clientBanner
      (clearPacket serviceRequest ++ clearPacket (passwordRequest "pw") ++
        clearPacket (openSession window 1000) ++ clearPacket shellRequest),
    shellTick 2 [] "", shellTick 3 [] "", shellTick 4 [] "", shellTick 5 [] ""] ++ ticks)

/-- A shell that writes two lines, the second of them in two parts. -/
def twoLines : List (UInt32 × Phase) :=
  shellClient 100 [shellTick 6 [] "ab\ncd", shellTick 7 [] "e\n"]

theorem twoLines_delivered :
    Along (sessionStep zeroCrypto exampleConfig) (ReadsFit zeroCrypto) sessionInit twoLines ∧
    ∃ x, run (sessionStep zeroCrypto exampleConfig) sessionInit twoLines = some x ∧
      x.read = ascii "ab\ncde\n" ∧ shellOutput x.server = ascii "ab\r\ncde\r\n" := by
  have hfits : Along (sessionStep zeroCrypto exampleConfig) (ReadsFit zeroCrypto) sessionInit
      twoLines := by decide +kernel
  have hend : (run (sessionStep zeroCrypto exampleConfig) sessionInit twoLines).map
      (fun x => (x.server.link.inUse, x.read)) = some (true, ascii "ab\ncde\n") := by
    decide +kernel
  obtain ⟨x, hrun, hx⟩ := Option.map_eq_some_iff.mp hend
  obtain ⟨hin, hread⟩ := Prod.mk.inj hx
  have hout := shell_output_delivered zeroCrypto exampleConfig twoLines x hrun hfits hin
  rw [hread] at hout
  exact ⟨hfits, x, hrun, hread, hout.trans (by decide +kernel)⟩

/-- A shell that writes eight bytes when the client has room for four, and two more once the
client has made room again. -/
def narrowWindow : List (UInt32 × Phase) :=
  shellClient 4 [shellTick 6 [] "abcdefgh", shellTick 7 (clearPacket (windowAdjust 4)) "ij"]

/-- The end of the first read is lost. -/
theorem narrow_window_loses_output : ∃ x,
    run (sessionStep zeroCrypto exampleConfig) sessionInit narrowWindow = some x ∧
      x.server.link.inUse = true ∧ x.server.channel.opened = true ∧
      x.server.out.outbox = [] ∧ x.read = ascii "abcdefghij" ∧
      shellOutput x.server = ascii "abcdij" ∧ ¬shellOutput x.server <+: cook false x.read := by
  have hend : (run (sessionStep zeroCrypto exampleConfig) sessionInit narrowWindow).map
      (fun x => (x.server.link.inUse, x.server.channel.opened, x.server.out.outbox.isEmpty, x.read,
        shellOutput x.server)) =
      some (true, true, true, ascii "abcdefghij", ascii "abcdij") := by decide +kernel
  obtain ⟨x, hrun, hx⟩ := Option.map_eq_some_iff.mp hend
  simp only [Prod.mk.injEq, List.isEmpty_iff] at hx
  obtain ⟨hin, hopen, hsent, hread, hout⟩ := hx
  refine ⟨x, hrun, hin, hopen, hsent, hread, hout, ?_⟩
  rw [hread, hout]
  decide +kernel

end Sodex.Ssh
