import Mathlib.Data.Finset.Card
import Sodex.TcpBacklog

/-!
# Accepting inbound connections

Every call of the socket layer keeps the backlogs in order, as long as no listening socket
is bound again and no socket with a connection of its own starts to listen.
-/
namespace Sodex.Tcp

open Datagram Runs QueueRecords List Option Function

variable {D : Set ℕ} {net net' : Net} {fd : ℕ}

theorem Backlogs.congr (h : Backlogs D net) (hsockets : net'.sockets = net.sockets)
    (hserial : net'.serial = net.serial) (hnext : net'.nextSerial = net.nextSerial)
    (haccepted : net'.accepted = net.accepted) : Keeps D net net' := by
  have hq : queue net' = queue net := by unfold queue; rw [hsockets]
  have hp : parent net' = parent net := by unfold parent; rw [hsockets]
  have hpend : pending net' = pending net := by unfold pending; rw [hsockets]
  constructor
  · constructor
    · rw [hsockets]; exact h.outside
    · rw [hsockets]; exact h.entries
    · rw [hq, hp, hpend]; exact h.linked
    · rw [hserial, hnext, haccepted, hpend]; exact h.tickets
    · rw [hsockets, hserial, hpend]; exact h.used
  · intro q hq'
    unfold Shut
    rw [hq, hsockets]
    exact hq'

/-- A socket with a connection is neither free nor listening. -/
theorem Backlogs.conn_state (h : Backlogs D net) {c : ℕ}
    (hconn : (net.sockets fd).tcpConn = some c) :
    (net.sockets fd).state ≠ .unused ∧ (net.sockets fd).state ≠ .listening := by
  constructor
  · exact (h.entries fd).live (by simp [hconn])
  · intro hl
    rw [(h.entries fd).noConn hl] at hconn
    exact absurd hconn (by simp)

theorem Backlogs.appcallSocket (h : Backlogs D net) {c : ℕ}
    (hconn : (net.sockets fd).tcpConn = some c) (e : Appcall) :
    Keeps D net (appcallSocket net fd e) := by
  obtain ⟨sk, heq, ⟨hback, hlimit, hparent, hpending, htcp, haddr⟩, hstate⟩ :=
    appcallSocket_eq net fd e
  obtain ⟨hused, hlisten⟩ := h.conn_state hconn
  have hused' : sk.state ≠ .unused := by
    rcases hstate with hs | hs | hs | hs <;> simp [hs, hused]
  have hlisten' : sk.state ≠ .listening := by
    rcases hstate with hs | hs | hs | hs <;> simp [hs, hlisten]
  rw [heq]
  apply h.touch hback hlimit hparent hpending
  · exact fun hl => absurd hl hlisten'
  · exact fun _ => (h.entries fd).idle hlisten
  · exact iff_of_false hused' hused
  · exact fun hl => absurd hl hlisten'
  · exact fun hl => absurd hl hlisten'
  · exact fun _ => hused'

/-- A socket that an old connection still holds is cut off. -/
theorem Backlogs.cutStale (h : Backlogs D net) (e : Appcall) : Keeps D net (cutStale net e).2 := by
  unfold Tcp.cutStale
  simp only
  split
  · rename_i hstale
    obtain ⟨hused, hlisten⟩ := h.conn_state hstale.2.1
    have htouch : Keeps D net (net.set (net.appstate e.conn.id).toNat
        { net.sockets (net.appstate e.conn.id).toNat with
          tcpConn := none, closePending := false, txPending := false, state := .closed }) :=
      h.touch rfl rfl rfl rfl nofun (fun _ => (h.entries _).idle hlisten)
        (iff_of_false (by simp) hused) (fun _ => rfl) (fun hl => absurd hl (by simp)) (fun _ => by simp)
    exact htouch.trans (htouch.backlogs.congr rfl rfl rfl rfl)
  · exact Keeps.refl h

theorem tcpInitEntry_ok (palloc : Bool) : EntryOk (tcpInitEntry palloc) :=
  ⟨fun _ => rfl, Nat.zero_le _, Nat.zero_le _, fun _ => rfl, nofun,
    fun hne => absurd rfl hne⟩

theorem socketAllocEntry_some {palloc : Bool} {out : ℕ × Net}
    (h : socketAllocEntry net palloc = some out) :
    out.1 < MAX_SOCKETS ∧ (net.sockets out.1).state = .unused ∧
      out.2 = net.set out.1 (tcpInitEntry palloc) := by
  obtain ⟨i, hi, rfl⟩ := map_eq_some_iff.mp h
  refine ⟨mem_range.mp (mem_of_find?_eq_some hi), ?_, rfl⟩
  simpa using find?_some hi

theorem socketFindListenerByPort_some {port : UInt16} {p : ℕ}
    (h : socketFindListenerByPort net port = some p) : (net.sockets p).state = .listening := by
  have hfound := find?_some h
  simp only [decide_eq_true_eq] at hfound
  exact hfound.1

theorem Backlogs.bindInbound (h : Backlogs D net) (conn : Conn) (palloc : Bool) :
    Keeps D net (socketBindInboundTcp net conn palloc).2 := by
  unfold socketBindInboundTcp
  cases hfind : socketFindListenerByPort net conn.lport with
  | none => exact Keeps.refl h
  | some p =>
    have hlisten := socketFindListenerByPort_some hfind
    simp only
    split
    · exact Keeps.refl h
    · rename_i hroom
      cases halloc : socketAllocEntry net palloc with
      | none => exact Keeps.refl h
      | some out =>
        obtain ⟨hfd, hfree, hnet⟩ := socketAllocEntry_some halloc
        obtain ⟨fd, net₁⟩ := out
        obtain rfl : net₁ = net.set fd (tcpInitEntry palloc) := hnet
        have hne : p ≠ fd := by
          rintro rfl
          rw [hlisten] at hfree
          exact absurd hfree (by decide)
        have hlimit := (h.entries p).limit
        have hroom' : (queue net p).length < (net.sockets p).backlogLimit := not_le.mp hroom
        simp only [Net.set_self, Net.set_set]
        unfold socketBacklogEnqueue
        simp only [Net.set_of_ne _ _ _ hne]
        rw [if_neg (by omega), if_neg hroom, if_neg (by unfold queue at hroom'; omega)]
        apply h.inbound hlisten hroom' hfree hfd
        · exact ⟨fun _ => rfl, Nat.zero_le _, Nat.zero_le _, nofun,
            nofun, fun _ => by simp⟩
        · rfl
        · rfl
        · rfl

theorem Backlogs.appcallConnected (h : Backlogs D net) (e : Appcall) :
    Keeps D net (appcallConnected net e).2 := by
  unfold Tcp.appcallConnected
  simp only
  have hcut := h.cutStale e
  split
  · exact hcut.trans (hcut.backlogs.bindInbound e.conn e.palloc)
  · exact hcut

/-- Every event of the stack keeps the backlogs in order. -/
theorem Backlogs.uipAppcall (h : Backlogs D net) (e : Appcall) :
    Keeps D net (uipAppcall net e) := by
  have hnote : Keeps D net (noteDelivered net e) := by
    unfold noteDelivered
    split
    · exact h.congr rfl rfl rfl rfl
    · exact Keeps.refl h
  have hout : Keeps D net (if e.connected then Tcp.appcallConnected (noteDelivered net e) e
      else (some ((noteDelivered net e).appstate e.conn.id), noteDelivered net e)).2 := by
    split
    · exact hnote.trans (hnote.backlogs.appcallConnected e)
    · exact hnote
  unfold Tcp.uipAppcall
  simp only
  generalize (if e.connected then Tcp.appcallConnected (noteDelivered net e) e
      else (some ((noteDelivered net e).appstate e.conn.id), noteDelivered net e)) = out at hout
  cases out.1 with
  | none => exact hout
  | some sockfd =>
    simp only
    split
    · exact hout
    · split
      · exact hout
      · rename_i hconn
        exact hout.trans (hout.backlogs.appcallSocket (not_not.mp hconn) e)

theorem Backlogs.networkPoll (events : List Appcall) (h : Backlogs D net) :
    Keeps D net (networkPoll net events) := by
  induction events generalizing net with
  | nil => exact Keeps.refl h
  | cons e events ih =>
    have hfirst := h.uipAppcall e
    exact hfirst.trans (ih hfirst.backlogs)

theorem Backlogs.closeLoop (batches : List (List Appcall)) (h : Backlogs D net) :
    Keeps D net (closeLoop net fd batches) := by
  induction batches generalizing net with
  | nil => exact Keeps.refl h
  | cons batch batches ih =>
    have hpoll := h.networkPoll batch
    unfold Tcp.closeLoop
    simp only
    split
    · exact hpoll
    · exact hpoll.trans (ih hpoll.backlogs)

/-- An entry in no backlog can be closed without further ado. -/
theorem Backlogs.exempt (h : Backlogs D net) (hlist : ∀ q, fd ∉ queue net q)
    (hused : (net.sockets fd).state ≠ .unused) : Backlogs (insert fd D) net := by
  constructor
  · exact h.outside
  · exact h.entries
  · refine ⟨h.linked.child, h.linked.nodup, ?_, ?_⟩
    · intro i hi
      exact h.linked.queued i fun hD => hi (Set.mem_insert_of_mem _ hD)
    · rintro i (rfl | hi) q
      · exact hlist q
      · exact h.linked.unlisted i hi q
  · exact h.tickets.mono (Set.subset_insert _ _)
  · rintro i (hi | (rfl | hi) | hi)
    · exact h.used i (.inl hi)
    · exact hused
    · exact h.used i (.inr (.inl hi))
    · exact h.used i (.inr (.inr hi))

/-- Taking a free entry out of a backlog, in which it is not, changes nothing of note. -/
theorem Backlogs.leave_free (h : Backlogs D net) (hfree : (net.sockets fd).state = .unused)
    (p : ℕ) : Keeps D net (leave net p fd) := by
  obtain ⟨hpend, -, hserial, -⟩ := h.free hfree
  have hlist := h.linked.not_mem_of_not_pending hpend
  have hsame : net.set p { net.sockets p with backlogFds := (queue net p).erase fd } = net := by
    rw [erase_of_not_mem (hlist p)]
    exact Net.set_eta net p
  have htickets := h.tickets
  rw [← update_eq_self fd (pending net), hpend] at htickets
  unfold leave
  simp only [hsame]
  exact h.forget hlist (fun _ _ => Iff.rfl) htickets fun hany => h.used fd (.inr hany)

/-- The first part of `closeEntry`: the entry leaves the backlog it is in. -/
def leaveParent (net : Net) (fd : ℕ) : Net :=
  if InTable (net.sockets fd).parentFd then leave net (net.sockets fd).parentFd.toNat fd else net

theorem Backlogs.leaveParent (h : Backlogs D net) (hused : (net.sockets fd).state ≠ .unused) :
    Keeps (insert fd D) net (leaveParent net fd) := by
  have hparent : ∀ q, fd ∈ queue net q → (net.sockets fd).parentFd = q :=
    fun q hq => (h.linked.child q fd hq).2.1
  unfold Tcp.leaveParent
  split
  · refine h.leave_closing (fun q hq => ?_) hused
    rw [hparent q hq, Int.toNat_natCast]
  · rename_i hout
    refine ⟨h.exempt (fun q hq => hout ?_) hused, fun _ => id⟩
    have hq' : q < MAX_SOCKETS := h.inTable (by rw [h.listening hq]; decide)
    rw [hparent q hq]
    exact ⟨Int.natCast_nonneg q, Int.ofNat_lt.mpr hq'⟩

theorem closeEntry_eq (net : Net) (waits : Waits) (fd : ℕ) : closeEntry net waits fd =
    let net := leaveParent net fd
    if (net.sockets fd).state = .closed then (socketReleaseEntry net fd, waits)
    else
      let out : Net × Waits :=
        if (net.sockets fd).tcpConn.isSome then
          (closeLoop (socketBeginClose net fd) fd (waits.headD []), waits.tail)
        else (net, waits)
      if (out.1.sockets fd).state = .unused then out
      else (socketReleaseEntry out.1 fd, out.2) := rfl

/-- The end of a close: an entry without children leaves its backlog and is released. -/
theorem Backlogs.closeEntry (h : Backlogs D net) (hshut : Shut net fd) (waits : Waits) :
    Keeps (D \ {fd}) net (closeEntry net waits fd).1 := by
  rw [closeEntry_eq]
  simp only
  by_cases hfree : (net.sockets fd).state = .unused
  · -- Nothing is left to close.
    have hleave : Keeps D net (Tcp.leaveParent net fd) := by
      unfold Tcp.leaveParent
      split
      · exact h.leave_free hfree _
      · exact Keeps.refl h
    have hstate : ((Tcp.leaveParent net fd).sockets fd).state = .unused := by
      unfold Tcp.leaveParent
      split
      · rw [state_leave, hfree]
      · exact hfree
    have hconn : ((Tcp.leaveParent net fd).sockets fd).tcpConn = none := by
      by_contra hconn
      exact (hleave.backlogs.entries fd).live hconn hstate
    have hD : D \ {fd} = D := Set.sdiff_singleton_eq_self (h.free hfree).2.1
    rw [hstate, hconn, hD]
    simp only [reduceCtorEq, if_false, isSome_none, Bool.false_eq_true, hstate, if_true]
    exact hleave
  · have hleave := h.leaveParent hfree
    have hD : insert fd D \ {fd} = D \ {fd} := Set.insert_sdiff_of_mem D rfl
    have hmem : fd ∈ insert fd D := Set.mem_insert fd D
    rw [← hD]
    split
    · exact hleave.trans (hleave.backlogs.release hmem (hleave.shut fd hshut).1)
    · have hwait : Keeps (insert fd D) net (if ((Tcp.leaveParent net fd).sockets fd).tcpConn.isSome
          then (Tcp.closeLoop (socketBeginClose (Tcp.leaveParent net fd) fd) fd (waits.headD []),
            waits.tail) else (Tcp.leaveParent net fd, waits)).1 := by
        split
        · have hok := hleave.backlogs.entries fd
          have hbegin : Keeps (insert fd D) (Tcp.leaveParent net fd)
              (socketBeginClose (Tcp.leaveParent net fd) fd) :=
            hleave.backlogs.touch rfl rfl rfl rfl id hok.idle Iff.rfl hok.noConn hok.port hok.live
          exact hleave.trans (hbegin.trans (hbegin.backlogs.closeLoop _))
        · exact hleave
      rw [if_neg (hwait.backlogs.used fd (Or.inr (Or.inl hmem)))]
      exact hwait.trans (hwait.backlogs.release hmem (hwait.shut fd hshut).1)

/-- The entries that have children, or may get some. -/
def openEntries (net : Net) : Finset ℕ := (Finset.range MAX_SOCKETS).filter fun q => ¬Shut net q

theorem Keeps.card_le (h : Keeps D net net') :
    (openEntries net').card ≤ (openEntries net).card := by
  apply Finset.card_le_card
  intro q hq
  obtain ⟨hlt, hopen⟩ := Finset.mem_filter.mp hq
  exact Finset.mem_filter.mpr ⟨hlt, fun hshut => hopen (h.shut q hshut)⟩

/-- Shutting an entry with children makes the open entries fewer. -/
theorem Keeps.card_lt (h : Keeps D net net') (hfd : fd < MAX_SOCKETS) (hqueue : queue net fd ≠ [])
    (hshut : Shut net' fd) : (openEntries net').card < (openEntries net).card := by
  apply Finset.card_lt_card
  refine Finset.ssubset_iff_subset_ne.mpr ⟨fun q hq => ?_, fun heq => ?_⟩
  · obtain ⟨hlt, hopen⟩ := Finset.mem_filter.mp hq
    exact Finset.mem_filter.mpr ⟨hlt, fun hq' => hopen (h.shut q hq')⟩
  · have hmem : fd ∈ openEntries net :=
      Finset.mem_filter.mpr ⟨Finset.mem_range.mpr hfd, fun hs => hqueue hs.1⟩
    rw [← heq] at hmem
    exact (Finset.mem_filter.mp hmem).2 hshut

/-- One turn of the loop that closes the children of a listener. -/
def closeChild (fuel : ℕ) (s : Net × Waits) (childFd : ℕ) : Option (Net × Waits) :=
  if childFd < MAX_SOCKETS then
    kernCloseSocket fuel (s.1.set childFd { s.1.sockets childFd with
      parentFd := -1, pendingAccept := false }) s.2 childFd
  else some s

/-- `kernCloseSocket` with fuel `fuel` closes every entry, whatever waits for it. -/
def Closes (fuel : ℕ) : Prop :=
  ∀ (D : Set ℕ) (net : Net) (waits : Waits) (fd : ℕ), Backlogs D net →
    (openEntries net).card < fuel →
      ∃ out, kernCloseSocket fuel net waits fd = some out ∧ Keeps (D \ {fd}) net out.1

theorem Closes.children {fuel : ℕ} (hclose : Closes fuel) {children : List ℕ} {s : Net × Waits}
    (hnodup : children.Nodup) (hout : ∀ c ∈ children, c ∉ D)
    (h : Backlogs (D ∪ {i | i ∈ children}) s.1)
    (hfuel : children ≠ [] → (openEntries s.1).card < fuel) :
    ∃ out, children.foldlM (closeChild fuel) s = some out ∧ Keeps D s.1 out.1 := by
  induction children generalizing s with
  | nil =>
    have hD : D ∪ {i | i ∈ ([] : List ℕ)} = D := by simp
    rw [hD] at h
    exact ⟨s, rfl, Keeps.refl h⟩
  | cons c children ih =>
    obtain ⟨hc, hnodup⟩ := nodup_cons.mp hnodup
    have hmem : c ∈ D ∪ {i | i ∈ c :: children} := Or.inr mem_cons_self
    have hD : (D ∪ {i | i ∈ c :: children}) \ {c} = D ∪ {i | i ∈ children} := by
      ext i
      have hcD := hout c mem_cons_self
      constructor
      · rintro ⟨hi | hi, hic⟩
        · exact Or.inl hi
        · exact Or.inr ((mem_cons.mp hi).resolve_left hic)
      · rintro (hi | hi)
        · exact ⟨Or.inl hi, fun hic => hcD (hic ▸ hi)⟩
        · exact ⟨Or.inr (mem_cons_of_mem _ hi), fun hic => hc (hic ▸ hi)⟩
    have hlt : c < MAX_SOCKETS := h.inTable (h.used c (Or.inr (Or.inl hmem)))
    have horphan := h.orphan hmem
    have hcard := hfuel (cons_ne_nil _ _)
    obtain ⟨mid, hmid, hkeeps⟩ := hclose _ _ s.2 c horphan.backlogs
      (lt_of_le_of_lt horphan.card_le hcard)
    rw [hD] at hkeeps
    have hfirst := horphan.trans hkeeps
    obtain ⟨out, hrun, hrest⟩ := ih hnodup (fun d hd => hout d (mem_cons_of_mem _ hd))
      hfirst.backlogs (fun _ => lt_of_le_of_lt hfirst.card_le hcard)
    refine ⟨out, ?_, hfirst.trans hrest⟩
    rw [foldlM_cons, closeChild, if_pos hlt, hmid]
    exact hrun

theorem kernCloseSocket_succ (fuel : ℕ) (net : Net) (waits : Waits) {fd : ℕ}
    (hfd : fd < MAX_SOCKETS) (hused : (net.sockets fd).state ≠ .unused) :
    kernCloseSocket (fuel + 1) net waits fd =
      if (net.sockets fd).state = .listening ∧ (net.sockets fd).localAddr.sinPort ≠ 0 then
        ((queue net fd).foldlM (closeChild fuel)
          (net.set fd { net.sockets fd with backlogFds := [], backlogLimit := 0 }, waits)).map
            fun s => closeEntry s.1 s.2 fd
      else some (closeEntry net waits fd) := by
  have hin : InTable fd := ⟨Int.natCast_nonneg fd, Int.ofNat_lt.mpr hfd⟩
  rw [kernCloseSocket, if_neg (not_not.mpr hin)]
  simp only [Int.toNat_natCast]
  rw [if_neg hused]
  rfl

/-- A close returns, and takes the entry out of its backlog and out of use. -/
theorem closes (fuel : ℕ) : Closes fuel := by
  induction fuel with
  | zero => exact fun _ _ _ _ _ hcard => absurd hcard (Nat.not_lt_zero _)
  | succ fuel ih =>
    intro D net waits fd h hcard
    by_cases hfree : (net.sockets fd).state = .unused
    · have hD : D \ {fd} = D := Set.sdiff_singleton_eq_self (h.free hfree).2.1
      refine ⟨(net, waits), ?_, hD.symm ▸ Keeps.refl h⟩
      rw [kernCloseSocket]
      split
      · rfl
      · simp only [Int.toNat_natCast]
        rw [if_pos hfree]
    · have hlt := h.inTable hfree
      rw [kernCloseSocket_succ fuel net waits hlt hfree]
      by_cases hlisten : (net.sockets fd).state = .listening
      · -- The children are closed one after the other, then the listener itself.
        rw [if_pos ⟨hlisten, (h.entries fd).port hlisten⟩]
        obtain ⟨hdrain, hshut⟩ := h.drain (p := fd)
        generalize net.set fd { net.sockets fd with backlogFds := [], backlogLimit := 0 } = drained
          at hdrain hshut
        obtain ⟨out, hrun, hkeeps⟩ := ih.children (s := (drained, waits)) (h.linked.nodup fd)
          (fun c hc hD => h.linked.unlisted c hD fd hc) hdrain.backlogs
          (fun hne => lt_of_lt_of_le (hdrain.card_lt hlt hne hshut) (Nat.le_of_lt_succ hcard))
        refine ⟨closeEntry out.1 out.2 fd, ?_, ?_⟩
        · rw [hrun, map_some]
        · exact (hdrain.trans hkeeps).trans
            (hkeeps.backlogs.closeEntry (hkeeps.shut fd hshut) out.2)
      · rw [if_neg fun hl => hlisten hl.1]
        exact ⟨_, rfl, h.closeEntry ⟨(h.entries fd).idle hlisten, fun hl => absurd hl hlisten⟩ waits⟩

theorem Backlogs.kernCloseSocket (h : Backlogs D net) (waits : Waits) (fd : ℕ) :
    ∃ out, kernCloseSocket closeFuel net waits fd = some out ∧ Keeps (D \ {fd}) net out.1 := by
  apply closes closeFuel D net waits fd h
  have hcard : (openEntries net).card ≤ (Finset.range MAX_SOCKETS).card :=
    Finset.card_filter_le _ _
  rw [Finset.card_range] at hcard
  exact Nat.lt_succ_of_le hcard

theorem acceptLoop_nil {p : ℕ} (fuel : ℕ) (hq : queue net p = []) :
    acceptLoop (fuel + 1) net p = some (-1, net) := by
  unfold queue at hq
  rw [acceptLoop, socketBacklogDequeue, hq]

/-- A turn of the accept loop takes the first child out of the backlog. -/
theorem acceptLoop_cons {p c : ℕ} {rest : List ℕ} (fuel : ℕ) (hq : queue net p = c :: rest) :
    acceptLoop (fuel + 1) net p =
      if (net.sockets c).state = .closed then
        (kernCloseSocket closeFuel (leave net p c) [] c).bind fun s => acceptLoop fuel s.1 p
      else some (c, { leave net p c with accepted := net.accepted ++ (net.serial c).toList }) := by
  have hstate : ((net.set p { net.sockets p with backlogFds := rest }).sockets c).state =
      (net.sockets c).state := by
    by_cases hc : c = p
    · subst hc
      rw [Net.set_self]
    · rw [Net.set_of_ne _ _ _ hc]
  have hleave : leave net p c = (net.set p { net.sockets p with backlogFds := rest }).set c
      { (net.set p { net.sockets p with backlogFds := rest }).sockets c with
        parentFd := -1, pendingAccept := false } := by
    unfold leave
    rw [hq, erase_cons_head]
  have hdequeue : socketBacklogDequeue net p =
      some (c, net.set p { net.sockets p with backlogFds := rest }) := by
    unfold queue at hq
    rw [socketBacklogDequeue, hq]
  rw [acceptLoop, hdequeue, hleave]
  simp only
  rw [hstate]
  rfl

theorem kernCloseSocket_closed (hfd : fd < MAX_SOCKETS) (hclosed : (net.sockets fd).state = .closed)
    (hparent : (net.sockets fd).parentFd = -1) (waits : Waits) :
    kernCloseSocket closeFuel net waits fd = some (socketReleaseEntry net fd, waits) := by
  have hleave : leaveParent net fd = net := by
    unfold leaveParent
    rw [hparent, if_neg (by decide)]
  rw [closeFuel, kernCloseSocket_succ _ _ _ hfd (by simp [hclosed]), if_neg (by simp [hclosed]),
    closeEntry_eq, hleave]
  simp only
  rw [if_pos hclosed]

theorem Backlogs.acceptLoop {p : ℕ} (fuel : ℕ) (h : Backlogs ∅ net)
    (hfuel : (queue net p).length < fuel) :
    ∃ out, acceptLoop fuel net p = some out ∧ Backlogs ∅ out.2 := by
  induction fuel generalizing net with
  | zero => exact absurd hfuel (Nat.not_lt_zero _)
  | succ fuel ih =>
    cases hq : queue net p with
    | nil => exact ⟨_, acceptLoop_nil fuel hq, h⟩
    | cons c rest =>
      have hc : c ∈ queue net p := by rw [hq]; exact mem_cons_self
      have hused := h.used c (Or.inl (h.linked.child p c hc).2.2)
      rw [acceptLoop_cons fuel hq]
      split
      · -- The connection of the child is gone: it is released and the loop goes on.
        rename_i hclosed
        have hne : p ≠ c := (h.linked.child p c hc).1.symm
        have hleave := h.leave_closing
          (fun q hcq => h.linked.queue_unique Nat.cast_injective hcq hc) hused
        have hidle : queue net c = [] := (h.entries c).idle (by simp [hclosed])
        have hempty : queue (leave net p c) c = [] := by
          rw [queue_leave, update_of_ne hne.symm, hidle]
        have hrelease := hleave.backlogs.release (Set.mem_insert c ∅) hempty
        have hD : insert c (∅ : Set ℕ) \ {c} = ∅ := by simp
        rw [hD] at hrelease
        have hparent : ((leave net p c).sockets c).parentFd = -1 := by
          show parent (leave net p c) c = -1
          rw [parent_leave, update_self]
        have hstate : ((leave net p c).sockets c).state = .closed := by
          rw [state_leave, hclosed]
        rw [kernCloseSocket_closed (h.inTable hused) hstate hparent, bind_some]
        apply ih hrelease.backlogs
        have hrest : queue (socketReleaseEntry (leave net p c) c) p = rest := by
          show queue (Net.set _ c _) p = rest
          rw [queue_set, update_of_ne hne, queue_leave, update_self, hq,
            erase_cons_head]
        rw [hrest]
        rw [hq, length_cons] at hfuel
        omega
      · exact ⟨_, rfl, h.leave_accepted hc⟩

/-- The calls on sockets and the events of the stack. -/
inductive Call where
  | socket (palloc : Bool) (domain : ℤ) (type : SockType) (protocol : ℤ)
  | bind (sockfd : ℤ) (addr : SockAddrIn)
  | listen (sockfd backlog : ℤ)
  | inbound (conn : Conn) (palloc : Bool)
  | poll (events : List Appcall)
  | accept (sockfd : ℤ)
  | close (sockfd : ℤ) (waits : Waits)

def step (net : Net) : Call → Option Net
  | .socket palloc domain type protocol => some (kernSocket net palloc domain type protocol).2
  | .bind sockfd addr => some (kernBind net sockfd addr).2
  | .listen sockfd backlog => some (kernListen net sockfd backlog).2
  | .inbound conn palloc => some (socketBindInboundTcp net conn palloc).2
  | .poll events => some (networkPoll net events)
  | .accept sockfd => (socketTryAccept net sockfd).map Prod.snd
  | .close sockfd waits => (kernCloseSocket closeFuel net waits sockfd).map Prod.fst

/-- No listener with queued children is bound again, and no socket with a connection of its
own starts to listen. -/
def Fair (net : Net) : Call → Prop
  | .bind sockfd _ => InTable sockfd → (net.sockets sockfd.toNat).state = .listening →
      (net.sockets sockfd.toNat).backlogFds = []
  | .listen sockfd _ => InTable sockfd → (net.sockets sockfd.toNat).tcpConn = none
  | _ => True

instance (net : Net) : (c : Call) → Decidable (Fair net c)
  | .bind _ _ => inferInstanceAs (Decidable (_ → _ → _))
  | .listen _ _ => inferInstanceAs (Decidable (_ → _))
  | .socket .. | .inbound .. | .poll _ | .accept _ | .close .. => inferInstanceAs (Decidable True)

/-- The two records of the backlogs agree, the backlogs keep their bounds, and every inbound
child that was not released waits in a backlog or was accepted, once. -/
structure Accounted (net : Net) : Prop where
  pending_iff : ∀ i, (net.sockets i).pendingAccept = true ↔ ∃ p : ℕ, (net.sockets i).parentFd = p ∧
    (net.sockets p).state = .listening ∧ i ∈ (net.sockets p).backlogFds
  once : ∀ i p, (net.sockets p).backlogFds.count i ≤ 1
  bounded : ∀ p, (net.sockets p).backlogFds.length ≤ (net.sockets p).backlogLimit ∧
    (net.sockets p).backlogLimit ≤ SOCK_ACCEPT_BACKLOG_SIZE
  accepted_once : net.accepted.Nodup
  reachable : ∀ i k, net.serial i = some k → k ∈ net.accepted ∨
    ∃ p, (net.sockets p).state = .listening ∧ i ∈ (net.sockets p).backlogFds

theorem Backlogs.accounted (h : Backlogs ∅ net) : Accounted net := by
  have hwaits : ∀ i, pending net i = true → ∃ p : ℕ, (net.sockets i).parentFd = p ∧
      (net.sockets p).state = .listening ∧ i ∈ (net.sockets p).backlogFds := by
    intro i hi
    obtain ⟨p, hp, hmem⟩ := h.linked.queued i (Set.notMem_empty i) hi
    exact ⟨p, hp, h.listening hmem, hmem⟩
  constructor
  · intro i
    refine ⟨hwaits i, ?_⟩
    rintro ⟨p, -, -, hmem⟩
    exact (h.linked.child p i hmem).2.2
  · exact fun i p => nodup_iff_count_le_one.mp (h.linked.nodup p) i
  · exact fun p => ⟨(h.entries p).count, (h.entries p).limit⟩
  · exact h.tickets.once
  · intro i k hk
    rcases h.tickets.reach i (Set.notMem_empty i) k hk with hpend | hmem
    · obtain ⟨p, -, hp⟩ := hwaits i hpend
      exact Or.inr ⟨p, hp⟩
    · exact Or.inl hmem

theorem bootNet_backlogs : Backlogs ∅ bootNet := by
  constructor
  · exact fun _ _ => rfl
  · exact fun _ => ⟨fun _ => rfl, Nat.zero_le _, Nat.zero_le _, fun _ => rfl, nofun,
      fun hne => absurd rfl hne⟩
  · exact ⟨fun _ _ hi => absurd hi not_mem_nil, fun _ => nodup_nil, nofun, nofun⟩
  · exact ⟨nofun, nofun, nofun, nofun, nodup_nil, nofun, nofun⟩
  · rintro i (hi | hi | hi)
    · exact absurd hi Bool.false_ne_true
    · exact absurd hi (Set.notMem_empty i)
    · exact absurd hi Bool.false_ne_true

theorem Backlogs.kernSocket (h : Backlogs D net) (palloc : Bool) (domain : ℤ) (type : SockType)
    (protocol : ℤ) : Backlogs D (kernSocket net palloc domain type protocol).2 := by
  unfold Tcp.kernSocket
  split
  · exact h
  · cases halloc : socketAllocEntry net palloc with
    | none => exact h
    | some out =>
      obtain ⟨hfd, hfree, hnet⟩ := socketAllocEntry_some halloc
      obtain ⟨fd, net₁⟩ := out
      obtain rfl : net₁ = net.set fd (tcpInitEntry palloc) := hnet
      simp only [Net.set_self, Net.set_set]
      have hok := tcpInitEntry_ok palloc
      refine (?_ : Keeps D net _).backlogs
      apply h.create hfree hfd
      · exact ⟨fun _ => rfl, hok.count, hok.limit, fun _ => rfl, nofun, fun hne => absurd rfl hne⟩
      · exact nofun
      · rfl

theorem Backlogs.kernBind (h : Backlogs D net) (sockfd : ℤ) (addr : SockAddrIn)
    (hfair : Fair net (.bind sockfd addr)) : Backlogs D (kernBind net sockfd addr).2 := by
  unfold Tcp.kernBind
  split
  · exact h
  · rename_i hin
    simp only
    split
    · exact h
    · rename_i hused
      have hidle : (net.sockets sockfd.toNat).backlogFds = [] := by
        by_cases hl : (net.sockets sockfd.toNat).state = .listening
        · exact hfair (not_not.mp hin) hl
        · exact (h.entries _).idle hl
      refine (?_ : Keeps D net (net.set sockfd.toNat _)).backlogs
      apply h.touch
      · rfl
      · rfl
      · rfl
      · rfl
      · exact nofun
      · exact fun _ => hidle
      · exact iff_of_false nofun hused
      · exact nofun
      · exact nofun
      · exact fun _ => nofun

theorem clampBacklog_le (backlog : ℤ) : clampBacklog backlog ≤ SOCK_ACCEPT_BACKLOG_SIZE := by
  unfold clampBacklog SOCK_ACCEPT_BACKLOG_SIZE
  split_ifs <;> omega

theorem Backlogs.kernListen (h : Backlogs D net) (sockfd backlog : ℤ)
    (hfair : Fair net (.listen sockfd backlog)) : Backlogs D (kernListen net sockfd backlog).2 := by
  unfold Tcp.kernListen
  split
  · exact h
  · rename_i hin
    simp only
    split
    · exact h
    · split
      · exact h
      · rename_i hstate
        split
        · exact h
        · rename_i hport
          refine h.listen ?_ (hfair (not_not.mp hin)) hport (clampBacklog_le backlog)
          by_contra hno
          exact hstate (not_or.mp hno)

/-- Every call returns and keeps the backlogs in order. -/
theorem Backlogs.step (h : Backlogs ∅ net) (c : Call) (hfair : Fair net c) :
    ∃ net', step net c = some net' ∧ Backlogs ∅ net' := by
  cases c with
  | socket palloc domain type protocol => exact ⟨_, rfl, h.kernSocket palloc domain type protocol⟩
  | bind sockfd addr => exact ⟨_, rfl, h.kernBind sockfd addr hfair⟩
  | listen sockfd backlog => exact ⟨_, rfl, h.kernListen sockfd backlog hfair⟩
  | inbound conn palloc => exact ⟨_, rfl, (h.bindInbound conn palloc).backlogs⟩
  | poll events => exact ⟨_, rfl, (h.networkPoll events).backlogs⟩
  | accept sockfd =>
    simp only [Tcp.step]
    unfold socketTryAccept
    split
    · exact ⟨_, rfl, h⟩
    · split
      · exact ⟨_, rfl, h⟩
      · obtain ⟨out, hrun, hout⟩ := h.acceptLoop (p := sockfd.toNat)
          ((net.sockets sockfd.toNat).backlogFds.length + 1) (Nat.lt_succ_self _)
        exact ⟨out.2, by rw [hrun, map_some], hout⟩
  | close sockfd waits =>
    simp only [Tcp.step]
    by_cases hneg : 0 ≤ sockfd
    · lift sockfd to ℕ using hneg
      obtain ⟨out, hrun, hout⟩ := h.kernCloseSocket waits sockfd
      refine ⟨out.1, by rw [hrun, map_some], ?_⟩
      simpa using hout.backlogs
    · refine ⟨net, ?_, h⟩
      rw [closeFuel, Tcp.kernCloseSocket, if_pos fun hin => hneg hin.1, map_some]

/-- In every run from boot in which no listener with queued children is bound again and no
socket with a connection starts to listen, the backlogs are in order. -/
theorem fair_run_accounted (calls : List Call) (hfair : Along step Fair bootNet calls) :
    ∃ net, run step bootNet calls = some net ∧ Accounted net := by
  obtain ⟨net, hrun, hinv⟩ := run_invariant (fun _ c h hc => h.step c hc) calls bootNet
    bootNet_backlogs hfair
  exact ⟨net, hrun, hinv.accounted⟩

/-- A listener on port 80 and a connection to it. -/
def oneChild : List Call :=
  [.socket true AF_INET .stream 0, .bind 0 ⟨2, 80, 0⟩, .listen 0 4, .inbound ⟨7, 80, 4000, 1⟩ true]

theorem one_child_accounted : Along step Fair bootNet (oneChild ++ [.accept 0, .close 0 []]) ∧
    ∃ net, run step bootNet (oneChild ++ [.accept 0, .close 0 []]) = some net ∧ Accounted net :=
  have hfair : Along step Fair bootNet (oneChild ++ [.accept 0, .close 0 []]) := by decide +kernel
  ⟨hfair, fair_run_accounted _ hfair⟩

/-- The listener is bound and listens again: its queued child is in no backlog any more, is
not accepted and keeps its entry. -/
theorem rebound_listener_loses_child : ∃ net,
    run step bootNet (oneChild ++ [.bind 0 ⟨2, 80, 0⟩, .listen 0 4]) = some net ∧
      (net.sockets 1).pendingAccept = true ∧ (net.sockets 1).parentFd = 0 ∧
      (net.sockets 0).backlogFds = [] ∧ net.serial 1 = some 0 ∧ net.accepted = [] ∧
      ¬Accounted net := by
  refine ⟨_, rfl, by decide +kernel, by decide +kernel, by decide +kernel, by decide +kernel,
    by decide +kernel, fun h => ?_⟩
  obtain ⟨p, hp, -, hmem⟩ := (h.pending_iff 1).mp (by decide +kernel)
  obtain rfl : p = 0 := by
    have hparent : (0 : ℤ) = p := hp
    omega
  exact absurd hmem (by decide +kernel)

end Sodex.Tcp
