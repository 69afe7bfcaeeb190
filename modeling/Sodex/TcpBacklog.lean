import Mathlib.Order.BooleanAlgebra.Set
import Sodex.TcpSocket
import Sodex.QueueRecords

/-!
# The accept backlog

Membership in a backlog is recorded twice, in the list of the listener and in the two
fields of the child. While a listener is being closed its children are in neither place;
the invariant therefore has a set of entries that are about to be released.
-/
namespace Sodex.Tcp

open Datagram Runs QueueRecords List Function

section Views

def queue (net : Net) : ℕ → List ℕ := fun p => (net.sockets p).backlogFds
def parent (net : Net) : ℕ → ℤ := fun i => (net.sockets i).parentFd
def pending (net : Net) : ℕ → Bool := fun i => (net.sockets i).pendingAccept

variable (net : Net) (fd : ℕ) (sk : TcpSocket)

/-- A field of the entries, after one entry was written. -/
theorem Net.field_set {β : Type*} (f : TcpSocket → β) : (fun i => f ((net.set fd sk).sockets i)) =
    update (fun i => f (net.sockets i)) fd (f sk) := by
  funext i
  by_cases hi : i = fd
  · subst hi
    simp
  · simp [hi]

theorem queue_set : queue (net.set fd sk) = update (queue net) fd sk.backlogFds :=
  Net.field_set ..

theorem parent_set : parent (net.set fd sk) = update (parent net) fd sk.parentFd :=
  Net.field_set ..

theorem pending_set : pending (net.set fd sk) = update (pending net) fd sk.pendingAccept :=
  Net.field_set ..

end Views

/-- The records of one entry fit together. -/
structure EntryOk (sk : TcpSocket) : Prop where
  idle : sk.state ≠ .listening → sk.backlogFds = []
  count : sk.backlogFds.length ≤ sk.backlogLimit
  limit : sk.backlogLimit ≤ SOCK_ACCEPT_BACKLOG_SIZE
  noConn : sk.state = .listening → sk.tcpConn = none
  port : sk.state = .listening → sk.localAddr.sinPort ≠ 0
  live : sk.tcpConn ≠ none → sk.state ≠ .unused

/-- The backlog records agree, except for the entries in `D`, which are being closed. -/
structure Backlogs (D : Set ℕ) (net : Net) : Prop where
  outside : ∀ p, MAX_SOCKETS ≤ p → (net.sockets p).state = .unused
  entries : ∀ p, EntryOk (net.sockets p)
  linked : Linked Nat.cast (queue net) (parent net) (pending net) D
  tickets : Tickets net.serial net.nextSerial net.accepted (pending net) D
  used : ∀ i, pending net i = true ∨ i ∈ D ∨ (net.serial i).isSome →
    (net.sockets i).state ≠ .unused

/-- An entry that will not get children: it has none, and does not take any. -/
def Shut (net : Net) (q : ℕ) : Prop :=
  queue net q = [] ∧ ((net.sockets q).state = .listening → (net.sockets q).backlogLimit = 0)

instance (net : Net) (q : ℕ) : Decidable (Shut net q) := inferInstanceAs (Decidable (_ ∧ _))

/-- A step that leaves the backlogs in order, and shut entries shut. -/
structure Keeps (D : Set ℕ) (net net' : Net) : Prop where
  backlogs : Backlogs D net'
  shut : ∀ q, Shut net q → Shut net' q

theorem Keeps.refl {D : Set ℕ} {net : Net} (h : Backlogs D net) : Keeps D net net :=
  ⟨h, fun _ => id⟩

theorem Keeps.trans {D D' : Set ℕ} {net net' net'' : Net} (h : Keeps D net net')
    (h' : Keeps D' net' net'') : Keeps D' net net'' :=
  ⟨h'.backlogs, fun q hq => h'.shut q (h.shut q hq)⟩

section Entries

variable {D D' : Set ℕ} {net net' : Net} {fd p limit : ℕ} {sk : TcpSocket} {appstate : ℕ → ℤ}
  {accepted : List ℕ}

theorem Backlogs.inTable (h : Backlogs D net) (hp : (net.sockets p).state ≠ .unused) :
    p < MAX_SOCKETS := by
  by_contra hlt
  exact hp (h.outside p (by omega))

/-- Only a listening entry has children. -/
theorem Backlogs.listening (h : Backlogs D net) {i : ℕ} (hi : i ∈ queue net p) :
    (net.sockets p).state = .listening := by
  by_contra hstate
  have hnil : queue net p = [] := (h.entries p).idle hstate
  rw [hnil] at hi
  exact absurd hi not_mem_nil

/-- A free entry is in no backlog and holds no child. -/
theorem Backlogs.free (h : Backlogs D net) (hfree : (net.sockets fd).state = .unused) :
    pending net fd = false ∧ fd ∉ D ∧ net.serial fd = none ∧ queue net fd = [] := by
  have hused := fun hfd => h.used fd hfd hfree
  refine ⟨?_, fun hD => hused (.inr (.inl hD)), ?_, (h.entries fd).idle (by rw [hfree]; decide)⟩
  · by_contra hpend
    exact hused (.inl (by simpa using hpend))
  · by_contra hserial
    exact hused (.inr (.inr (Option.isSome_iff_ne_none.mpr hserial)))

/-- A property of every entry, after one entry was written. -/
theorem Net.forall_set (P : ℕ → TcpSocket → Prop) (hfd : P fd sk)
    (hother : ∀ i, i ≠ fd → P i (net.sockets i)) : ∀ i, P i ((net.set fd sk).sockets i) := by
  intro i
  by_cases hi : i = fd
  · subst hi
    rw [Net.set_self]
    exact hfd
  · rw [Net.set_of_ne _ _ _ hi]
    exact hother i hi

theorem Shut.set {q : ℕ} (hfd : Shut net fd → sk.backlogFds = [] ∧
    (sk.state = .listening → sk.backlogLimit = 0)) (hq : Shut net q) : Shut (net.set fd sk) q := by
  unfold Shut queue at hq ⊢
  by_cases hqf : q = fd
  · subst hqf
    rw [Net.set_self]
    exact hfd hq
  · rw [Net.set_of_ne _ _ _ hqf]
    exact hq

section

variable (h : Backlogs D net)
include h

theorem Backlogs.write {serial : ℕ → Option ℕ}
    {nextSerial : ℕ} (hin : sk.state ≠ .unused → fd < MAX_SOCKETS)
    (hok : EntryOk sk)
    (hlinked : Linked Nat.cast (update (queue net) fd sk.backlogFds)
      (update (parent net) fd sk.parentFd)
      (update (pending net) fd sk.pendingAccept) D')
    (htickets : Tickets serial nextSerial accepted
      (update (pending net) fd sk.pendingAccept) D')
    (hold : ∀ i, i ≠ fd → i ∈ D' ∨ (serial i).isSome → (net.sockets i).state ≠ .unused)
    (hused : sk.pendingAccept = true ∨ fd ∈ D' ∨ (serial fd).isSome → sk.state ≠ .unused) :
    Backlogs D' { net.set fd sk with
      appstate := appstate, serial := serial, nextSerial := nextSerial, accepted := accepted } := by
  constructor
  · refine Net.forall_set (fun i s => MAX_SOCKETS ≤ i → s.state = .unused) (fun hle => ?_)
      fun i _ => h.outside i
    by_contra hstate
    exact absurd (hin hstate) (by omega)
  · exact Net.forall_set (fun _ => EntryOk) hok fun i _ => h.entries i
  · change Linked _ (queue (net.set fd sk)) (parent (net.set fd sk)) (pending (net.set fd sk)) D'
    rw [queue_set, parent_set, pending_set]
    exact hlinked
  · change Tickets _ _ _ (pending (net.set fd sk)) D'
    rw [pending_set]
    exact htickets
  · change ∀ i, pending (net.set fd sk) i = true ∨ i ∈ D' ∨ (serial i).isSome →
      ((net.set fd sk).sockets i).state ≠ .unused
    rw [pending_set]
    refine Net.forall_set (fun i s => update (pending net) fd sk.pendingAccept i = true ∨
      i ∈ D' ∨ (serial i).isSome → s.state ≠ .unused) (fun hany => ?_) fun i hi hany => ?_
    · rw [update_self] at hany
      exact hused hany
    · rw [update_of_ne hi] at hany
      exact hany.elim (fun hpend => h.used i (.inl hpend)) (hold i hi)

/-- The records of an entry are written as they are. -/
theorem Backlogs.same (hback : sk.backlogFds = queue net fd)
    (hparent : sk.parentFd = parent net fd) (hpending : sk.pendingAccept = pending net fd) :
    Linked Nat.cast (update (queue net) fd sk.backlogFds)
        (update (parent net) fd sk.parentFd)
        (update (pending net) fd sk.pendingAccept) D ∧
      Tickets net.serial net.nextSerial net.accepted
        (update (pending net) fd sk.pendingAccept) D := by
  rw [hback, hparent, hpending, update_eq_self, update_eq_self,
    update_eq_self]
  exact ⟨h.linked, h.tickets⟩

/-- A change of one entry that keeps its backlog records. -/
theorem Backlogs.touch (hback : sk.backlogFds = (net.sockets fd).backlogFds)
    (hlimit : sk.backlogLimit = (net.sockets fd).backlogLimit)
    (hparent : sk.parentFd = (net.sockets fd).parentFd)
    (hpending : sk.pendingAccept = (net.sockets fd).pendingAccept)
    (hlisten : sk.state = .listening → (net.sockets fd).state = .listening)
    (hidle : sk.state ≠ .listening → (net.sockets fd).backlogFds = [])
    (hused : sk.state = .unused ↔ (net.sockets fd).state = .unused)
    (hconn : sk.state = .listening → sk.tcpConn = none)
    (hport : sk.state = .listening → sk.localAddr.sinPort ≠ 0)
    (hlive : sk.tcpConn ≠ none → sk.state ≠ .unused) :
    Keeps D net (net.set fd sk) := by
  have hok : EntryOk sk := by
    refine ⟨fun hl => hback.trans (hidle hl), ?_, ?_, hconn, hport, hlive⟩
    · rw [hback, hlimit]
      exact (h.entries fd).count
    · rw [hlimit]
      exact (h.entries fd).limit
  obtain ⟨hlinked, htickets⟩ := h.same hback hparent hpending
  refine ⟨h.write (fun hne => h.inTable fun hfree => hne (hused.mpr hfree)) hok hlinked htickets
    (fun i _ hi => h.used i (.inr hi)) fun hany hfree => ?_, fun q => Shut.set fun hshut => ?_⟩
  · rw [hpending] at hany
    exact h.used fd hany (hused.mp hfree)
  · exact ⟨hback.trans hshut.1, fun hl => hlimit.trans (hshut.2 (hlisten hl))⟩

/-- A free entry is taken into use, without a backlog and not as a child. -/
theorem Backlogs.create (hfree : (net.sockets fd).state = .unused)
    (hfd : fd < MAX_SOCKETS) (hok : EntryOk sk) (hidle : sk.state ≠ .listening)
    (hpending : sk.pendingAccept = false) : Keeps D net (net.set fd sk) := by
  obtain ⟨hpend, -, -, hqueue⟩ := h.free hfree
  refine ⟨h.write (fun _ => hfd) hok ?_ ?_ (fun i _ hi => h.used i (.inr hi)) fun hany => ?_,
    fun q => Shut.set fun _ => ⟨hok.idle hidle, fun hl => absurd hl hidle⟩⟩
  · rw [hok.idle hidle, hpending, ← hqueue, update_eq_self]
    exact h.linked.record (h.linked.not_mem_of_not_pending hpend) (fun _ _ => Iff.rfl) _ nofun
  · rw [hpending, ← hpend, update_eq_self]
    exact h.tickets
  · rw [hpending, ← hpend] at hany
    exact absurd hfree (h.used fd hany)

/-- A child whose record is written joins the backlog of a listener. -/
theorem Backlogs.enqueue (hfd : fd ∈ D) (hne : fd ≠ p) {listener : TcpSocket}
    (hsk : net.sockets fd = sk) (hp : net.sockets p = listener) (hparent : sk.parentFd = p)
    (hpend : sk.pendingAccept = true) (hlisten : listener.state = .listening)
    (hroom : listener.backlogFds.length < listener.backlogLimit) :
    Keeps (D \ {fd}) net (net.set p { listener with
      backlogFds := listener.backlogFds ++ [fd] }) := by
  subst hsk hp
  have hok := h.entries p
  have hlen : ((net.sockets p).backlogFds ++ [fd]).length ≤ (net.sockets p).backlogLimit := by
    rw [length_append, length_singleton]
    omega
  refine ⟨h.write h.inTable ⟨fun hl => absurd hlisten hl, hlen, hok.limit, hok.noConn, hok.port,
    hok.live⟩ ?_ ?_ (fun i _ hi => h.used i (.inr (hi.imp_left And.left))) (fun _ => by simp [hlisten]),
    fun q => Shut.set fun hshut => ?_⟩
  · change Linked _ _ (update (parent net) p (parent net p))
      (update (pending net) p (pending net p)) _
    rw [update_eq_self, update_eq_self]
    exact h.linked.push hfd hne hparent hpend
  · change Tickets _ _ _ (update (pending net) p (pending net p)) _
    rw [update_eq_self]
    exact h.tickets.settle hpend
  · exact absurd (hshut.2 hlisten) (by omega)

/-- A new connection: a free entry becomes a child and joins the backlog of a listener. -/
theorem Backlogs.inbound (hlisten : (net.sockets p).state = .listening)
    (hroom : (queue net p).length < (net.sockets p).backlogLimit)
    (hfree : (net.sockets fd).state = .unused) (hfd : fd < MAX_SOCKETS) (hok : EntryOk sk)
    (hstate : sk.state = .connected) (hparent : sk.parentFd = p) (hpending : sk.pendingAccept = true) :
    Keeps D net { (net.set fd sk).set p { net.sockets p with backlogFds := queue net p ++ [fd] } with
      appstate := appstate
      serial := update net.serial fd (some net.nextSerial)
      nextSerial := net.nextSerial + 1 } := by
  obtain ⟨hpend, hD, -, hqueue⟩ := h.free hfree
  have hne : fd ≠ p := by
    rintro rfl
    rw [hlisten] at hfree
    exact absurd hfree (by decide)
  have hidle : sk.state ≠ .listening := by rw [hstate]; decide
  -- The child is written first; it is in no backlog yet.
  have hchild : Keeps (insert fd D) net { net.set fd sk with
      appstate := appstate
      serial := update net.serial fd (some net.nextSerial)
      nextSerial := net.nextSerial + 1 } := by
    refine ⟨h.write (fun _ => hfd) hok ?_ ?_ (fun i hi => ?_) fun _ => by rw [hstate]; decide,
      fun q => Shut.set fun _ => ⟨hok.idle hidle, fun hl => absurd hl hidle⟩⟩
    · rw [hok.idle hidle, ← hqueue, update_eq_self]
      exact h.linked.record (h.linked.not_mem_of_not_pending hpend)
        (fun j hj => Set.mem_insert_iff.trans (or_iff_right hj)) _ fun _ => Set.mem_insert fd D
    · rw [hpending]
      exact (h.tickets.mono (Set.subset_insert fd D)).issue
    · rw [update_of_ne hi, Set.mem_insert_iff, or_iff_right hi]
      exact fun hany => h.used i (.inr hany)
  have hjoined := hchild.backlogs.enqueue (Set.mem_insert fd D) hne (Net.set_self ..)
    (Net.set_of_ne _ _ _ hne.symm) hparent hpending hlisten hroom
  have hsettled : insert fd D \ {fd} = D := by
    rw [Set.insert_sdiff_of_mem D (Set.mem_singleton fd), Set.sdiff_singleton_eq_self hD]
  exact hchild.trans (hsettled ▸ hjoined)

/-- A socket without a connection starts to listen. -/
theorem Backlogs.listen (hstate : (net.sockets fd).state = .bound ∨
      (net.sockets fd).state = .created) (hconn : (net.sockets fd).tcpConn = none)
    (hport : (net.sockets fd).localAddr.sinPort ≠ 0)
    (hlimit : limit ≤ SOCK_ACCEPT_BACKLOG_SIZE) :
    Backlogs D (net.set fd { net.sockets fd with
      state := .listening, backlogFds := [], backlogLimit := limit }) := by
  have hidle : (net.sockets fd).state ≠ .listening := by rcases hstate with h | h <;> simp [h]
  have hused : (net.sockets fd).state ≠ .unused := by rcases hstate with h | h <;> simp [h]
  obtain ⟨hlinked, htickets⟩ := @Backlogs.same _ _ fd { net.sockets fd with backlogFds := [] } h
    ((h.entries fd).idle hidle).symm rfl rfl
  exact h.write (fun _ => h.inTable hused)
    ⟨fun _ => rfl, Nat.zero_le _, hlimit, fun _ => hconn, fun _ => hport, fun _ => by simp⟩
    hlinked htickets (fun i _ hi => h.used i (.inr hi)) fun _ => by simp

end

/-- The entry `fd` is taken out of the backlog of `p`. -/
def leave (net : Net) (p fd : ℕ) : Net :=
  let net := net.set p { net.sockets p with backlogFds := (queue net p).erase fd }
  net.set fd { net.sockets fd with parentFd := -1, pendingAccept := false }

theorem queue_leave (net : Net) (p fd : ℕ) :
    queue (leave net p fd) = update (queue net) p ((queue net p).erase fd) := by
  unfold leave
  rw [queue_set]
  show update (queue (net.set p _)) fd (queue (net.set p _) fd) = _
  rw [update_eq_self, queue_set]

theorem parent_leave (net : Net) (p fd : ℕ) :
    parent (leave net p fd) = update (parent net) fd (-1) := by
  unfold leave
  rw [parent_set, parent_set]
  show update (update (parent net) p (parent net p)) fd (-1) = _
  rw [update_eq_self]

theorem state_leave (net : Net) (p fd i : ℕ) :
    ((leave net p fd).sockets i).state = (net.sockets i).state := by
  unfold leave
  simp only [Net.sockets_set, update_apply]
  split_ifs <;> simp_all

variable (h : Backlogs D net)
include h

/-- The backlog of a listener is shortened; the children that leave it are to be closed. -/
theorem Backlogs.shorten {l : List ℕ}
    (hl : l.Sublist (queue net p)) (hleft : ∀ j, j ∈ D ∨ j ∈ queue net p ∧ j ∉ l → j ∈ D')
    (hout : ∀ j ∈ D', j ∈ D ∨ j ∉ l ∧ ∀ q, j ∈ queue net q → q = p)
    (hused : ∀ j ∈ D', (net.sockets j).state ≠ .unused)
    (hlen : l.length ≤ limit) (hlimit : limit ≤ (net.sockets p).backlogLimit) :
    Keeps D' net (net.set p { net.sockets p with backlogFds := l, backlogLimit := limit }) := by
  have hok := h.entries p
  have hold : ∀ i, i ∈ D' ∨ (net.serial i).isSome → (net.sockets i).state ≠ .unused := fun i hi =>
    hi.elim (hused i) fun hserial => h.used i (.inr (.inr hserial))
  refine ⟨h.write h.inTable ⟨fun hidle => ?_, hlen, hlimit.trans hok.limit, hok.noConn, hok.port,
    hok.live⟩ ?_ ?_ (fun i _ => hold i) fun hany => ?_, fun q => Shut.set fun hshut => ?_⟩
  · exact sublist_nil.mp (hok.idle hidle ▸ hl)
  · change Linked _ _ (update (parent net) p (parent net p))
      (update (pending net) p (pending net p)) D'
    rw [update_eq_self, update_eq_self]
    exact h.linked.shorten hl hleft hout
  · change Tickets _ _ _ (update (pending net) p (pending net p)) D'
    rw [update_eq_self]
    exact h.tickets.mono fun i hi => hleft i (.inl hi)
  · exact hany.elim (fun hpend => h.used p (.inl hpend)) (hold p)
  · exact ⟨sublist_nil.mp (hshut.1 ▸ hl), fun hl => Nat.le_zero.mp (hshut.2 hl ▸ hlimit)⟩

theorem Backlogs.forget (hlist : ∀ q, fd ∉ queue net q)
    (hD : ∀ j, j ≠ fd → (j ∈ D' ↔ j ∈ D))
    (htickets : Tickets net.serial net.nextSerial accepted
      (update (pending net) fd false) D')
    (hused : fd ∈ D' ∨ (net.serial fd).isSome → (net.sockets fd).state ≠ .unused) :
    Keeps D' net { net.set fd { net.sockets fd with parentFd := -1, pendingAccept := false } with
      accepted := accepted } := by
  have hok := h.entries fd
  refine ⟨h.write h.inTable ⟨hok.idle, hok.count, hok.limit, hok.noConn, hok.port, hok.live⟩ ?_
    htickets (fun i hi => ?_) fun hany => hused (hany.resolve_left nofun), fun q => Shut.set id⟩
  · change Linked _ (update (queue net) fd (queue net fd)) _ _ D'
    rw [update_eq_self]
    exact h.linked.record hlist hD (-1) nofun
  · rw [hD i hi]
    exact fun hany => h.used i (.inr hany)

/-- A child that is to be closed forgets its parent. -/
theorem Backlogs.orphan (hfd : fd ∈ D) :
    Keeps D net (net.set fd { net.sockets fd with parentFd := -1, pendingAccept := false }) :=
  h.forget (h.linked.unlisted fd hfd) (fun _ _ => Iff.rfl) (h.tickets.drop (fun _ _ hj => hj) hfd)
    fun hany => h.used fd (.inr hany)

/-- A child is taken out of the backlog it is in, if it is in one. -/
theorem Backlogs.dequeue (hp : ∀ q, fd ∈ queue net q → q = p)
    (hused : (net.sockets fd).state ≠ .unused) : Keeps (insert fd D) net
      (net.set p { net.sockets p with backlogFds := (queue net p).erase fd }) := by
  have hnot : fd ∉ (queue net p).erase fd := (h.linked.nodup p).not_mem_erase
  refine h.shorten erase_sublist ?_ ?_ ?_ (length_erase_le.trans (h.entries p).count) le_rfl
  · rintro j (hj | ⟨hj, hgone⟩)
    · exact Set.mem_insert_of_mem fd hj
    · by_contra hout
      exact hgone ((mem_erase_of_ne fun heq => hout (.inl heq)).mpr hj)
  · rintro j (rfl | hj)
    · exact .inr ⟨hnot, hp⟩
    · exact .inl hj
  · rintro j (rfl | hj)
    · exact hused
    · exact h.used j (.inr (.inl hj))

/-- An entry leaves its parent's backlog in order to be closed. -/
theorem Backlogs.leave_closing (hp : ∀ q, fd ∈ queue net q → q = p)
    (hused : (net.sockets fd).state ≠ .unused) : Keeps (insert fd D) net (leave net p fd) :=
  have hfirst := h.dequeue hp hused
  hfirst.trans (hfirst.backlogs.orphan (Set.mem_insert fd D))

/-- A child leaves its parent's backlog because an accept returns it. -/
theorem Backlogs.leave_accepted (hfd : fd ∈ queue net p) :
    Backlogs D { leave net p fd with accepted := net.accepted ++ (net.serial fd).toList } := by
  have hpend : pending net fd = true := (h.linked.child p fd hfd).2.2
  have hfirst := h.dequeue (fun q hq => h.linked.queue_unique Nat.cast_injective hq hfd)
    (h.used fd (.inl hpend))
  have hsame : pending (net.set p { net.sockets p with backlogFds := (queue net p).erase fd }) =
      pending net := by
    rw [pending_set]
    exact update_eq_self ..
  refine (hfirst.backlogs.forget (hfirst.backlogs.linked.unlisted fd (Set.mem_insert fd D))
    (fun j hj => ?_) ?_ fun hany => ?_).backlogs
  · rw [Set.mem_insert_iff, or_iff_right hj]
  · rw [hsame]
    exact h.tickets.take hpend
  · exact hfirst.backlogs.used fd (.inr (.inl (Set.mem_insert fd D)))

/-- A listener gives up its backlog; the children are to be closed. -/
theorem Backlogs.drain : Keeps (D ∪ {i | i ∈ queue net p}) net
      (net.set p { net.sockets p with backlogFds := [], backlogLimit := 0 }) ∧
    Shut (net.set p { net.sockets p with backlogFds := [], backlogLimit := 0 }) p := by
  refine ⟨h.shorten (nil_sublist _) (fun j hj => hj.imp_right And.left) ?_ ?_ le_rfl
    (Nat.zero_le _), ?_⟩
  · exact fun j hj => hj.imp_right fun hjp =>
      ⟨not_mem_nil, fun q hq => h.linked.queue_unique Nat.cast_injective hq hjp⟩
  · rintro j (hj | hj)
    · exact h.used j (.inr (.inl hj))
    · exact h.used j (.inl (h.linked.child p j hj).2.2)
  · unfold Shut queue
    rw [Net.set_self]
    exact ⟨rfl, fun _ => rfl⟩

/-- An entry without children is released. -/
theorem Backlogs.release (hfd : fd ∈ D) (hqueue : queue net fd = []) :
    Keeps (D \ {fd}) net (socketReleaseEntry net fd) := by
  have hD : ∀ j, j ≠ fd → (j ∈ D \ {fd} ↔ j ∈ D) := fun j hj => ⟨And.left, fun hjD => ⟨hjD, hj⟩⟩
  refine ⟨h.write (fun hne => absurd rfl hne) ⟨fun _ => rfl, Nat.zero_le _, Nat.zero_le _,
    fun _ => rfl, nofun, fun hne => absurd rfl hne⟩ ?_ ?_ (fun i hi => ?_) ?_,
    fun q => Shut.set fun _ => ⟨rfl, nofun⟩⟩
  · change Linked _ (update (queue net) fd []) _ _ _
    rw [← hqueue, update_eq_self]
    exact h.linked.record (h.linked.unlisted fd hfd) hD (-1) nofun
  · exact h.tickets.free fun j hj hjD => (hD j hj).mpr hjD
  · rw [update_of_ne hi, hD i hi]
    exact fun hany => h.used i (.inr hany)
  · simp [zeroSocket]

end Entries

end Sodex.Tcp
