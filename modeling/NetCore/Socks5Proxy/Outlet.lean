import NetCore.Socks5Proxy.Receive

/-!
# The write event of a proxy

`Open` says that the socket of the proxy is registered for as long as the proxy lives, `KeepsOutlet`
that a call neither changes the state nor gives the write event up.  `sendQueue` gives it up exactly
when the socket takes nothing.
-/

namespace NetCore

/-- No byte of the queue is taken: the first answer that concerns a byte is an error. -/
def Refused : List Segment → (Nat → SendOutcome) → Prop
  | [], _ => True
  | segment :: queue, sends =>
      match sends 0 with
      | .error _ => True
      | .accepted _ => segment.size = 0 ∧ Refused queue fun n => sends (n + 1)

namespace EpollReactor

/-- The error event is asked for at the beginning and never given up before the descriptor is. -/
def Listens (r : EpollReactor) (fd : Int) : Prop :=
  ¬ fd < 0 ∧ ∃ events, r.Registered fd events ∧ events &&& evERROR = evERROR

def WriteOn (r : EpollReactor) (fd : Int) : Prop := r.containEvent fd evWRITE = 1

-- `f` keeps a registration, and the write event with it.
def KeepsWrite (f : EpollReactor → EpollReactor) (fd : Int) : Prop :=
  ∀ r, Listens r fd → Listens (f r) fd ∧ (WriteOn r fd → WriteOn (f r) fd)

theorem keepsWrite_addEvent (fd : Int) (more : U32) (listener tag : Nat) :
    KeepsWrite (fun r => (r.addEvent fd more listener tag).2) fd := by
  intro r ⟨hfd, events, hregistered, herror⟩
  have hadded := hregistered.addEvent hfd more listener tag
  refine ⟨⟨hfd, _, hadded, kept_or more herror⟩, fun hwrite => ?_⟩
  unfold WriteOn at hwrite ⊢
  rw [hregistered.containWrite_iff] at hwrite
  exact hadded.containWrite_iff.mpr (kept_or more hwrite)

-- `delEvent` of an event that is not the error event.
theorem Listens.delEvent {r : EpollReactor} {fd : Int} (h : Listens r fd) {more : U32}
    (hdisjoint : evERROR &&& more = 0) : Listens (r.delEvent fd more).2 fd := by
  obtain ⟨hfd, events, hregistered, herror⟩ := h
  have hleft := kept_and_not herror hdisjoint
  exact ⟨hfd, _, hregistered.delEvent (ne_zero_of_kept hleft (by decide)), hleft⟩

theorem keepsWrite_delRead (fd : Int) : KeepsWrite (fun r => (r.delEvent fd evREAD).2) fd := by
  intro r h
  refine ⟨h.delEvent (by decide), fun hwrite => ?_⟩
  obtain ⟨hfd, events, hregistered, herror⟩ := h
  have hleft : (events &&& ~~~evREAD) &&& evERROR = evERROR :=
    kept_and_not herror (by decide)
  have hdeleted := hregistered.delEvent (ne_zero_of_kept hleft (by decide))
  unfold WriteOn at hwrite ⊢
  rw [hregistered.containWrite_iff] at hwrite
  exact hdeleted.containWrite_iff.mpr (kept_and_not hwrite (by decide))

theorem writeOn_addEvent {r : EpollReactor} {fd : Int} (h : Listens r fd) (listener tag : Nat) :
    WriteOn (r.addEvent fd evWRITE listener tag).2 fd := by
  obtain ⟨hfd, events, hregistered, -⟩ := h
  exact (hregistered.addEvent hfd evWRITE listener tag).containWrite_iff.mpr
    (or_and_self _ _)

theorem not_writeOn_delEvent {r : EpollReactor} {fd : Int} (h : Listens r fd) :
    ¬ WriteOn (r.delEvent fd evWRITE).2 fd := by
  obtain ⟨hfd, events, hregistered, herror⟩ := h
  have hleft : (events &&& ~~~evWRITE) &&& evERROR = evERROR :=
    kept_and_not herror (by decide)
  have hdeleted := hregistered.delEvent (ne_zero_of_kept hleft (by decide))
  unfold WriteOn
  rw [hdeleted.containWrite_iff, and_not_and_self]
  decide

end EpollReactor

namespace Socks5Proxy

open EpollReactor (Listens WriteOn KeepsWrite)

variable {p p' : Socks5Proxy}

/-! ## An open socket -/

structure Open (p : Socks5Proxy) : Prop where
  alive : p.mAlive = true
  reactor : p.hasReactor = true
  listens : Listens p.reactor p.mSocket

-- What a proxy does that neither changes its state nor gives the write event up.
structure KeepsOutlet (p p' : Socks5Proxy) : Prop where
  state : p'.mS5State = p.mS5State
  open_ : Open p → Open p'
  write : Open p → WriteOn p.reactor p.mSocket → WriteOn p'.reactor p'.mSocket

theorem KeepsOutlet.refl (p : Socks5Proxy) : KeepsOutlet p p := ⟨rfl, id, fun _ => id⟩

theorem KeepsOutlet.trans {p'' : Socks5Proxy} (h : KeepsOutlet p p') (h' : KeepsOutlet p' p'') :
    KeepsOutlet p p'' where
  state := h'.state.trans h.state
  open_ hopen := h'.open_ (h.open_ hopen)
  write hopen hwrite := h'.write (h.open_ hopen) (h.write hopen hwrite)

-- A change of nothing the outlet is about.
theorem KeepsOutlet.of_eq (hstate : p'.mS5State = p.mS5State) (halive : p'.mAlive = p.mAlive)
    (hhas : p'.hasReactor = p.hasReactor) (hreactor : p'.reactor = p.reactor)
    (hsocket : p'.mSocket = p.mSocket) : KeepsOutlet p p' where
  state := hstate
  open_ hopen := by
    constructor
    · exact halive.trans hopen.alive
    · exact hhas.trans hopen.reactor
    · rw [hreactor, hsocket]
      exact hopen.listens
  write _ hwrite := by
    rw [hreactor, hsocket]
    exact hwrite

theorem keepsOutlet_withReactor {f : EpollReactor → EpollReactor} (h : KeepsWrite f p.mSocket) :
    KeepsOutlet p (p.withReactor f) := by
  unfold withReactor
  split
  · exact
      { state := rfl
        open_ := fun hopen => ⟨hopen.alive, hopen.reactor, (h _ hopen.listens).1⟩
        write := fun hopen hwrite => (h _ hopen.listens).2 hwrite }
  · exact .refl p

theorem keepsOutlet_whileTrans {f : EpollReactor → EpollReactor} (h : KeepsWrite f p.mSocket) :
    KeepsOutlet p (p.whileTrans f) := by
  unfold whileTrans
  split
  · exact keepsOutlet_withReactor h
  · exact .refl p

theorem mSocket_push (segment : Segment) (p : Socks5Proxy) (queue : ProxyQueue) :
    (p.push segment queue).mSocket = p.mSocket := by
  cases queue <;> rfl

theorem keepsOutlet_push (segment : Segment) (p : Socks5Proxy) (queue : ProxyQueue) :
    KeepsOutlet p (p.push segment queue) := by
  cases queue <;> exact .of_eq rfl rfl rfl rfl rfl

theorem keepsOutlet_encryptAndQueue (queue : ProxyQueue) (data : Bytes) (p : Socks5Proxy) :
    KeepsOutlet p (p.encryptAndQueue queue data).2 := by
  have hdrawn (c : Cipher) (draws : Nat → Draws) :
      KeepsOutlet p { p with cipher := c, draws := draws } := .of_eq rfl rfl rfl rfl rfl
  have hcounted (p : Socks5Proxy) (n : U32) (point : ProxyPoint) :
      KeepsOutlet p (.emit point { p with mBufferedSize := n }) := .of_eq rfl rfl rfl rfl rfl
  unfold encryptAndQueue
  simp only
  split
  · exact hdrawn _ _
  · refine (((hdrawn _ _).trans (keepsOutlet_push _ _ _)).trans (keepsOutlet_withReactor ?_)).trans
      (hcounted _ _ _)
    rw [mSocket_push]
    exact EpollReactor.keepsWrite_addEvent _ _ _ _

theorem keepsOutlet_sendData {data : Bytes} {more : Bool} {n : Nat}
    (h : p.sendData data more = .sent n p') : KeepsOutlet p p' := by
  unfold sendData at h
  split at h
  · cases h
    exact .refl p
  · split at h
    · cases h
      exact .refl p
    · cases h
      exact keepsOutlet_encryptAndQueue .out data p

theorem open_closeWrite (h : Open p) : Open p.closeWrite := by
  unfold closeWrite withReactor
  rw [if_pos h.reactor]
  exact ⟨h.alive, h.reactor, h.listens.delEvent (by decide)⟩

theorem open_pauseSendData (h : Open p) : Open p.pauseSendData := by
  unfold pauseSendData whileTrans
  split
  · exact open_closeWrite h
  · exact h

theorem keepsOutlet_requestSendData (p : Socks5Proxy) : KeepsOutlet p p.requestSendData :=
  keepsOutlet_whileTrans (EpollReactor.keepsWrite_addEvent _ _ _ _)

theorem writeOn_requestSendData {p : Socks5Proxy} (hopen : Open p) (hstate : p.mS5State = .trans) :
    WriteOn p.requestSendData.reactor p.requestSendData.mSocket := by
  unfold requestSendData whileTrans withReactor
  rw [if_pos ⟨hopen.alive, hstate⟩, if_pos hopen.reactor]
  exact EpollReactor.writeOn_addEvent hopen.listens _ 0

/-! ## `sendQueue` -/

theorem sendLoop_proxy (fuel : Nat) (queue : List Segment) (p : Socks5Proxy) :
    ∃ sends, (sendLoop fuel queue p).proxy = { p with sends := sends } := by
  induction fuel generalizing queue p with
  | zero => exact ⟨p.sends, rfl⟩
  | succ fuel ih =>
    cases queue with
    | nil => exact ⟨p.sends, rfl⟩
    | cons segment queue =>
      rw [sendLoop]
      unfold send
      cases p.sends 0 with
      | error errno => exact ⟨_, rfl⟩
      | accepted n =>
        obtain ⟨sends, hloop⟩ := ih (if (segment.consume (min (max n 1) segment.size)).size ≤ 0
          then queue else segment.consume (min (max n 1) segment.size) :: queue)
          { p with sends := fun n => p.sends (n + 1) }
        exact ⟨sends, hloop⟩

theorem sendLoop_nothing_iff {fuel : Nat} {queue : List Segment} {p : Socks5Proxy}
    (h : queue.length ≤ fuel) :
    (sendLoop fuel queue p).sent = [] ↔ Refused queue p.sends := by
  induction fuel generalizing queue p with
  | zero =>
    rw [List.length_eq_zero_iff.mp (Nat.le_zero.mp h)]
    exact iff_of_true rfl trivial
  | succ fuel ih =>
    cases queue with
    | nil => exact iff_of_true rfl trivial
    | cons segment queue =>
      rw [List.length_cons] at h
      rw [sendLoop, Refused]
      unfold send
      cases p.sends 0 with
      | error errno => exact iff_of_true rfl trivial
      | accepted n =>
        simp only [List.append_eq_nil_iff, List.take_eq_nil_iff]
        by_cases hsize : segment.size = 0
        · have hempty : segment.readable = [] :=
            List.length_eq_zero_iff.mp (segment.length_readable.trans hsize)
          have hleft : (segment.consume (min (max n 1) segment.size)).size ≤ 0 := by
            rw [Segment.size_consume (Nat.min_le_right _ _)]
            omega
          simp only [hempty, or_true, true_and, if_pos hleft]
          rw [ih (by omega)]
          exact (and_iff_right hsize).symm
        · have hnonempty : segment.readable ≠ [] := fun hempty => by
            rw [← segment.length_readable, hempty] at hsize
            exact hsize rfl
          refine iff_of_false (fun hsent => ?_) (fun hrefused => hsize hrefused.1)
          rcases hsent.1 with hzero | hempty
          · omega
          · exact hnonempty hempty

theorem mS5State_closeWrite (p : Socks5Proxy) : p.closeWrite.mS5State = p.mS5State := by
  unfold closeWrite withReactor
  split <;> rfl

theorem mS5State_countSent (sent : Bytes) (p : Socks5Proxy) :
    (p.countSent sent).mS5State = p.mS5State := by
  unfold countSent
  split
  · rfl
  · exact mS5State_closeWrite p

theorem open_countSent {p : Socks5Proxy} (hopen : Open p) (sent : Bytes) :
    Open (p.countSent sent) := by
  unfold countSent
  split
  · exact ⟨hopen.alive, hopen.reactor, hopen.listens⟩
  · exact open_closeWrite hopen

theorem writeOn_countSent {p : Socks5Proxy} (hopen : Open p) (sent : Bytes) :
    WriteOn (p.countSent sent).reactor (p.countSent sent).mSocket ↔
      WriteOn p.reactor p.mSocket ∧ sent ≠ [] := by
  unfold countSent
  by_cases hsent : 0 < sent.length
  · rw [if_pos hsent]
    exact (and_iff_left (List.length_pos_iff.mp hsent)).symm
  · have hnothing : sent = [] := List.length_eq_zero_iff.mp (Nat.eq_zero_of_not_pos hsent)
    rw [if_neg hsent]
    unfold closeWrite withReactor
    rw [if_pos hopen.reactor]
    exact iff_of_false (EpollReactor.not_writeOn_delEvent hopen.listens) (fun h => h.2 hnothing)

theorem mS5State_sendSocks5 (p : Socks5Proxy) : p.sendSocks5.mS5State = p.mS5State := by
  obtain ⟨sends, hproxy⟩ := sendLoop_proxy (sendFuel p.mSocks5) p.mSocks5 p
  unfold sendSocks5
  simp only [hproxy]
  exact mS5State_countSent _ _

-- `sendQueue(mSocks5)` keeps the write event if and only if it sends something.
theorem open_sendSocks5 {p : Socks5Proxy} (hopen : Open p) :
    Open p.sendSocks5 ∧
      (WriteOn p.sendSocks5.reactor p.sendSocks5.mSocket ↔
        WriteOn p.reactor p.mSocket ∧ ¬ Refused p.mSocks5 p.sends) := by
  have hfuel : p.mSocks5.length ≤ sendFuel p.mSocks5 := Nat.le_add_left _ _
  obtain ⟨sends, hproxy⟩ := sendLoop_proxy (sendFuel p.mSocks5) p.mSocks5 p
  rw [← sendLoop_nothing_iff hfuel]
  unfold sendSocks5
  simp only [hproxy]
  refine ⟨open_countSent ?_ _, writeOn_countSent ?_ _⟩ <;>
    exact ⟨hopen.alive, hopen.reactor, hopen.listens⟩

-- `sendQueue(mOutQueue)` keeps the write event if and only if it sends something.
theorem open_sendOut {p : Socks5Proxy} (hopen : Open p) :
    Open p.sendOut ∧ p.sendOut.mS5State = p.mS5State ∧
      (WriteOn p.sendOut.reactor p.sendOut.mSocket ↔
        WriteOn p.reactor p.mSocket ∧ ¬ Refused p.mOutQueue p.sends) := by
  have hfuel : p.mOutQueue.length ≤ sendFuel p.mOutQueue := Nat.le_add_left _ _
  obtain ⟨sends, hproxy⟩ := sendLoop_proxy (sendFuel p.mOutQueue) p.mOutQueue p
  rw [← sendLoop_nothing_iff hfuel]
  unfold sendOut
  simp only [hproxy]
  refine ⟨open_countSent ?_ _, mS5State_countSent _ _, writeOn_countSent ?_ _⟩ <;>
    exact ⟨hopen.alive, hopen.reactor, hopen.listens⟩

end Socks5Proxy

end NetCore
