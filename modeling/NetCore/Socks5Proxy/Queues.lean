import Mathlib.Algebra.GroupWithZero.Nat
import NetCore.Cipher.Estimate
import NetCore.Socks5Proxy.Handshake
import NetCore.Socks5Proxy.Message
import NetCore.Socks5Proxy.Stock

/-!
# What goes through the queues of a proxy

A parcel is queued for every message, and `sendQueue` takes bytes off the front, so what the socket
has taken from a queue and what is still in it are the parcels of the queue, one behind the other.
The two queues share a counter that `sendData` compares with the length of a message before it is
encrypted.
-/

namespace NetCore

inductive SendQueue where
  | socks5
  | out
deriving DecidableEq

namespace SendQueue

def of (p : Socks5Proxy) : SendQueue → List Segment
  | socks5 => p.mSocks5
  | out => p.mOutQueue

/-- The queue `onWritable` sends from. -/
def turn (state : S5State) : SendQueue := if state = .trans then out else socks5

def message : SendQueue → ProxyPoint → Option Bytes
  | socks5, .queued (.socks5 _) data => some data
  | out, .queued .out data => some data
  | _, _ => none

end SendQueue

def ProxyPoint.taken : ProxyPoint → Bytes
  | .wrote data => data
  | _ => []

theorem sum_size_eq (queue : List Segment) : (queue.map Segment.size).sum = queuedBytes queue := by
  induction queue with
  | nil => rfl
  | cons segment queue ih => rw [List.map_cons, List.sum_cons, queuedBytes_cons, ih]

namespace Socks5Proxy

open Cipher (Encrypts expansions maxExpansion)

variable {p p' p'' : Socks5Proxy}

def written (p : Socks5Proxy) : Bytes := p.trace.flatMap ProxyPoint.taken

def messages (q : SendQueue) (p : Socks5Proxy) : List Bytes := p.trace.filterMap q.message

-- At most `n` messages of the handshake are queued, and payload as far as `sendData` admits it.
structure Within (n : Nat) (p : Socks5Proxy) : Prop where
  stocked : Stocked p
  socks5 : queuedBytes p.mSocks5 ≤ n * MAX_PARCEL_SIZE
  out : queuedBytes p.mOutQueue ≤ MAX_SOCKS5_PROXY_SEND_BUFFER + maxExpansion

theorem Within.mono {n n' : Nat} (h : Within n p) (hle : n ≤ n') : Within n' p where
  stocked := h.stocked
  socks5 := Nat.le_trans h.socks5 (Nat.mul_le_mul_right _ hle)
  out := h.out

theorem Within.of_eq {n : Nat} (h : Within n p) (hsocks : p'.mSocks5 = p.mSocks5)
    (hout : p'.mOutQueue = p.mOutQueue) (hsize : p'.mBufferedSize = p.mBufferedSize) :
    Within n p' := by
  obtain ⟨⟨hfilled, hfilled', hcounted⟩, hle, hle'⟩ := h
  refine ⟨⟨?_, ?_, ?_⟩, ?_, ?_⟩
  · rw [hsocks]
    exact hfilled
  · rw [hout]
    exact hfilled'
  · rw [hsize, hsocks, hout]
    exact hcounted
  · rw [hsocks]
    exact hle
  · rw [hout]
    exact hle'

-- The counter does not wrap.
theorem Within.counted {n : Nat} (h : Within n p) (hn : n ≤ 3) :
    p.mBufferedSize.toNat = queuedBytes p.mSocks5 + queuedBytes p.mOutQueue := by
  have hmax : MAX_SOCKS5_PROXY_SEND_BUFFER + maxExpansion = 263174 := rfl
  have hparcel : MAX_PARCEL_SIZE = 8192 := rfl
  have hsocks := (h.mono hn).socks5
  have hout := h.out
  rw [h.stocked.counted, BitVec.toNat_ofNat]
  apply Nat.mod_eq_of_lt
  omega

/-! ## Queueing -/

-- Parcels of messages come behind the queues, and nothing is written.
structure Appends (p p' : Socks5Proxy) : Prop where
  written : p'.written = p.written
  queue (q : SendQueue) : ∃ segments sent, q.of p' = q.of p ++ segments ∧
    p'.messages q = p.messages q ++ sent ∧
    List.Forall₂ Encrypts sent (segments.map Segment.readable)

theorem Appends.trans (h : Appends p p') (h' : Appends p' p'') : Appends p p'' where
  written := h'.written.trans h.written
  queue q := by
    obtain ⟨segments, sent, hqueue, hmessages, hparcels⟩ := h.queue q
    obtain ⟨segments', sent', hqueue', hmessages', hparcels'⟩ := h'.queue q
    refine ⟨segments ++ segments', sent ++ sent', ?_, ?_, ?_⟩
    · rw [hqueue', hqueue, List.append_assoc]
    · rw [hmessages', hmessages, List.append_assoc]
    · rw [List.map_append]
      exact List.rel_append hparcels hparcels'

-- The queues stay, and the trace says nothing of them.
theorem Appends.of_points {points : List ProxyPoint} (hsocks : p'.mSocks5 = p.mSocks5)
    (hout : p'.mOutQueue = p.mOutQueue) (htrace : p'.trace = p.trace ++ points)
    (hwritten : points.flatMap ProxyPoint.taken = [])
    (hmessages : ∀ q : SendQueue, points.filterMap q.message = []) : Appends p p' where
  written := by
    unfold Socks5Proxy.written
    rw [htrace, List.flatMap_append, hwritten, List.append_nil]
  queue q := by
    refine ⟨[], [], ?_, ?_, List.Forall₂.nil⟩
    · rw [List.append_nil]
      cases q with
      | socks5 => exact hsocks
      | out => exact hout
    · unfold messages
      rw [htrace, List.filterMap_append, hmessages]

theorem Appends.of_eq (hsocks : p'.mSocks5 = p.mSocks5) (hout : p'.mOutQueue = p.mOutQueue)
    (htrace : p'.trace = p.trace) : Appends p p' :=
  .of_points hsocks hout (htrace.trans (List.append_nil _).symm) rfl fun _ => rfl

theorem appends_push {segment : Segment} {queue : ProxyQueue} {m : Bytes}
    (hparcel : Encrypts m segment.readable) (hsocks : p'.mSocks5 = (p.push segment queue).mSocks5)
    (hout : p'.mOutQueue = (p.push segment queue).mOutQueue)
    (htrace : p'.trace = p.trace ++ [.queued queue m]) : Appends p p' where
  written := by
    unfold Socks5Proxy.written
    rw [htrace, List.flatMap_append]
    exact List.append_nil _
  queue q := by
    have hmessages : p'.messages q = p.messages q ++ [ProxyPoint.queued queue m].filterMap q.message := by
      unfold messages
      rw [htrace, List.filterMap_append]
    have hone : List.Forall₂ Encrypts [m] ([segment].map Segment.readable) :=
      .cons hparcel .nil
    cases queue with
    | socks5 kind =>
      cases q with
      | socks5 => exact ⟨[segment], [m], hsocks, hmessages, hone⟩
      | out => exact ⟨[], [], hout.trans (List.append_nil _).symm, hmessages, .nil⟩
    | out =>
      cases q with
      | socks5 => exact ⟨[], [], hsocks.trans (List.append_nil _).symm, hmessages, .nil⟩
      | out => exact ⟨[segment], [m], hout, hmessages, hone⟩

theorem encryptAndQueue_appends (queue : ProxyQueue) (data : Bytes) (p : Socks5Proxy) :
    Appends p (p.encryptAndQueue queue data).2 := by
  by_cases hdata : data = []
  · rw [hdata, encryptAndQueue_nil]
    exact .of_eq rfl rfl rfl
  · obtain ⟨-, segment, hqueued, hparcel, htrace⟩ := p.encryptAndQueue_queued queue hdata
    exact appends_push hparcel hqueued.socks5 hqueued.outQueue htrace

/-! ## What a client can do -/

-- The admission is about the message, and the parcel may be longer.
theorem sendData_cases {data : Bytes} {more : Bool} {n : Nat} (h : p.sendData data more = .sent n p') :
    (SameStock p p' ∧ p'.trace = p.trace) ∨
      ∃ segment, Queued .out segment p p' ∧ Appends p p' ∧
        p.mBufferedSize.toNat + segment.size ≤ MAX_SOCKS5_PROXY_SEND_BUFFER + maxExpansion := by
  have hnothing (p : Socks5Proxy) : SameStock p p := ⟨rfl, rfl, rfl, rfl, rfl⟩
  unfold sendData at h
  split at h
  · cases h
    exact .inl ⟨hnothing p, rfl⟩
  next halive =>
    split at h
    · cases h
      exact .inl ⟨hnothing p, rfl⟩
    next hroom =>
      cases h
      by_cases hdata : data = []
      · rw [hdata, encryptAndQueue_nil]
        exact .inl ⟨⟨rfl, rfl, rfl, rfl, rfl⟩, rfl⟩
      · right
        obtain ⟨-, segment, hqueued, hparcel, -⟩ := p.encryptAndQueue_queued .out hdata
        refine ⟨segment, hqueued, encryptAndQueue_appends .out data p, ?_⟩
        have hpos := List.length_pos_iff.mpr hdata
        have hlen := hparcel.length_le_add (List.length_take_le _ _)
        rw [Segment.length_readable, List.length_take] at hlen
        have hmax : (BitVec.ofNat 32 MAX_SOCKS5_PROXY_SEND_BUFFER).toNat =
            MAX_SOCKS5_PROXY_SEND_BUFFER := by decide
        unfold getAvailableBufferSize at hroom
        rw [if_neg halive] at hroom
        by_cases hfull : BitVec.ofNat 32 MAX_SOCKS5_PROXY_SEND_BUFFER < p.mBufferedSize
        · simp only [if_pos hfull] at hroom
          exact absurd (show (0 : U32).toNat < data.length from hpos) hroom
        · simp only [if_neg hfull] at hroom
          rw [BitVec.not_lt] at hfull
          rw [BitVec.toNat_sub_of_le hfull, hmax] at hroom
          rw [BitVec.le_def, hmax] at hfull
          omega

-- `sendData` leaves the counter alone, or within its bound.
theorem sendData_counted {data : Bytes} {more : Bool} {n : Nat}
    (h : p.sendData data more = .sent n p') :
    p'.mBufferedSize = p.mBufferedSize ∨
      p'.mBufferedSize.toNat ≤ MAX_SOCKS5_PROXY_SEND_BUFFER + maxExpansion := by
  rcases sendData_cases h with ⟨hsame, -⟩ | ⟨segment, hqueued, -, hle⟩
  · exact .inl hsame.bufferedSize
  · right
    rw [hqueued.counted, BitVec.toNat_add, BitVec.toNat_ofNat, Nat.add_mod_mod]
    exact Nat.le_trans (Nat.mod_le _ _) hle

structure Supplied (p p' : Socks5Proxy) : Prop where
  state : p'.mS5State = p.mS5State
  appends : Appends p p'
  within {n : Nat} : n ≤ 3 → Within n p → Within n p'

theorem Supplied.of_eq (hstate : p'.mS5State = p.mS5State) (hsocks : p'.mSocks5 = p.mSocks5)
    (hout : p'.mOutQueue = p.mOutQueue) (hsize : p'.mBufferedSize = p.mBufferedSize)
    (htrace : p'.trace = p.trace) : Supplied p p' where
  state := hstate
  appends := .of_eq hsocks hout htrace
  within _ hwithin := hwithin.of_eq hsocks hout hsize

theorem Supplied.refl (p : Socks5Proxy) : Supplied p p := .of_eq rfl rfl rfl rfl rfl

theorem Supplied.trans (h : Supplied p p') (h' : Supplied p' p'') : Supplied p p'' where
  state := h'.state.trans h.state
  appends := h.appends.trans h'.appends
  within hn hwithin := h'.within hn (h.within hn hwithin)

theorem supplied_withReactor (f : EpollReactor → EpollReactor) (p : Socks5Proxy) :
    Supplied p (p.withReactor f) := by
  obtain ⟨-, hstate, hsocks, hout, hsize⟩ := withReactor_stock f p
  exact .of_eq hstate hsocks hout hsize (trace_withReactor f p)

theorem supplied_whileTrans (f : EpollReactor → EpollReactor) (p : Socks5Proxy) :
    Supplied p (p.whileTrans f) := by
  unfold whileTrans
  split
  · exact supplied_withReactor f p
  · exact .refl p

theorem supplied_destroyTunnel (p : Socks5Proxy) : Supplied p p.destroyTunnel := by
  have hclosed : Supplied p (if 0 ≤ p.mSocket then
      p.withReactor fun r => (r.delEvent p.mSocket evALL).2 else p) := by
    split
    · exact supplied_withReactor _ p
    · exact .refl p
  exact hclosed.trans (.of_eq rfl rfl rfl rfl rfl)

theorem supplied_sendData {data : Bytes} {more : Bool} {n : Nat}
    (h : p.sendData data more = .sent n p') : Supplied p p' := by
  rcases sendData_cases h with ⟨⟨-, hstate, hsocks, hout, hsize⟩, htrace⟩ |
    ⟨segment, hqueued, happends, hle⟩
  · exact .of_eq hstate hsocks hout hsize htrace
  · refine ⟨hqueued.outlet.state, happends, fun hn hwithin => ⟨hqueued.stocked hwithin.stocked, ?_, ?_⟩⟩
    · rw [show p'.mSocks5 = p.mSocks5 from hqueued.socks5]
      exact hwithin.socks5
    · rw [show p'.mOutQueue = p.mOutQueue ++ [segment] from hqueued.outQueue, queuedBytes_append,
        queuedBytes_cons, queuedBytes_nil]
      have hcounted := hwithin.counted hn
      omega

-- A client gets nothing into the queues but parcels of its messages, within the bound.
theorem supplied_of_calls (h : ITunnel.Calls p p') : Supplied p p' := by
  induction h with
  | refl => exact .refl p
  | keepAlive _ ih => exact ih
  | requestSendData _ ih => exact ih.trans (supplied_whileTrans _ _)
  | sent _ hsent ih => exact ih.trans (supplied_sendData hsent)
  | failed _ hfailed _ => exact absurd hfailed sendData_ne_failed
  | pauseSendData _ ih => exact ih.trans (supplied_whileTrans _ _)
  | pauseReceiveData _ ih => exact ih.trans (supplied_whileTrans _ _)
  | resumeReceiveData _ ih => exact ih.trans (supplied_whileTrans _ _)
  | destroyTunnel _ ih => exact ih.trans (supplied_destroyTunnel _)

/-! ## `sendQueue` -/

-- What the socket takes comes off the front of the queue.
theorem sendLoop_front (fuel : Nat) (queue : List Segment) (p : Socks5Proxy) :
    (sendLoop fuel queue p).sent ++ (sendLoop fuel queue p).queue.flatMap Segment.readable =
        queue.flatMap Segment.readable ∧
      (sendLoop fuel queue p).queue.length ≤ queue.length := by
  induction fuel generalizing queue p with
  | zero => exact ⟨rfl, Nat.le_refl _⟩
  | succ fuel ih =>
    cases queue with
    | nil => exact ⟨rfl, Nat.le_refl _⟩
    | cons segment queue =>
      rw [sendLoop]
      unfold send
      cases p.sends 0 with
      | error errno => exact ⟨rfl, Nat.le_refl _⟩
      | accepted n =>
        simp only
        have hle := Nat.min_le_right (max n 1) segment.size
        generalize min (max n 1) segment.size = s at hle ⊢
        have hleft : (if (segment.consume s).size ≤ 0 then queue else segment.consume s :: queue).flatMap
            Segment.readable = segment.readable.drop s ++ queue.flatMap Segment.readable := by
          rw [← Segment.readable_consume hle]
          split
          next hempty =>
            rw [← Segment.length_readable, Nat.le_zero, List.length_eq_zero_iff] at hempty
            rw [hempty, List.nil_append]
          next => exact List.flatMap_cons
        have hlen : (if (segment.consume s).size ≤ 0 then queue else segment.consume s :: queue).length ≤
            (segment :: queue).length := by
          split
          · exact Nat.le_succ _
          · exact Nat.le_refl _
        obtain ⟨hfront, hshorter⟩ := ih (if (segment.consume s).size ≤ 0 then queue
          else segment.consume s :: queue) { p with sends := fun n => p.sends (n + 1) }
        refine ⟨?_, Nat.le_trans hshorter hlen⟩
        rw [List.append_assoc, hfront, hleft, ← List.append_assoc, List.take_append_drop,
          List.flatMap_cons]

structure Sends (q : SendQueue) (p p' : Socks5Proxy) : Prop where
  state : p'.mS5State = p.mS5State
  within {n : Nat} : Within n p → Within n p'
  sent : ∃ sent, p'.trace = p.trace ++ [.wrote sent] ∧
    sent ++ (q.of p').flatMap Segment.readable = (q.of p).flatMap Segment.readable
  shorter : (q.of p').length ≤ (q.of p).length
  other (q' : SendQueue) : q' ≠ q → q'.of p' = q'.of p

theorem trace_countSent (sent : Bytes) (p : Socks5Proxy) : (p.countSent sent).trace = p.trace := by
  unfold countSent
  split
  · rfl
  · exact trace_withReactor _ p

theorem Sends.of_loop {q : SendQueue} {fuel : Nat} (hstate : p'.mS5State = p.mS5State)
    (hwithin : ∀ n, Within n p → Within n p') (hqueue : q.of p' = (sendLoop fuel (q.of p) p).queue)
    (hother : ∀ q' : SendQueue, q' ≠ q → q'.of p' = q'.of p)
    (htrace : p'.trace = p.trace ++ [.wrote (sendLoop fuel (q.of p) p).sent]) : Sends q p p' := by
  obtain ⟨hfront, hshorter⟩ := sendLoop_front fuel (q.of p) p
  refine ⟨hstate, hwithin _, ⟨_, htrace, ?_⟩, ?_, hother⟩
  · rw [hqueue]
    exact hfront
  · rw [hqueue]
    exact hshorter

theorem sendSocks5_queues (p : Socks5Proxy) :
    p.sendSocks5.mSocks5 = (sendLoop (sendFuel p.mSocks5) p.mSocks5 p).queue ∧
      p.sendSocks5.mOutQueue = p.mOutQueue ∧
      p.sendSocks5.trace = p.trace ++ [.wrote (sendLoop (sendFuel p.mSocks5) p.mSocks5 p).sent] := by
  obtain ⟨sends, hproxy⟩ := sendLoop_proxy (sendFuel p.mSocks5) p.mSocks5 p
  unfold sendSocks5
  simp only [hproxy]
  generalize sendLoop (sendFuel p.mSocks5) p.mSocks5 p = r
  obtain ⟨-, hsocks, hout, -⟩ := countSent_stock r.sent
    (.emit (.wrote r.sent) { p with sends := sends, mSocks5 := r.queue })
  exact ⟨hsocks, hout, trace_countSent _ _⟩

theorem sendOut_queues (p : Socks5Proxy) :
    p.sendOut.mOutQueue = (sendLoop (sendFuel p.mOutQueue) p.mOutQueue p).queue ∧
      p.sendOut.mSocks5 = p.mSocks5 ∧ p.sendOut.mS5State = p.mS5State ∧
      p.sendOut.trace = p.trace ++ [.wrote (sendLoop (sendFuel p.mOutQueue) p.mOutQueue p).sent] := by
  obtain ⟨sends, hproxy⟩ := sendLoop_proxy (sendFuel p.mOutQueue) p.mOutQueue p
  unfold sendOut
  simp only [hproxy]
  generalize sendLoop (sendFuel p.mOutQueue) p.mOutQueue p = r
  obtain ⟨-, hsocks, hout, -⟩ := countSent_stock r.sent
    (.emit (.wrote r.sent) { p with sends := sends, mOutQueue := r.queue })
  exact ⟨hout, hsocks, mS5State_countSent _ _, trace_countSent _ _⟩

theorem sendSocks5_sends (p : Socks5Proxy) : Sends .socks5 p p.sendSocks5 := by
  obtain ⟨hsocks, hout, htrace⟩ := sendSocks5_queues p
  refine .of_loop (mS5State_sendSocks5 p) (fun n h => ?_) hsocks (fun q hne => ?_) htrace
  · obtain ⟨hstocked, -, hsent⟩ := sendSocks5_stocked h.stocked
    refine ⟨hstocked, Nat.le_trans hsent.le h.socks5, ?_⟩
    rw [hout]
    exact h.out
  · cases q with
    | socks5 => exact absurd rfl hne
    | out => exact hout

theorem sendOut_sends (p : Socks5Proxy) : Sends .out p p.sendOut := by
  obtain ⟨hout, hsocks, hstate, htrace⟩ := sendOut_queues p
  refine .of_loop hstate (fun n h => ?_) hout (fun q hne => ?_) htrace
  · obtain ⟨hstocked, -, hsent⟩ := sendOut_stocked h.stocked
    refine ⟨hstocked, ?_, Nat.le_trans hsent.le h.out⟩
    rw [hsocks]
    exact h.socks5
  · cases q with
    | socks5 => exact hsocks
    | out => exact absurd rfl hne

end Socks5Proxy

namespace Served

open Socks5Proxy

variable {γ : Type} {w w' w'' : Served γ}

/-! ## Events -/

structure Supplies (w w' : Served γ) : Prop where
  appends : Appends w.proxy w'.proxy
  within : Within w.proxy.mS5State.handshakeSent w.proxy →
    Within w'.proxy.mS5State.handshakeSent w'.proxy

theorem Supplies.trans (h : Supplies w w') (h' : Supplies w' w'') : Supplies w w'' where
  appends := h.appends.trans h'.appends
  within hwithin := h'.within (h.within hwithin)

theorem Supplies.of_supplied (h : Supplied w.proxy w'.proxy) : Supplies w w' where
  appends := h.appends
  within hwithin := by
    rw [h.state]
    exact h.within (S5State.handshakeSent_le _) hwithin

theorem sendS5_supplies (kind : S5Message) (data : Bytes) (w : Served γ) :
    Appends w.proxy (w.sendS5 kind data).2.proxy ∧
      (w.sendS5 kind data).2.proxy.mS5State = w.proxy.mS5State ∧
      ∀ n, Within n w.proxy → Within (n + 1) (w.sendS5 kind data).2.proxy := by
  have hprepared := prepared_encryptAndQueue kind data w.proxy
  refine ⟨encryptAndQueue_appends (.socks5 kind) data w.proxy, hprepared.outlet.state, ?_⟩
  intro n hwithin
  refine ⟨hprepared.stocked hwithin.stocked, ?_, ?_⟩
  · have hle := hprepared.le
    have hsocks := hwithin.socks5
    show queuedBytes (w.proxy.encryptAndQueue (.socks5 kind) data).2.mSocks5 ≤ _
    rw [Nat.add_mul]
    omega
  · show queuedBytes (w.proxy.encryptAndQueue (.socks5 kind) data).2.mOutQueue ≤ _
    rw [hprepared.outQueue]
    exact hwithin.out

theorem supplied_callBack {f : γ → Socks5Proxy → γ × Socks5Proxy}
    (h : ∀ c p, ITunnel.Calls p (f c p).2) (w : Served γ) :
    Supplied w.proxy (w.callBack f).proxy := supplied_of_calls (h w.mClient w.proxy)

variable [ITunnelClient γ Socks5Proxy]

-- Entering a state, behind which the client may send.
theorem switchS5State_supplies (state : S5State) (w : Served γ) :
    Appends w.proxy (w.switchS5State state).proxy ∧
      (w.switchS5State state).proxy.mS5State = state ∧
      ∀ n ≤ 3, Within n w.proxy → Within n (w.switchS5State state).proxy := by
  unfold switchS5State
  split
  next hsame =>
    have hnothing := Supplied.refl w.proxy
    exact ⟨hnothing.appends, hsame, fun _ _ => id⟩
  next =>
    have hentered : Appends w.proxy
        (w.onProxy fun p => .emit (.switched p.mS5State state) { p with mS5State := state }).proxy :=
      .of_points rfl rfl rfl rfl fun q => by cases q <;> rfl
    have hbehind {p : Socks5Proxy} (h : Supplied (w.onProxy fun p =>
        .emit (.switched p.mS5State state) { p with mS5State := state }).proxy p) :
        Appends w.proxy p ∧ p.mS5State = state ∧ ∀ n ≤ 3, Within n w.proxy → Within n p :=
      ⟨hentered.trans h.appends, h.state, fun n hn hwithin => h.within hn (hwithin.of_eq rfl rfl rfl)⟩
    simp only
    cases state with
    | trans => exact hbehind (supplied_callBack ITunnelClient.writable_calls _)
    | failed =>
      exact hbehind ((supplied_callBack (ITunnelClient.disconnected_calls 0) _).trans
        (supplied_destroyTunnel _))
    | ended =>
      exact hbehind ((supplied_callBack (ITunnelClient.disconnected_calls 0) _).trans
        (supplied_destroyTunnel _))
    | init => exact hbehind (.refl _)
    | greet => exact hbehind (.refl _)
    | verify => exact hbehind (.refl _)
    | connect => exact hbehind (.refl _)

-- A message of the handshake, and the change of state behind it.
theorem sentThen_supplies (kind : S5Message) (data : Bytes) {state : S5State} (w : Served γ)
    (hlt : w.proxy.mS5State.handshakeSent < state.handshakeSent) :
    Supplies w ((w.sendS5 kind data).2.switchS5State state) := by
  have hle := state.handshakeSent_le
  obtain ⟨hsent, hsame, hone⟩ := sendS5_supplies kind data w
  obtain ⟨hbehind, hstate, hkept⟩ := switchS5State_supplies state (w.sendS5 kind data).2
  refine ⟨hsent.trans hbehind, fun hwithin => ?_⟩
  rw [hstate]
  exact (hkept _ (by omega) (hone _ hwithin)).mono hlt

-- A change of state, with no message of the handshake in front of it.
theorem switchS5State_within {state : S5State} (w : Served γ)
    (hle : w.proxy.mS5State.handshakeSent ≤ state.handshakeSent) :
    Supplies w (w.switchS5State state) := by
  obtain ⟨hbehind, hstate, hkept⟩ := switchS5State_supplies state w
  refine ⟨hbehind, fun hwithin => ?_⟩
  rw [hstate]
  exact (hkept _ (S5State.handshakeSent_le _) hwithin).mono hle

theorem supplied_noteConnected (w : Served γ) : Supplied w.proxy w.noteConnected.proxy := by
  unfold noteConnected
  split
  · exact .refl _
  · exact .of_eq rfl rfl rfl rfl rfl

theorem supplies_relation : ReadRelation fun w w' : Served γ => Supplies w w' where
  refl w := .of_supplied (.refl w.proxy)
  trans := Supplies.trans
  handled data w := by
    refine .of_supplied ⟨rfl, ?_, fun _ hwithin => hwithin.of_eq rfl rfl rfl⟩
    exact .of_points rfl rfl rfl rfl fun q => by cases q <;> rfl
  ends w hend := by
    refine switchS5State_within w ?_
    rcases hend with rfl | rfl <;> exact S5State.handshakeSent_le _
  connect {w} hstate := by
    refine sentThen_supplies .connect _ w ?_
    rcases hstate with hstate | hstate <;> rw [hstate] <;> decide
  account {w state} hgreet hstate := by
    have hlt : w.proxy.mS5State.handshakeSent < state.handshakeSent := by
      rw [hgreet]
      rcases hstate with rfl | rfl <;> decide
    unfold sendS5Account
    split
    · exact sentThen_supplies .account _ w hlt
    · exact switchS5State_within w (Nat.le_of_lt hlt)
  established {w} hconnect := by
    refine switchS5State_within w ?_
    rw [hconnect]
    exact Nat.le_refl _
  passBack data w _ := by
    have hnoted : Supplied w.proxy (w.onProxy fun p => .emit (.dataBack data)
        { p with mPayloadDataBack := p.mPayloadDataBack + BitVec.ofNat 32 data.length }).proxy := by
      refine ⟨rfl, ?_, fun _ hwithin => hwithin.of_eq rfl rfl rfl⟩
      exact .of_points rfl rfl rfl rfl fun q => by cases q <;> rfl
    exact .of_supplied (hnoted.trans (supplied_callBack (ITunnelClient.dataBack_calls data) _))
  cipher _ w := .of_supplied (.of_eq rfl rfl rfl rfl rfl)
  buffer _ w := .of_supplied (.of_eq rfl rfl rfl rfl rfl)
  noteConnected w := .of_supplied (supplied_noteConnected w)

omit [ITunnelClient γ Socks5Proxy] in
-- The flag `mConnected` has nothing to do with what is sent.
theorem sends_connected {q : SendQueue} {b : Bool} {p p' : Socks5Proxy}
    (h : Sends q { p with mConnected := b } p') : Sends q p p' := by
  have hof (q : SendQueue) : q.of { p with mConnected := b } = q.of p := by cases q <;> rfl
  obtain ⟨hstate, hwithin, hsent, hshorter, hother⟩ := h
  rw [hof] at hsent hshorter
  refine ⟨hstate, fun hbefore => hwithin (hbefore.of_eq rfl rfl rfl), hsent, hshorter, ?_⟩
  intro q' hne
  rw [hother q' hne, hof]

-- Writing is the one thing that takes bytes off a queue.
theorem onWritable_cases (w : Served γ) :
    Supplies w w.onWritable ∨ Sends (.turn w.proxy.mS5State) w.proxy w.onWritable.proxy := by
  have hnoted := supplied_noteConnected w
  obtain ⟨b, hproxy⟩ : ∃ b, w.noteConnected.proxy = { w.proxy with mConnected := b } := by
    unfold noteConnected
    split
    · exact ⟨w.proxy.mConnected, rfl⟩
    · exact ⟨true, rfl⟩
  have hclose (p : Socks5Proxy) : Supplied p p.closeWrite := supplied_withReactor _ p
  unfold onWritable
  simp only
  split
  next hstate =>
    rw [hnoted.state] at hstate
    split
    · right
      rw [hstate]
      apply sends_connected (b := b)
      rw [← hproxy]
      exact sendOut_sends _
    · left
      have hcalled := hnoted.trans (supplied_of_calls
        (ITunnelClient.writable_calls w.noteConnected.mClient w.noteConnected.proxy))
      split
      · exact .of_supplied (hcalled.trans (hclose _))
      · exact .of_supplied hcalled
  next hstate =>
    left
    refine (Supplies.of_supplied hnoted).trans (sentThen_supplies .greet _ _ ?_)
    rw [hstate]
    decide
  next hne _ =>
    rw [hnoted.state] at hne
    split
    · exact .inl (.of_supplied (hnoted.trans (hclose _)))
    · right
      have hturn : SendQueue.turn w.proxy.mS5State = .socks5 := if_neg hne
      rw [hturn]
      apply sends_connected (b := b)
      rw [← hproxy]
      exact sendSocks5_sends _

theorem step_cases {e : Event γ} (hstep : w.step e = some w') :
    Supplies w w' ∨ Sends (.turn w.proxy.mS5State) w.proxy w'.proxy := by
  cases e with
  | readable outcome => exact .inl (supplies_relation.onReadable hstep)
  | writable =>
    cases hstep
    exact onWritable_cases w
  | exception error =>
    cases hstep
    exact .inl (supplies_relation.ends w (.inl rfl))
  | client c =>
    cases hstep
    exact .inl (.of_supplied (supplied_callBack c.calls w))
  | environment settings cipher =>
    cases hstep
    exact .inl (.of_supplied (.of_eq rfl rfl rfl rfl rfl))

/-! ## Runs -/

def ciphertexts (q : SendQueue) (w : Served γ) (e : Event γ) : List Bytes :=
  match w.step e with
  | none => []
  | some w' => ((q.of w'.proxy).drop (q.of w.proxy).length).map Segment.readable

def bytesWritten (q : SendQueue) (w : Served γ) (e : Event γ) : Bytes :=
  match w.step e with
  | none => []
  | some w' =>
      if SendQueue.turn w.proxy.mS5State = q then w'.proxy.written.drop w.proxy.written.length else []

omit [ITunnelClient γ Socks5Proxy] in
-- What has been written from a queue and what is in it are its ciphertexts, and these are parcels of
-- its messages.
structure Account (q : SendQueue) (past : Bytes) (parcels : List Bytes) (w : Served γ) : Prop where
  balanced : past ++ (q.of w.proxy).flatMap Segment.readable = parcels.flatten
  encrypts : List.Forall₂ Cipher.Encrypts (w.proxy.messages q) parcels

variable {q : SendQueue} {past : Bytes} {parcels : List Bytes} {e : Event γ}

theorem Account.of_supplies (h : Account q past parcels w) (hstep : w.step e = some w')
    (hsupplies : Supplies w w') :
    Account q (past ++ bytesWritten q w e) (parcels ++ ciphertexts q w e) w' := by
  obtain ⟨segments, messages, hqueue, hmessages, hparcels⟩ := hsupplies.appends.queue q
  have hnothing : bytesWritten q w e = [] := by
    unfold bytesWritten
    rw [hstep]
    simp only
    rw [hsupplies.appends.written, List.drop_length, ite_self]
  have hnew : ciphertexts q w e = segments.map Segment.readable := by
    unfold ciphertexts
    rw [hstep]
    simp only
    rw [hqueue, List.drop_left]
  rw [hnothing, hnew]
  constructor
  · rw [hqueue, List.append_nil, List.flatMap_append, ← List.append_assoc, h.balanced,
      List.flatten_append, List.flatMap_def]
  · rw [hmessages]
    exact List.rel_append h.encrypts hparcels

theorem Account.of_sends (h : Account q past parcels w) (hstep : w.step e = some w')
    (hsends : Sends (.turn w.proxy.mS5State) w.proxy w'.proxy) :
    Account q (past ++ bytesWritten q w e) (parcels ++ ciphertexts q w e) w' := by
  obtain ⟨-, -, ⟨taken, htrace, hfront⟩, hshorter, hother⟩ := hsends
  have hmessages : w'.proxy.messages q = w.proxy.messages q := by
    unfold messages
    rw [htrace, List.filterMap_append]
    cases q <;> exact List.append_nil _
  have hwritten : w'.proxy.written.drop w.proxy.written.length = taken := by
    unfold written
    rw [htrace, List.flatMap_append, List.drop_left]
    exact List.append_nil taken
  have hnone : ciphertexts q w e = [] := by
    unfold ciphertexts
    rw [hstep]
    simp only
    rw [List.map_eq_nil_iff, List.drop_eq_nil_iff]
    by_cases hturn : q = .turn w.proxy.mS5State
    · rw [hturn]
      exact hshorter
    · rw [hother q hturn]
  rw [hnone, List.append_nil]
  refine ⟨?_, hmessages ▸ h.encrypts⟩
  rw [← h.balanced]
  unfold bytesWritten
  rw [hstep]
  simp only
  by_cases hturn : SendQueue.turn w.proxy.mS5State = q
  · rw [if_pos hturn, hwritten, List.append_assoc]
    rw [hturn] at hfront
    rw [hfront]
  · rw [if_neg hturn, List.append_nil, hother q fun heq => hturn heq.symm]

theorem step_account (h : Account q past parcels w) (hstep : w.step e = some w') :
    Account q (past ++ bytesWritten q w e) (parcels ++ ciphertexts q w e) w' :=
  (step_cases hstep).elim (h.of_supplies hstep) (h.of_sends hstep)

theorem step_within (h : Within w.proxy.mS5State.handshakeSent w.proxy) (hstep : w.step e = some w') :
    Within w'.proxy.mS5State.handshakeSent w'.proxy := by
  rcases step_cases hstep with hsupplies | hsends
  · exact hsupplies.within h
  · rw [hsends.state]
    exact hsends.within h

structure Unused (p : Socks5Proxy) : Prop extends Born p where
  socks5 : p.mSocks5 = []
  outQueue : p.mOutQueue = []
  bufferedSize : p.mBufferedSize = 0

structure Accounted (w : Served γ) (events : List (Event γ)) (w' : Served γ) : Prop where
  counted : w'.proxy.mBufferedSize.toNat =
    ((w'.proxy.mSocks5 ++ w'.proxy.mOutQueue).map Segment.size).sum
  payload : (w'.proxy.mOutQueue.map Segment.size).sum ≤
    MAX_SOCKS5_PROXY_SEND_BUFFER + Cipher.maxExpansion
  encrypts (q : SendQueue) :
    List.Forall₂ Cipher.Encrypts (w'.proxy.messages q) (Lib.trail step (ciphertexts q) w events)
  written (q : SendQueue) : Lib.trail step (bytesWritten q) w events <+:
    (Lib.trail step (ciphertexts q) w events).flatten

/-- The counter is what is queued, `sendData` keeps it within the bound, and what has been written from
    a queue is a prefix of its ciphertexts. -/
theorem run_accounted {events : List (Event γ)} (h : Unused w.proxy)
    (hrun : Lib.run step w events = some w') :
    Accounted w events w' ∧ IsGreatest Cipher.expansions Cipher.maxExpansion ∧
      ∀ (p p' : Socks5Proxy) (data : Bytes) (more : Bool) (n : Nat),
        p.sendData data more = .sent n p' → p'.mBufferedSize = p.mBufferedSize ∨
          p'.mBufferedSize.toNat ≤ MAX_SOCKS5_PROXY_SEND_BUFFER + Cipher.maxExpansion := by
  refine ⟨?_, Cipher.isGreatest_maxExpansion, fun _ _ _ _ _ => sendData_counted⟩
  have hstart : Within w.proxy.mS5State.handshakeSent w.proxy := by
    constructor
    · refine ⟨?_, ?_, ?_⟩
      · rw [h.socks5]
        exact List.forall_mem_nil _
      · rw [h.outQueue]
        exact List.forall_mem_nil _
      · rw [h.bufferedSize, h.socks5, h.outQueue]
        rfl
    · rw [h.socks5]
      exact Nat.zero_le _
    · rw [h.outQueue]
      exact Nat.zero_le _
  have hopened (q : SendQueue) : Account q [] [] w := by
    constructor
    · have hempty : q.of w.proxy = [] := by
        cases q with
        | socks5 => exact h.socks5
        | out => exact h.outQueue
      rw [hempty]
      rfl
    · unfold messages
      rw [h.trace]
      exact .nil
  have hwithin := Lib.run_invariant (fun w : Served γ => Within w.proxy.mS5State.handshakeSent w.proxy)
    (fun _ _ _ => step_within) hstart hrun
  have haccount (q : SendQueue) : Account q (Lib.trail step (bytesWritten q) w events)
      (Lib.trail step (ciphertexts q) w events) w' :=
    Lib.run_trails (Account q) (fun _ _ _ _ _ => step_account) (hopened q) hrun
  refine ⟨?_, ?_, fun q => (haccount q).encrypts, fun q => ⟨_, (haccount q).balanced⟩⟩
  · rw [hwithin.counted (S5State.handshakeSent_le _), List.map_append, List.sum_append, sum_size_eq,
      sum_size_eq]
  · rw [sum_size_eq]
    exact hwithin.out

theorem run_accounted_sample :
    ∃ w', Lib.run step sampleNamed sampleReplies = some w' ∧ w'.proxy.mBufferedSize = 48 ∧
      Accounted sampleNamed sampleReplies w' ∧
      IsGreatest Cipher.expansions Cipher.maxExpansion ∧
      ∀ (p p' : Socks5Proxy) (data : Bytes) (more : Bool) (n : Nat),
        p.sendData data more = .sent n p' → p'.mBufferedSize = p.mBufferedSize ∨
          p'.mBufferedSize.toNat ≤ MAX_SOCKS5_PROXY_SEND_BUFFER + Cipher.maxExpansion := by
  obtain ⟨-, w', hrun, -, -, hsize⟩ := sampleReplies_run
  exact ⟨w', hrun, hsize, run_accounted ⟨⟨rfl, rfl⟩, rfl, rfl, rfl⟩ hrun⟩

end Served

end NetCore
