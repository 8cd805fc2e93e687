import NetCore.Socks5Proxy.Outlet

/-!
# What a proxy has queued

`mBufferedSize` counts the bytes of both queues, and no queued segment is empty.  `encryptAndQueue`
queues a parcel for every message and asks for the write event; `sendQueue` takes bytes off the front
of its queue.
-/

namespace NetCore

def queuedBytes (queue : List Segment) : Nat := (queue.flatMap Segment.readable).length

@[simp] theorem queuedBytes_nil : queuedBytes [] = 0 := rfl

@[simp] theorem queuedBytes_cons (segment : Segment) (queue : List Segment) :
    queuedBytes (segment :: queue) = segment.size + queuedBytes queue := by
  unfold queuedBytes
  rw [List.flatMap_cons, List.length_append, Segment.length_readable]

@[simp] theorem queuedBytes_append (queue queue' : List Segment) :
    queuedBytes (queue ++ queue') = queuedBytes queue + queuedBytes queue' := by
  unfold queuedBytes
  rw [List.flatMap_append, List.length_append]

def Filled (queue : List Segment) : Prop := ∀ segment ∈ queue, 0 < segment.size

theorem Filled.ne_nil_iff {queue : List Segment} (h : Filled queue) :
    queue ≠ [] ↔ 0 < queuedBytes queue := by
  cases queue with
  | nil => exact iff_of_false (fun hne => hne rfl) (Nat.lt_irrefl 0)
  | cons segment queue =>
    refine iff_of_true (List.cons_ne_nil _ _) ?_
    have hpos := h segment List.mem_cons_self
    rw [queuedBytes_cons]
    omega

theorem Filled.snoc {queue : List Segment} (h : Filled queue) {segment : Segment}
    (hpos : 0 < segment.size) : Filled (queue ++ [segment]) := by
  intro other hmem
  rcases List.mem_append.mp hmem with hmem | hmem
  · exact h other hmem
  · rw [List.mem_singleton.mp hmem]
    exact hpos

-- With no empty segment in the way the first answer decides.
theorem Filled.not_refused_iff {queue : List Segment} (h : Filled queue) (hne : queue ≠ [])
    (sends : Nat → SendOutcome) : ¬ Refused queue sends ↔ ∃ n, sends 0 = .accepted n := by
  cases queue with
  | nil => exact absurd rfl hne
  | cons segment queue =>
    have hpos := h segment List.mem_cons_self
    rw [Refused]
    cases sends 0 with
    | error errno => exact iff_of_false (fun hnot => hnot trivial) (by rintro ⟨n, hn⟩; cases hn)
    | accepted n => exact iff_of_true (fun hrefused => by omega) ⟨n, rfl⟩

namespace Socks5Proxy

open EpollReactor (WriteOn)

variable {p p' : Socks5Proxy}

structure Stocked (p : Socks5Proxy) : Prop where
  socks5 : Filled p.mSocks5
  outQueue : Filled p.mOutQueue
  counted : p.mBufferedSize = BitVec.ofNat 32 (queuedBytes p.mSocks5 + queuedBytes p.mOutQueue)

structure SameStock (p p' : Socks5Proxy) : Prop where
  alive : p'.mAlive = p.mAlive
  state : p'.mS5State = p.mS5State
  socks5 : p'.mSocks5 = p.mSocks5
  outQueue : p'.mOutQueue = p.mOutQueue
  bufferedSize : p'.mBufferedSize = p.mBufferedSize

theorem SameStock.stocked (h : SameStock p p') (hstocked : Stocked p) : Stocked p' := by
  refine ⟨?_, ?_, ?_⟩
  · rw [h.socks5]
    exact hstocked.socks5
  · rw [h.outQueue]
    exact hstocked.outQueue
  · rw [h.bufferedSize, h.socks5, h.outQueue]
    exact hstocked.counted

theorem withReactor_stock (f : EpollReactor → EpollReactor) (p : Socks5Proxy) :
    SameStock p (p.withReactor f) := by
  unfold withReactor
  split <;> exact ⟨rfl, rfl, rfl, rfl, rfl⟩

theorem closeWrite_stock (p : Socks5Proxy) : SameStock p p.closeWrite := withReactor_stock _ p

theorem whileTrans_stock (f : EpollReactor → EpollReactor) (p : Socks5Proxy) :
    SameStock p (p.whileTrans f) := by
  unfold whileTrans
  split
  · exact withReactor_stock f p
  · exact ⟨rfl, rfl, rfl, rfl, rfl⟩

-- A call after which a proxy that still lives has the state, the queues and the write event it
-- had.
def Quiet (p p' : Socks5Proxy) : Prop := p'.mAlive = true → SameStock p p' ∧ KeepsOutlet p p'

theorem Quiet.refl (p : Socks5Proxy) : Quiet p p := fun _ => ⟨⟨rfl, rfl, rfl, rfl, rfl⟩, .refl p⟩

theorem Quiet.trans {p'' : Socks5Proxy} (h : Quiet p p') (h' : Quiet p' p'') : Quiet p p'' := by
  intro halive
  obtain ⟨hsame', hkeeps'⟩ := h' halive
  obtain ⟨hsame, hkeeps⟩ := h (hsame'.alive.symm.trans halive)
  exact ⟨⟨hsame'.alive.trans hsame.alive, hsame'.state.trans hsame.state,
    hsame'.socks5.trans hsame.socks5, hsame'.outQueue.trans hsame.outQueue,
    hsame'.bufferedSize.trans hsame.bufferedSize⟩, hkeeps.trans hkeeps'⟩

-- Nothing can be asked of a proxy that is gone.
theorem Quiet.dead (h : p'.mAlive = false) : Quiet p p' := fun halive => by
  rw [h] at halive
  cases halive

theorem quiet_whileTrans {f : EpollReactor → EpollReactor}
    (h : EpollReactor.KeepsWrite f p.mSocket) : Quiet p (p.whileTrans f) :=
  fun _ => ⟨whileTrans_stock f p, keepsOutlet_whileTrans h⟩

-- A change of nothing that is queued or registered.
theorem Quiet.of_eq (hsame : SameStock p p') (hhas : p'.hasReactor = p.hasReactor)
    (hreactor : p'.reactor = p.reactor) (hsocket : p'.mSocket = p.mSocket) : Quiet p p' :=
  fun _ => ⟨hsame, .of_eq hsame.state hsame.alive hhas hreactor hsocket⟩

/-! ## `encryptAndQueue` -/

-- What `encryptAndQueue` does with a message: a parcel of at most `MAX_PARCEL_SIZE` bytes is at the
-- end of the queue and counted, and the write event is asked for.
structure Queued (queue : ProxyQueue) (segment : Segment) (p p' : Socks5Proxy) : Prop where
  pos : 0 < segment.size
  le : segment.size ≤ MAX_PARCEL_SIZE
  alive : p'.mAlive = p.mAlive
  outlet : KeepsOutlet p p'
  socks5 : p'.mSocks5 = (p.push segment queue).mSocks5
  outQueue : p'.mOutQueue = (p.push segment queue).mOutQueue
  counted : p'.mBufferedSize = p.mBufferedSize + BitVec.ofNat 32 segment.size
  writes : Open p → WriteOn p'.reactor p'.mSocket

theorem trace_withReactor (f : EpollReactor → EpollReactor) (p : Socks5Proxy) :
    (p.withReactor f).trace = p.trace := by
  unfold withReactor
  split <;> rfl

-- The segment holds the parcel of what has been taken.
theorem encryptAndQueue_queued (queue : ProxyQueue) {data : Bytes} (hdata : data ≠ [])
    (p : Socks5Proxy) :
    (p.encryptAndQueue queue data).1 = min data.length MAX_ENCRYPT_SIZE ∧
      ∃ segment, Queued queue segment p (p.encryptAndQueue queue data).2 ∧
        Cipher.Encrypts (data.take MAX_ENCRYPT_SIZE) segment.readable ∧
        (p.encryptAndQueue queue data).2.trace =
          p.trace ++ [.queued queue (data.take MAX_ENCRYPT_SIZE)] := by
  have hkeeps := keepsOutlet_encryptAndQueue queue data p
  have hshare : MAX_PARCEL_SIZE ≤ (BitVec.ofNat 32 SOCKS5_SHARE_BUFFER_SZ).toNat := by decide
  have hout := Cipher.encrypt_succeeds (p.draws 0) p.cipher hdata hshare
  have horigin := (Cipher.encrypt_eq hout).2.2
  have hencrypts := Cipher.encrypts_front hout
  unfold encryptAndQueue at hkeeps ⊢
  generalize Cipher.encrypt (p.draws 0) data (BitVec.ofNat 32 SOCKS5_SHARE_BUFFER_SZ) p.cipher = r
    at hout horigin hencrypts hkeeps ⊢
  simp only [if_neg hout] at hkeeps ⊢
  have hparcel := hencrypts.length_le
  have hpos := List.length_pos_iff.mpr hout
  have hroom : r.out.length ≤ (Segment.new r.out.length).remain := by
    have hmax : MAX_PARCEL_SIZE = 8192 := rfl
    unfold Segment.remain Segment.capacity Segment.new
    simp only [Nat.sub_zero]
    rw [if_neg (by omega), List.length_replicate]
  have hread : ((Segment.new r.out.length).write r.out).readable = r.out := by
    rw [Segment.readable_write_of_le hroom, Segment.readable_new, List.nil_append]
  have hsize : ((Segment.new r.out.length).write r.out).size = r.out.length := by
    rw [← Segment.length_readable, hread]
  have htaken : data.length - r.origin.length = min data.length MAX_ENCRYPT_SIZE := by
    rw [horigin, List.length_drop]
    omega
  rw [← hread] at hencrypts
  refine ⟨htaken, (Segment.new r.out.length).write r.out,
    ⟨by omega, by omega, ?_, hkeeps, ?_, ?_, ?_, ?_⟩, hencrypts, ?_⟩
  · cases queue <;> exact (withReactor_stock _ (push _ _ _)).alive
  · cases queue <;> exact (withReactor_stock _ (push _ _ _)).socks5
  · cases queue <;> exact (withReactor_stock _ (push _ _ _)).outQueue
  · rw [hsize]
    cases queue <;> exact congrArg (· + _) (withReactor_stock _ (push _ _ _)).bufferedSize
  · intro hopen
    have hwrites (q : Socks5Proxy) (hq : Open q) : WriteOn
        (q.withReactor fun r => (r.addEvent q.mSocket evWRITE q.handler 0).2).reactor
        (q.withReactor fun r => (r.addEvent q.mSocket evWRITE q.handler 0).2).mSocket := by
      unfold withReactor
      rw [if_pos hq.reactor]
      exact EpollReactor.writeOn_addEvent hq.listens q.handler 0
    cases queue <;> exact hwrites _ ⟨hopen.alive, hopen.reactor, hopen.listens⟩
  · have hfront : data.take MAX_ENCRYPT_SIZE = data.take (data.length - r.origin.length) := by
      rw [htaken, List.take_eq_take_iff]
      omega
    rw [hfront]
    cases queue <;> exact congrArg (· ++ _) (trace_withReactor _ (push _ _ _))

-- There is nothing to encrypt, and nothing is queued.
theorem encryptAndQueue_nil (queue : ProxyQueue) (p : Socks5Proxy) :
    p.encryptAndQueue queue [] = (0, { p with draws := fun n => p.draws (n + 1) }) := by
  simp [encryptAndQueue, Cipher.encrypt]

theorem sends_encryptAndQueue (queue : ProxyQueue) (data : Bytes) (p : Socks5Proxy) :
    (p.encryptAndQueue queue data).2.sends = p.sends := by
  have hwith (f : EpollReactor → EpollReactor) (p : Socks5Proxy) :
      (p.withReactor f).sends = p.sends := by
    unfold withReactor
    split <;> rfl
  unfold encryptAndQueue
  simp only
  split
  · rfl
  · cases queue <;> exact hwith _ (push _ _ _)

theorem Queued.stocked {queue : ProxyQueue} {segment : Segment} (h : Queued queue segment p p')
    (hstocked : Stocked p) : Stocked p' := by
  obtain ⟨hsocks, hout, hcounted⟩ := hstocked
  cases queue with
  | socks5 kind =>
    have hsocks' : p'.mSocks5 = p.mSocks5 ++ [segment] := h.socks5
    have hout' : p'.mOutQueue = p.mOutQueue := h.outQueue
    refine ⟨hsocks' ▸ hsocks.snoc h.pos, hout' ▸ hout, ?_⟩
    rw [h.counted, hcounted, hsocks', hout', ← BitVec.ofNat_add, queuedBytes_append,
      queuedBytes_cons, queuedBytes_nil]
    congr 1
    omega
  | out =>
    have hsocks' : p'.mSocks5 = p.mSocks5 := h.socks5
    have hout' : p'.mOutQueue = p.mOutQueue ++ [segment] := h.outQueue
    refine ⟨hsocks' ▸ hsocks, hout' ▸ hout.snoc h.pos, ?_⟩
    rw [h.counted, hcounted, hsocks', hout', ← BitVec.ofNat_add, queuedBytes_append,
      queuedBytes_cons, queuedBytes_nil]
    congr 1
    omega

-- A proxy that may have queued one more message of the handshake.
structure Prepared (p p' : Socks5Proxy) : Prop where
  outlet : KeepsOutlet p p'
  alive : p'.mAlive = p.mAlive
  stocked : Stocked p → Stocked p'
  outQueue : p'.mOutQueue = p.mOutQueue
  le : queuedBytes p'.mSocks5 ≤ queuedBytes p.mSocks5 + MAX_PARCEL_SIZE
  writes : Open p → (p.mSocks5 ≠ [] → WriteOn p.reactor p.mSocket) → p'.mSocks5 ≠ [] →
    WriteOn p'.reactor p'.mSocket

theorem Prepared.of_quiet (hsame : SameStock p p') (hkeeps : KeepsOutlet p p') : Prepared p p' where
  outlet := hkeeps
  alive := hsame.alive
  stocked := hsame.stocked
  outQueue := hsame.outQueue
  le := by
    rw [hsame.socks5]
    exact Nat.le_add_right _ _
  writes hopen hasks hne := hkeeps.write hopen (hasks (hsame.socks5 ▸ hne))

theorem prepared_encryptAndQueue (kind : S5Message) (data : Bytes) (p : Socks5Proxy) :
    Prepared p (p.encryptAndQueue (.socks5 kind) data).2 := by
  by_cases hdata : data = []
  · rw [hdata, encryptAndQueue_nil]
    exact .of_quiet ⟨rfl, rfl, rfl, rfl, rfl⟩ (.of_eq rfl rfl rfl rfl rfl)
  · obtain ⟨-, segment, hqueued, -, -⟩ := p.encryptAndQueue_queued (.socks5 kind) hdata
    have hsocks : (p.encryptAndQueue (.socks5 kind) data).2.mSocks5 = p.mSocks5 ++ [segment] :=
      hqueued.socks5
    refine ⟨hqueued.outlet, hqueued.alive, hqueued.stocked, hqueued.outQueue, ?_,
      fun hopen _ _ => hqueued.writes hopen⟩
    have hle := hqueued.le
    rw [hsocks, queuedBytes_append, queuedBytes_cons, queuedBytes_nil]
    omega

/-! ## `sendQueue` -/

-- Every byte of the queue is either sent or still queued, and no segment is left empty.
theorem sendLoop_counts (fuel : Nat) {queue : List Segment} (h : Filled queue) (p : Socks5Proxy) :
    Filled (sendLoop fuel queue p).queue ∧
      (sendLoop fuel queue p).sent.length + queuedBytes (sendLoop fuel queue p).queue =
        queuedBytes queue := by
  induction fuel generalizing queue p with
  | zero => exact ⟨h, Nat.zero_add _⟩
  | succ fuel ih =>
    cases queue with
    | nil => exact ⟨h, rfl⟩
    | cons segment queue =>
      obtain ⟨hpos, hrest⟩ := List.forall_mem_cons.mp h
      rw [sendLoop]
      unfold send
      cases p.sends 0 with
      | error errno => exact ⟨h, Nat.zero_add _⟩
      | accepted n =>
        simp only
        have hle := Nat.min_le_right (max n 1) segment.size
        generalize min (max n 1) segment.size = s at hle ⊢
        have hsize := Segment.size_consume hle
        have hleft : Filled (if (segment.consume s).size ≤ 0 then queue
              else segment.consume s :: queue) ∧
            s + queuedBytes (if (segment.consume s).size ≤ 0 then queue
              else segment.consume s :: queue) = queuedBytes (segment :: queue) := by
          split
          · refine ⟨hrest, ?_⟩
            rw [queuedBytes_cons]
            omega
          · refine ⟨List.forall_mem_cons.mpr ⟨by omega, hrest⟩, ?_⟩
            rw [queuedBytes_cons, queuedBytes_cons]
            omega
        obtain ⟨hfilled, hcount⟩ := ih hleft.1 { p with sends := fun n => p.sends (n + 1) }
        refine ⟨hfilled, ?_⟩
        rw [List.length_append, List.length_take, Segment.length_readable]
        omega

theorem countSent_stock (sent : Bytes) (p : Socks5Proxy) :
    (p.countSent sent).mAlive = p.mAlive ∧ (p.countSent sent).mSocks5 = p.mSocks5 ∧
      (p.countSent sent).mOutQueue = p.mOutQueue ∧
      (p.countSent sent).mBufferedSize = p.mBufferedSize - BitVec.ofNat 32 sent.length := by
  unfold countSent
  split
  · exact ⟨rfl, rfl, rfl, rfl⟩
  · next hnothing =>
    obtain ⟨halive, -, hsocks, hout, hsize⟩ := closeWrite_stock p
    have hzero : sent.length = 0 := by omega
    refine ⟨halive, hsocks, hout, hsize.trans ?_⟩
    rw [hzero]
    exact (BitVec.sub_zero _).symm

-- The end of `sendQueue` takes what has been sent off the count.
theorem countSent_stocked {sent : Bytes} (hsocks : Filled p.mSocks5) (hout : Filled p.mOutQueue)
    (hcounted : p.mBufferedSize = BitVec.ofNat 32
      (queuedBytes p.mSocks5 + queuedBytes p.mOutQueue + sent.length)) :
    Stocked (p.countSent sent) := by
  obtain ⟨-, hsocks', hout', hsize⟩ := countSent_stock sent p
  refine ⟨?_, ?_, ?_⟩
  · rw [hsocks']
    exact hsocks
  · rw [hout']
    exact hout
  · rw [hsize, hsocks', hout', hcounted, BitVec.ofNat_add, BitVec.add_sub_cancel]

structure SentFrom (p : Socks5Proxy) (queue left : List Segment) : Prop where
  le : queuedBytes left ≤ queuedBytes queue
  refused : Refused queue p.sends → queuedBytes left = queuedBytes queue

theorem sendLoop_sentFrom {queue : List Segment} (h : Filled queue) (p : Socks5Proxy) :
    SentFrom p queue (sendLoop (sendFuel queue) queue p).queue := by
  have hfuel : queue.length ≤ sendFuel queue := Nat.le_add_left _ _
  have hcount := (sendLoop_counts (sendFuel queue) h p).2
  refine ⟨by omega, fun hrefused => ?_⟩
  have hnothing := congrArg List.length ((sendLoop_nothing_iff hfuel).mpr hrefused)
  rw [List.length_nil] at hnothing
  omega

theorem mAlive_sendSocks5 (p : Socks5Proxy) : p.sendSocks5.mAlive = p.mAlive := by
  obtain ⟨sends, hproxy⟩ := sendLoop_proxy (sendFuel p.mSocks5) p.mSocks5 p
  unfold sendSocks5
  simp only [hproxy]
  exact (countSent_stock _ _).1

theorem mAlive_sendOut (p : Socks5Proxy) : p.sendOut.mAlive = p.mAlive := by
  obtain ⟨sends, hproxy⟩ := sendLoop_proxy (sendFuel p.mOutQueue) p.mOutQueue p
  unfold sendOut
  simp only [hproxy]
  exact (countSent_stock _ _).1

-- `sendQueue(mSocks5)`
theorem sendSocks5_stocked (h : Stocked p) :
    Stocked p.sendSocks5 ∧ p.sendSocks5.mOutQueue = p.mOutQueue ∧
      SentFrom p p.mSocks5 p.sendSocks5.mSocks5 := by
  obtain ⟨hfilled, hcount⟩ := sendLoop_counts (sendFuel p.mSocks5) h.socks5 p
  have hsent := sendLoop_sentFrom h.socks5 p
  obtain ⟨sends, hproxy⟩ := sendLoop_proxy (sendFuel p.mSocks5) p.mSocks5 p
  unfold sendSocks5
  simp only [hproxy]
  generalize sendLoop (sendFuel p.mSocks5) p.mSocks5 p = r at hfilled hcount hsent ⊢
  obtain ⟨-, hsocks, hout, -⟩ := countSent_stock r.sent
    (.emit (.wrote r.sent) { p with sends := sends, mSocks5 := r.queue })
  rw [hsocks, hout]
  refine ⟨countSent_stocked hfilled h.outQueue ?_, rfl, hsent⟩
  show p.mBufferedSize = BitVec.ofNat 32 (queuedBytes r.queue + queuedBytes p.mOutQueue + _)
  rw [h.counted]
  congr 1
  omega

-- `sendQueue(mOutQueue)`
theorem sendOut_stocked (h : Stocked p) :
    Stocked p.sendOut ∧ p.sendOut.mSocks5 = p.mSocks5 ∧
      SentFrom p p.mOutQueue p.sendOut.mOutQueue := by
  obtain ⟨hfilled, hcount⟩ := sendLoop_counts (sendFuel p.mOutQueue) h.outQueue p
  have hsent := sendLoop_sentFrom h.outQueue p
  obtain ⟨sends, hproxy⟩ := sendLoop_proxy (sendFuel p.mOutQueue) p.mOutQueue p
  unfold sendOut
  simp only [hproxy]
  generalize sendLoop (sendFuel p.mOutQueue) p.mOutQueue p = r at hfilled hcount hsent ⊢
  obtain ⟨-, hsocks, hout, -⟩ := countSent_stock r.sent
    (.emit (.wrote r.sent) { p with sends := sends, mOutQueue := r.queue })
  rw [hsocks, hout]
  refine ⟨countSent_stocked h.socks5 hfilled ?_, rfl, hsent⟩
  show p.mBufferedSize = BitVec.ofNat 32 (queuedBytes p.mSocks5 + queuedBytes r.queue + _)
  rw [h.counted]
  congr 1
  omega

end Socks5Proxy

end NetCore
