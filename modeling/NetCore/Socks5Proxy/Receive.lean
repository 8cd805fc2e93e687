import NetCore.Cipher.RoundTrip
import NetCore.Socks5Proxy

/-!
# What the proxy makes of a stream of parcels

`onReadable` collects what it reads and decrypts a window of it, as long as this gives something.
No parcel is longer than the window, so what stays in the buffer is shorter than a parcel, and
while payload is passed on the client gets the messages however the stream is cut.
-/

namespace NetCore

open Cipher

namespace Socks5Proxy

-- What a call of a client leaves in the trace.
def ClientPoint : ProxyPoint → Prop
  | .queued .out _ => True
  | _ => False

-- What no call of a client changes; and the settings are not its own.
structure Kept (p p' : Socks5Proxy) : Prop where
  state : p'.mS5State = p.mS5State
  buffer : p'.mDecryptBuffer = p.mDecryptBuffer
  settings : p'.settings = p.settings
  trace : ∃ points, p'.trace = p.trace ++ points ∧ ∀ point ∈ points, ClientPoint point

namespace Kept

theorem of_trace {p p' : Socks5Proxy} (state : p'.mS5State = p.mS5State)
    (buffer : p'.mDecryptBuffer = p.mDecryptBuffer) (settings : p'.settings = p.settings)
    (trace : p'.trace = p.trace) : Kept p p' :=
  ⟨state, buffer, settings, [], trace.trans (List.append_nil _).symm, by simp⟩

theorem refl (p : Socks5Proxy) : Kept p p := .of_trace rfl rfl rfl rfl

theorem trans {p p' p'' : Socks5Proxy} (h : Kept p p') (h' : Kept p' p'') : Kept p p'' where
  state := h'.state.trans h.state
  buffer := h'.buffer.trans h.buffer
  settings := h'.settings.trans h.settings
  trace := by
    obtain ⟨points, htrace, hpoints⟩ := h.trace
    obtain ⟨points', htrace', hpoints'⟩ := h'.trace
    refine ⟨points ++ points', ?_, List.forall_mem_append.mpr ⟨hpoints, hpoints'⟩⟩
    rw [htrace', htrace, List.append_assoc]

theorem delivered {p p' : Socks5Proxy} (h : Kept p p') : p'.delivered = p.delivered := by
  obtain ⟨points, htrace, hpoints⟩ := h.trace
  have hnone : points.flatMap ProxyPoint.passedBack = [] := by
    rw [List.flatMap_eq_nil_iff]
    intro point hpoint
    have hclient := hpoints point hpoint
    cases point <;> first | rfl | cases hclient
  unfold Socks5Proxy.delivered
  rw [htrace, List.flatMap_append, hnone, List.append_nil]

end Kept

theorem delivered_emit (point : ProxyPoint) (p : Socks5Proxy) :
    (p.emit point).delivered = p.delivered ++ point.passedBack := by
  unfold delivered emit
  rw [List.flatMap_append, List.flatMap_singleton]

theorem kept_withReactor (f : EpollReactor → EpollReactor) (p : Socks5Proxy) :
    Kept p (p.withReactor f) := by
  unfold withReactor
  split <;> exact .of_trace rfl rfl rfl rfl

theorem kept_whileTrans (f : EpollReactor → EpollReactor) (p : Socks5Proxy) :
    Kept p (p.whileTrans f) := by
  unfold whileTrans
  split
  · exact kept_withReactor f p
  · exact .refl p

theorem kept_destroyTunnel (p : Socks5Proxy) : Kept p p.destroyTunnel := by
  have hclosed : Kept p (if 0 ≤ p.mSocket then
      p.withReactor fun r => (r.delEvent p.mSocket evALL).2 else p) := by
    split
    · exact kept_withReactor _ p
    · exact .refl p
  exact hclosed.trans (.of_trace rfl rfl rfl rfl)

-- The proxy behind the part of `encryptAndQueue` that no trace point tells of.
theorem kept_push (segment : Segment) (p : Socks5Proxy) (queue : ProxyQueue) :
    Kept p (p.push segment queue) := by
  cases queue <;> exact .of_trace rfl rfl rfl rfl

-- `encryptAndQueue` queues what it takes, if it takes anything.
theorem encryptAndQueue_cases (queue : ProxyQueue) (data : Bytes) (p : Socks5Proxy) :
    ((p.encryptAndQueue queue data).1 = 0 ∧ Kept p (p.encryptAndQueue queue data).2) ∨
      ∃ p' taken, Kept p p' ∧ (p.encryptAndQueue queue data).2 = p'.emit (.queued queue taken) := by
  have hdrawn (c : Cipher) (draws : Nat → Draws) : Kept p { p with cipher := c, draws := draws } :=
    .of_trace rfl rfl rfl rfl
  have hcounted (p : Socks5Proxy) (n : U32) : Kept p { p with mBufferedSize := n } :=
    .of_trace rfl rfl rfl rfl
  unfold encryptAndQueue
  simp only
  split
  · exact .inl ⟨rfl, hdrawn _ _⟩
  · exact .inr ⟨_, _, (((hdrawn _ _).trans (kept_push _ _ _)).trans (kept_withReactor _ _)).trans
      (hcounted _ _), rfl⟩

theorem kept_queue_out (data : Bytes) (p : Socks5Proxy) : Kept p (p.encryptAndQueue .out data).2 := by
  rcases encryptAndQueue_cases .out data p with ⟨-, hkept⟩ | ⟨p', taken, hkept, heq⟩
  · exact hkept
  · rw [heq]
    exact hkept.trans ⟨rfl, rfl, rfl, [.queued .out taken], rfl,
      List.forall_mem_singleton.mpr trivial⟩

theorem kept_sendData {p p' : Socks5Proxy} {data : Bytes} {more : Bool} {s : Nat}
    (h : p.sendData data more = .sent s p') : Kept p p' := by
  unfold sendData at h
  split at h
  · cases h
    exact .refl p
  · split at h
    · cases h
      exact .refl p
    · cases h
      exact kept_queue_out data p

theorem sendData_ne_failed {p p' : Socks5Proxy} {data : Bytes} {more : Bool} {reason : U8} :
    p.sendData data more ≠ .failed reason p' := by
  unfold sendData
  split
  · simp
  · split <;> simp

-- A client cannot touch the buffer, and it cannot make a state of its own.
theorem kept_of_calls {p p' : Socks5Proxy} (h : ITunnel.Calls p p') : Kept p p' := by
  induction h with
  | refl => exact .refl p
  | keepAlive _ ih => exact ih
  | requestSendData _ ih => exact ih.trans (kept_whileTrans _ _)
  | sent _ hsent ih => exact ih.trans (kept_sendData hsent)
  | failed _ hfailed _ => exact absurd hfailed sendData_ne_failed
  | pauseSendData _ ih => exact ih.trans (kept_whileTrans _ _)
  | pauseReceiveData _ ih => exact ih.trans (kept_whileTrans _ _)
  | resumeReceiveData _ ih => exact ih.trans (kept_whileTrans _ _)
  | destroyTunnel _ ih => exact ih.trans (kept_destroyTunnel _)

end Socks5Proxy

/-- A message of one parcel and a parcel made of it. -/
structure Sealed where
  message : Bytes
  wire : Bytes
  encrypts : Encrypts message wire
  message_le : message.length ≤ MAX_ENCRYPT_SIZE

namespace Sealed

def messages (parcels : List Sealed) : Bytes := parcels.flatMap message

def stream (parcels : List Sealed) : Bytes := parcels.flatMap wire

theorem messages_cons (x : Sealed) (parcels : List Sealed) :
    messages (x :: parcels) = x.message ++ messages parcels := rfl

theorem stream_cons (x : Sealed) (parcels : List Sealed) :
    stream (x :: parcels) = x.wire ++ stream parcels := rfl

theorem messages_append (ys zs : List Sealed) :
    messages (ys ++ zs) = messages ys ++ messages zs := List.flatMap_append

theorem stream_append (ys zs : List Sealed) : stream (ys ++ zs) = stream ys ++ stream zs :=
  List.flatMap_append

theorem message_ne_nil (x : Sealed) : x.message ≠ [] := by
  obtain ⟨draws, size, c, hout, hne⟩ := x.encrypts
  rw [← hout] at hne
  exact (encrypt_eq hne).1

theorem messages_eq_nil {parcels : List Sealed} (h : messages parcels = []) : parcels = [] := by
  cases parcels with
  | nil => rfl
  | cons x parcels => exact absurd (List.append_eq_nil_iff.mp h).1 x.message_ne_nil

theorem wire_pos (x : Sealed) : 0 < x.wire.length := by
  obtain ⟨draws, size, c, hout, hne⟩ := x.encrypts
  exact List.length_pos_iff.mpr hne

theorem stream_pos {parcels : List Sealed} (h : parcels ≠ []) : 0 < (stream parcels).length := by
  obtain ⟨x, rest, rfl⟩ := List.exists_cons_of_ne_nil h
  have hpos := x.wire_pos
  rw [stream_cons, List.length_append]
  omega

theorem wire_le (x : Sealed) : x.wire.length ≤ SOCKS5_SHARE_BUFFER_SZ := x.encrypts.length_le

-- The parcels that end within the first `n` bytes.
theorem split (parcels : List Sealed) (n : Nat) :
    ∃ ys zs, parcels = ys ++ zs ∧ (stream ys).length ≤ n ∧
      ∀ z ∈ zs.head?, n < (stream ys).length + z.wire.length := by
  induction parcels generalizing n with
  | nil => exact ⟨[], [], rfl, Nat.zero_le n, by simp⟩
  | cons x parcels ih =>
    by_cases hx : x.wire.length ≤ n
    · obtain ⟨ys, zs, rfl, hle, hlt⟩ := ih (n - x.wire.length)
      refine ⟨x :: ys, zs, rfl, ?_, fun z hz => ?_⟩
      · rw [stream_cons, List.length_append]
        omega
      · have hz := hlt z hz
        rw [stream_cons, List.length_append]
        omega
    · refine ⟨[], x :: parcels, rfl, Nat.zero_le n, fun z hz => ?_⟩
      cases hz
      show n < 0 + x.wire.length
      omega

-- What reading parcels and a part of the next one comes to.
theorem readParcels_stream {ys zs : List Sealed} {n : Nat}
    (h : ∀ z ∈ zs.head?, n < z.wire.length) :
    readParcels (stream ys ++ (stream zs).take n) = .returned (messages ys) ((stream zs).take n) := by
  have hnone : parcel ((stream zs).take n) = none := by
    cases zs with
    | nil =>
      rw [show stream [] = [] from rfl, List.take_nil]
      rfl
    | cons z zs =>
      have hlt := h z rfl
      obtain ⟨content, hframe, -⟩ := z.encrypts.isFrame
      rw [stream_cons, List.take_append_of_le_length (Nat.le_of_lt hlt)]
      refine parcel_framing.next_prefix hframe (List.take_prefix n z.wire) fun heq => ?_
      have hlen := congrArg List.length heq
      rw [List.length_take] at hlen
      omega
  have hall : List.Forall₂ (fun m x => m.length ≤ MAX_ENCRYPT_SIZE ∧ Encrypts m x)
      (ys.map message) (ys.map wire) := by
    rw [List.forall₂_map_left_iff, List.forall₂_map_right_iff, List.forall₂_same]
    exact fun y _ => ⟨y.message_le, y.encrypts⟩
  have hread := readLoop_parcels hall hnone (Nat.lt_succ_self _) []
  rw [List.nil_append] at hread
  exact hread

end Sealed

namespace Served

open Socks5Proxy

variable {γ : Type}

-- The state of the proxy, the bytes it has buffered and those it has passed back.
structure Stands (w : Served γ) (state : S5State) (buffered passed : Bytes) : Prop where
  state : w.proxy.mS5State = state
  buffered : w.proxy.mDecryptBuffer.val.readable = buffered
  passed : w.proxy.delivered = passed

theorem Stands.of_kept {w w' : Served γ} {state : S5State} {b d : Bytes} (h : w.Stands state b d)
    (hkept : Kept w.proxy w'.proxy) : w'.Stands state b d where
  state := hkept.state.trans h.state
  buffered := (congrArg (fun buffer => buffer.val.readable) hkept.buffer).trans h.buffered
  passed := hkept.delivered.trans h.passed

theorem Stands.handled {w : Served γ} {state : S5State} {b d : Bytes} (data : Bytes)
    (h : w.Stands state b d) : (w.onProxy (.emit (.handled data))).Stands state b d :=
  ⟨h.state, h.buffered, (delivered_emit _ _).trans ((List.append_nil _).trans h.passed)⟩

-- Only the buffer and the cipher may differ.
def Unmoved (w w' : Served γ) : Prop :=
  ∃ cipher buffer, w' = w.onProxy fun p => { p with cipher := cipher, mDecryptBuffer := buffer }

theorem Unmoved.trans {w w' w'' : Served γ} (h : Unmoved w w') (h' : Unmoved w' w'') :
    Unmoved w w'' := by
  obtain ⟨c, b, rfl⟩ := h
  obtain ⟨c', b', rfl⟩ := h'
  exact ⟨c', b', rfl⟩

theorem Unmoved.trace {w w' : Served γ} (h : Unmoved w w') : w'.proxy.trace = w.proxy.trace := by
  obtain ⟨c, b, rfl⟩ := h
  rfl

theorem Unmoved.settings {w w' : Served γ} (h : Unmoved w w') :
    w'.proxy.settings = w.proxy.settings := by
  obtain ⟨c, b, rfl⟩ := h
  rfl

theorem window_eq (buffered : Bytes) :
    (if SOCKS5_SHARE_BUFFER_SZ < buffered.length then SOCKS5_SHARE_BUFFER_SZ
      else buffered.length) = min SOCKS5_SHARE_BUFFER_SZ buffered.length := by
  split <;> omega

variable [ITunnelClient γ Socks5Proxy]

-- Payload goes to the client as it comes.
theorem handle_trans {w : Served γ} {b d : Bytes} (data : Bytes) (h : w.Stands .trans b d) :
    (w.handle data).Stands .trans b (d ++ data) := by
  have hhandled := h.handled data
  have hnoted (n : U32) (p : Socks5Proxy) :
      (emit (.dataBack data) { p with mPayloadDataBack := n }).delivered = p.delivered ++ data :=
    delivered_emit _ _
  unfold handle
  simp only
  rw [hhandled.state]
  refine Stands.of_kept (w := (w.onProxy (.emit (.handled data))).onProxy fun p =>
    .emit (.dataBack data)
      { p with mPayloadDataBack := p.mPayloadDataBack + BitVec.ofNat 32 data.length })
    ⟨hhandled.state, hhandled.buffered, (hnoted _ _).trans (congrArg (· ++ data) hhandled.passed)⟩ ?_
  exact kept_of_calls (ITunnelClient.dataBack_calls data _ _)

-- One round of the loop on what the window reads: nothing ends it, and anything is taken off and
-- handled.
theorem receiveLoop_round {w : Served γ} {state : S5State} {b d out rest : Bytes} (fuel : Nat)
    (h : w.Stands state b d)
    (hread : readParcels (b.take SOCKS5_SHARE_BUFFER_SZ) = .returned out rest) :
    ∃ w' : Served γ, w'.Stands state
        (if out = [] then b else b.drop ((b.take SOCKS5_SHARE_BUFFER_SZ).length - rest.length)) d ∧
      Unmoved w w' ∧ receiveLoop (fuel + 1) w =
        if out = [] then some w' else receiveLoop fuel (w'.handle out) := by
  have hshare : SOCKS5_SHARE_BUFFER_SZ = 8192 := rfl
  have hwindow : b.take (min SOCKS5_SHARE_BUFFER_SZ b.length) = b.take SOCKS5_SHARE_BUFFER_SZ :=
    List.take_eq_take_min.symm
  have hshort := (readLoop_length hread).1
  have hfits : (b.take SOCKS5_SHARE_BUFFER_SZ).length ≤
      (BitVec.ofNat 32 SOCKS5_SHARE_BUFFER_SZ).toNat := by
    rw [List.length_take, BitVec.toNat_ofNat]
    omega
  obtain ⟨hstop, hout, hrest⟩ := (decrypt_spec hfits w.proxy.cipher).returned _ _ hread
  have hstays (c : Cipher) : (w.onProxy fun p => { p with cipher := c }).Stands state b d :=
    ⟨h.state, h.buffered, h.passed⟩
  rw [List.length_take, List.length_nil] at hshort
  rw [receiveLoop]
  unfold decryptBuffered
  simp only
  rw [h.buffered, window_eq, hwindow, hstop, hout, hrest]
  generalize (decrypt (b.take SOCKS5_SHARE_BUFFER_SZ) (BitVec.ofNat 32 SOCKS5_SHARE_BUFFER_SZ)
    w.proxy.cipher).cipher = c
  by_cases hnothing : out = []
  · subst hnothing
    exact ⟨_, hstays c, ⟨c, _, rfl⟩, rfl⟩
  · have hpos := List.length_pos_iff.mpr hnothing
    have hnat : (BitVec.ofNat 32 out.length).toNat = out.length := by
      rw [BitVec.toNat_ofNat]
      omega
    have hint := BitVec.toInt_eq_toNat_of_lt
      (show 2 * (BitVec.ofNat 32 out.length).toNat < 2 ^ 32 by omega)
    have hsize : (b.take SOCKS5_SHARE_BUFFER_SZ).length - rest.length ≤
        w.proxy.mDecryptBuffer.val.size := by
      rw [← Segment.length_readable, h.buffered, List.length_take]
      omega
    refine ⟨w.onProxy fun p =>
      { p with
        cipher := c
        mDecryptBuffer := p.mDecryptBuffer.consume
          ((b.take SOCKS5_SHARE_BUFFER_SZ).length - rest.length) }, ?_, ⟨c, _, rfl⟩, ?_⟩
    · rw [if_neg hnothing]
      exact ⟨h.state, (Segment.readable_consume hsize).trans (congrArg _ h.buffered), h.passed⟩
    · simp only
      rw [if_neg hnothing, if_neg (by omega), List.length_take]
      rfl

-- One round of the loop: the parcels that end in the window are taken off.
theorem receiveLoop_step {w : Served γ} {state : S5State} {b d later : Bytes}
    {parcels : List Sealed} (fuel : Nat) (h : w.Stands state b d)
    (hstream : b ++ later = Sealed.stream parcels) :
    ∃ ys zs, parcels = ys ++ zs ∧
      (Sealed.stream ys).length ≤ min SOCKS5_SHARE_BUFFER_SZ b.length ∧
      (∀ z ∈ zs.head?,
        min SOCKS5_SHARE_BUFFER_SZ b.length < (Sealed.stream ys).length + z.wire.length) ∧
      ∃ w' : Served γ, w'.Stands state (b.drop (Sealed.stream ys).length) d ∧
        Unmoved w w' ∧ receiveLoop (fuel + 1) w =
          if ys = [] then some w' else receiveLoop fuel (w'.handle (Sealed.messages ys)) := by
  obtain ⟨ys, zs, rfl, hle, hlt⟩ := Sealed.split parcels (min SOCKS5_SHARE_BUFFER_SZ b.length)
  refine ⟨ys, zs, rfl, hle, hlt, ?_⟩
  have hshare : SOCKS5_SHARE_BUFFER_SZ = 8192 := rfl
  obtain ⟨n, hn⟩ : ∃ n, n = min SOCKS5_SHARE_BUFFER_SZ b.length := ⟨_, rfl⟩
  rw [← hn] at hle hlt
  -- the window holds whole parcels and a part of the next one
  have hwindow : b.take n = Sealed.stream ys ++
      (Sealed.stream zs).take (n - (Sealed.stream ys).length) := by
    have htake : (b ++ later).take n = b.take n := List.take_append_of_le_length (by omega)
    rw [← htake, hstream,
      Sealed.stream_append, List.take_append, List.take_of_length_le hle]
  have hread : readParcels (b.take n) = .returned (Sealed.messages ys)
      ((Sealed.stream zs).take (n - (Sealed.stream ys).length)) := by
    rw [hwindow]
    refine Sealed.readParcels_stream fun z hz => ?_
    have hz := hlt z hz
    omega
  have hrestLen : ((Sealed.stream zs).take (n - (Sealed.stream ys).length)).length =
      n - (Sealed.stream ys).length := by
    have hlen := congrArg List.length hwindow
    rw [List.length_append, List.length_take] at hlen
    omega
  have hwhole : b.take SOCKS5_SHARE_BUFFER_SZ = b.take n := by rw [hn, ← List.take_eq_take_min]
  rw [← hwhole] at hread
  obtain ⟨w', hstands, hunmoved, hloop⟩ := receiveLoop_round fuel h hread
  by_cases hys : ys = []
  · subst hys
    have hnothing : Sealed.messages [] = [] := rfl
    rw [if_pos hnothing] at hstands hloop
    exact ⟨w', hstands, hunmoved, hloop⟩
  · have hmessages : Sealed.messages ys ≠ [] := mt Sealed.messages_eq_nil hys
    have hconsumed : (b.take SOCKS5_SHARE_BUFFER_SZ).length -
        ((Sealed.stream zs).take (n - (Sealed.stream ys).length)).length =
        (Sealed.stream ys).length := by
      rw [hrestLen, List.length_take]
      omega
    rw [if_neg hmessages] at hloop
    rw [if_neg hmessages, hconsumed] at hstands
    exact ⟨w', hstands, hunmoved, hloop.trans (if_neg hys).symm⟩

omit [ITunnelClient γ Socks5Proxy] in
-- Behind the parcels taken off.
theorem drop_stream {b later : Bytes} {ys zs : List Sealed}
    (hstream : b ++ later = Sealed.stream (ys ++ zs)) (hle : (Sealed.stream ys).length ≤ b.length) :
    b.drop (Sealed.stream ys).length ++ later = Sealed.stream zs := by
  rw [← List.drop_append_of_le_length hle, hstream, Sealed.stream_append, List.drop_left]

-- While payload is passed on, the loop takes off every complete parcel.
theorem receiveLoop_trans {w : Served γ} {b d later : Bytes} {parcels : List Sealed} {fuel : Nat}
    (h : w.Stands .trans b d) (hstream : b ++ later = Sealed.stream parcels)
    (hfuel : b.length < fuel) :
    ∃ ys zs w', parcels = ys ++ zs ∧ receiveLoop fuel w = some w' ∧
      (Sealed.stream ys).length ≤ b.length ∧
      w'.Stands .trans (b.drop (Sealed.stream ys).length) (d ++ Sealed.messages ys) ∧
      ∀ z ∈ zs.head?, b.length < (Sealed.stream ys).length + z.wire.length := by
  induction fuel generalizing w b d parcels with
  | zero => omega
  | succ fuel ih =>
    obtain ⟨ys, zs, rfl, hle, hlt, w', hstands, -, hloop⟩ := receiveLoop_step fuel h hstream
    by_cases hys : ys = []
    · subst hys
      rw [if_pos rfl] at hloop
      refine ⟨[], zs, w', rfl, hloop, Nat.zero_le _, ?_, fun z hz => ?_⟩
      · rw [show Sealed.messages [] = [] from rfl, List.append_nil]
        exact hstands
      · -- the window was not too small: a parcel fits into it
        have hwindow := hlt z hz
        have hwire := z.wire_le
        have hnone : (Sealed.stream []).length = 0 := rfl
        omega
    · rw [if_neg hys] at hloop
      have hpos := Sealed.stream_pos hys
      have hrest := drop_stream hstream (show _ ≤ b.length by omega)
      obtain ⟨ys', zs, last, rfl, hlast, hle', hstands', hlt'⟩ :=
        ih (handle_trans (Sealed.messages ys) hstands) hrest (by rw [List.length_drop]; omega)
      rw [List.length_drop] at hle' hlt'
      rw [List.drop_drop, List.append_assoc, ← Sealed.messages_append] at hstands'
      refine ⟨ys ++ ys', zs, last, (List.append_assoc _ _ _).symm, hloop.trans hlast, ?_, ?_, ?_⟩
      · rw [Sealed.stream_append, List.length_append]
        omega
      · rw [Sealed.stream_append, List.length_append]
        exact hstands'
      · intro z hz
        have hz := hlt' z hz
        rw [Sealed.stream_append, List.length_append]
        omega

-- The `decrypt buffer overflow` branch of `onReadable`.
def Overflows (w : Served γ) (chunk : Bytes) : Prop :=
  (w.noteConnected.onProxy (makeRoom chunk.length)).proxy.mDecryptBuffer.val.remain < chunk.length

theorem noteConnected_kept (w : Served γ) : Kept w.proxy w.noteConnected.proxy := by
  unfold Served.noteConnected
  split
  · exact .refl _
  · exact .of_trace rfl rfl rfl rfl

-- Less than a parcel and a whole read always fit.
theorem not_overflows {w : Served γ} {state : S5State} {b d chunk : Bytes} (h : w.Stands state b d)
    (hb : b.length ≤ SOCKS5_SHARE_BUFFER_SZ) (hchunk : chunk.length ≤ SOCKS5_SHARE_BUFFER_SZ) :
    (w.noteConnected.onProxy (makeRoom chunk.length)).Stands state b d ∧
      Unmoved w.noteConnected (w.noteConnected.onProxy (makeRoom chunk.length)) ∧
      ¬ w.Overflows chunk := by
  obtain ⟨hstate, hbuffered, hpassed⟩ := h.of_kept (noteConnected_kept w)
  unfold Overflows onProxy makeRoom
  simp only
  split
  next hfull =>
    refine ⟨⟨hstate, (Segment.readable_flip _).trans hbuffered, hpassed⟩, ⟨_, _, rfl⟩, ?_⟩
    have hremain := w.noteConnected.proxy.mDecryptBuffer.val.remain_flip
    have hcapacity := w.noteConnected.proxy.mDecryptBuffer.property
    have hsize := w.noteConnected.proxy.mDecryptBuffer.val.length_readable
    have hparcel : SOCKS5_SHARE_BUFFER_SZ = 8192 := rfl
    have htotal : MAX_PARCEL_SIZE <<< 2 = 32768 := rfl
    rw [hbuffered] at hsize
    show ¬ w.noteConnected.proxy.mDecryptBuffer.val.flip.remain < chunk.length
    omega
  next hfits => exact ⟨⟨hstate, hbuffered, hpassed⟩, ⟨_, _, rfl⟩, hfits⟩

-- What is read is buffered behind what is there, and the loop runs.
theorem onReadable_received {w : Served γ} {state : S5State} {b d chunk : Bytes}
    (h : w.Stands state b d) (hb : b.length ≤ SOCKS5_SHARE_BUFFER_SZ) (hne : chunk ≠ [])
    (hchunk : chunk.length ≤ SOCKS5_SHARE_BUFFER_SZ) :
    ∃ w' : Served γ, w'.Stands state (b ++ chunk) d ∧ Unmoved w.noteConnected w' ∧
      readChunk w chunk = receiveLoop ((b ++ chunk).length + 1) w' := by
  obtain ⟨⟨hstate, hbuffered, hpassed⟩, hunmoved, hroom⟩ := not_overflows h hb hchunk
  have hwritten := (Segment.readable_write_of_le (Nat.le_of_not_lt hroom)).trans
    (congrArg (· ++ chunk) hbuffered)
  have hsize := congrArg List.length hwritten
  rw [Segment.length_readable] at hsize
  refine ⟨(w.noteConnected.onProxy (makeRoom chunk.length)).buffer chunk,
    ⟨hstate, hwritten, hpassed⟩, hunmoved.trans ⟨_, _, rfl⟩, ?_⟩
  rw [readChunk, onReadable, if_neg hne]
  simp only
  unfold Overflows at hroom
  rw [if_neg hroom, ← hsize]
  rfl

omit [ITunnelClient γ Socks5Proxy] in
-- A message of the handshake passes nothing back and leaves the buffer alone.
theorem Stands.sendS5 {w : Served γ} {state : S5State} {b d : Bytes} (h : w.Stands state b d)
    (kind : S5Message) (data : Bytes) :
    (w.sendS5 kind data).2.Stands state b d ∧
      (w.sendS5 kind data).2.proxy.settings = w.proxy.settings := by
  show Stands ⟨w.mClient, (w.proxy.encryptAndQueue (.socks5 kind) data).2⟩ state b d ∧
    (w.proxy.encryptAndQueue (.socks5 kind) data).2.settings = _
  rcases encryptAndQueue_cases (.socks5 kind) data w.proxy with ⟨-, hkept⟩ | ⟨p, taken, hkept, heq⟩
  · exact ⟨h.of_kept hkept, hkept.settings⟩
  · have hstands : Stands ⟨w.mClient, p⟩ state b d := h.of_kept hkept
    rw [heq]
    refine ⟨⟨hstands.state, hstands.buffered, ?_⟩, hkept.settings⟩
    exact (delivered_emit _ _).trans ((List.append_nil _).trans hstands.passed)

-- The states of the handshake are entered without the client.
theorem Stands.enter {w : Served γ} {old state : S5State} {b d : Bytes} (h : w.Stands old b d)
    (hstate : state = .greet ∨ state = .verify ∨ state = .connect) (hne : old ≠ state) :
    (w.switchS5State state).Stands state b d ∧
      (w.switchS5State state) = w.onProxy fun p =>
        .emit (.switched old state) { p with mS5State := state } := by
  have hswitch : w.switchS5State state = w.onProxy fun p =>
      .emit (.switched old state) { p with mS5State := state } := by
    unfold switchS5State
    rw [h.state, if_neg hne]
    rcases hstate with rfl | rfl | rfl <;> simp only [onProxy, h.state]
  rw [hswitch]
  refine ⟨⟨rfl, h.buffered, ?_⟩, rfl⟩
  exact (delivered_emit _ _).trans ((List.append_nil _).trans h.passed)

-- A read of one parcel, outside `S_TRANS`: its message is handled, and nothing is left.
theorem onReadable_sealed {w : Served γ} {state : S5State} {d : Bytes} (x : Sealed)
    (h : w.Stands state [] d)
    (hhandle : ∀ w' : Served γ, Unmoved w.noteConnected w' → w'.Stands state [] d →
      ∃ state' d', (w'.handle x.message).Stands state' [] d') :
    ∃ w₁ w₂ : Served γ, Unmoved w.noteConnected w₁ ∧ w₁.Stands state [] d ∧
      Unmoved (w₁.handle x.message) w₂ ∧
      (∀ state' d', (w₁.handle x.message).Stands state' [] d' → w₂.Stands state' [] d') ∧
      w.onReadable (.received x.wire) = some w₂ := by
  obtain ⟨w₀, hread, hunmoved, hloop⟩ := onReadable_received h (Nat.zero_le _)
    (List.ne_nil_of_length_pos x.wire_pos) x.wire_le
  have hstream : ([] ++ x.wire) ++ [] = Sealed.stream [x] := by simp [Sealed.stream]
  obtain ⟨ys, zs, hsplit, -, hlt, w₁, hfront, hunmoved', hround⟩ :=
    receiveLoop_step ([] ++ x.wire).length hread hstream
  have hwhole : ys = [x] := by
    cases ys with
    | nil =>
      cases hsplit
      have hx := hlt x rfl
      have hle := x.wire_le
      have hnone : (Sealed.stream []).length = 0 := rfl
      rw [List.nil_append] at hx
      omega
    | cons y ys =>
      rw [List.cons_append, List.cons_eq_cons] at hsplit
      obtain ⟨rfl, hnil⟩ := hsplit
      rw [(List.append_eq_nil_iff.mp hnil.symm).1]
  subst hwhole
  have hmessages : Sealed.messages [x] = x.message := List.append_nil _
  have hdrop : ([] ++ x.wire).drop (Sealed.stream [x]).length = [] := by simp [Sealed.stream]
  rw [if_neg (by simp), hmessages] at hround
  rw [hdrop] at hfront
  obtain ⟨state', d', hafter⟩ := hhandle w₁ (hunmoved.trans hunmoved') hfront
  -- the round behind it finds nothing
  obtain ⟨n, hn⟩ := Nat.exists_eq_succ_of_ne_zero (Nat.ne_of_gt x.wire_pos)
  obtain ⟨ys', zs', hsplit', -, -, w₂, hempty, hunmoved'', hend⟩ :=
    receiveLoop_step n hafter (show [] ++ [] = Sealed.stream [] from rfl)
  have hnil : ys' = [] := (List.append_eq_nil_iff.mp hsplit'.symm).1
  rw [hnil, if_pos rfl] at hend
  rw [List.nil_append, hn, Nat.succ_eq_add_one, hend] at hround
  rw [List.nil_append, hn] at hloop
  refine ⟨w₁, w₂, hunmoved.trans hunmoved', hfront, hunmoved'', ?_, hloop.trans hround⟩
  intro state'' d'' hhandled
  rw [List.drop_nil] at hempty
  rw [← hhandled.state, ← hhandled.passed, hafter.state, hafter.passed]
  exact hempty

-- However the parcels arrive: what is complete has been passed on, and less than a parcel is
-- left.
theorem readChunks_trans {w : Served γ} {b d later : Bytes} {chunks : List Bytes}
    {parcels : List Sealed} (h : w.Stands .trans b d)
    (hstream : b ++ chunks.flatten ++ later = Sealed.stream parcels)
    (hb : ∀ z ∈ parcels.head?, b.length < z.wire.length)
    (hchunks : ∀ chunk ∈ chunks, chunk ≠ [] ∧ chunk.length ≤ SOCKS5_SHARE_BUFFER_SZ) :
    ∃ ys zs b' w', parcels = ys ++ zs ∧ readChunks chunks w = some w' ∧
      Lib.Along readChunk (fun w chunk => ¬ w.Overflows chunk) w chunks ∧
      w'.Stands .trans b' (d ++ Sealed.messages ys) ∧ b' ++ later = Sealed.stream zs ∧
      ∀ z ∈ zs.head?, b'.length < z.wire.length := by
  induction chunks generalizing w b d parcels with
  | nil =>
    rw [List.flatten_nil, List.append_nil] at hstream
    refine ⟨[], parcels, b, w, rfl, rfl, trivial, ?_, hstream, hb⟩
    rw [show Sealed.messages [] = [] from rfl, List.append_nil]
    exact h
  | cons chunk chunks ih =>
    obtain ⟨⟨hne, hlen⟩, hlater⟩ := List.forall_mem_cons.mp hchunks
    have hfits : b.length ≤ SOCKS5_SHARE_BUFFER_SZ := by
      cases parcels with
      | nil =>
        have hnil := congrArg List.length hstream
        rw [List.length_append, List.length_append] at hnil
        change _ = 0 at hnil
        omega
      | cons z parcels =>
        have hz := hb z rfl
        have hwire := z.wire_le
        omega
    obtain ⟨w', hstands, -, hread⟩ := onReadable_received h hfits hne hlen
    rw [List.flatten_cons, ← List.append_assoc, List.append_assoc (b ++ chunk)] at hstream
    obtain ⟨ys, zs, next, rfl, hloop, hle, hnext, hlt⟩ :=
      receiveLoop_trans hstands hstream (Nat.lt_succ_self _)
    have hrest := drop_stream hstream hle
    rw [← List.append_assoc] at hrest
    have hshort : ∀ z ∈ zs.head?,
        ((b ++ chunk).drop (Sealed.stream ys).length).length < z.wire.length := by
      intro z hz
      have hz := hlt z hz
      rw [List.length_drop]
      omega
    obtain ⟨ys', zs, b', last, rfl, hrun, halong, hlast, hrest', hlt'⟩ :=
      ih hnext hrest hshort hlater
    have hstep := hread.trans hloop
    rw [List.append_assoc, ← Sealed.messages_append] at hlast
    refine ⟨ys ++ ys', zs, b', last, (List.append_assoc _ _ _).symm,
      (Lib.run_cons chunks hstep).trans hrun, ?_, hlast, hrest', hlt'⟩
    refine ⟨(not_overflows h hfits hlen).2.2, ?_⟩
    rw [hstep]
    exact halong

/-- A client that takes what comes and leaves its tunnel alone. -/
instance : ITunnelClient Unit Socks5Proxy where
  onTunnelConnected := id
  onTunnelDisconnected _ c p := (c, p)
  onTunnelWritable c p := (0, c, p)
  onTunnelDataBack _ c p := (c, p)
  disconnected_calls _ _ _ := .refl
  writable_calls _ _ := .refl
  dataBack_calls _ _ _ := .refl

def sampleProxy (state : S5State) : Socks5Proxy where
  mAlive := true
  mConnected := true
  mDestAddr := List.replicate 16 0
  mDestPort := 80
  mProtocol := protoTCP
  mDestIPVer := 4
  mS5State := state
  mPayloadDataBack := 0
  mBufferedSize := 0
  mSocks5 := []
  mOutQueue := []
  mDecryptBuffer := ⟨Segment.new (MAX_PARCEL_SIZE <<< 2), List.length_replicate⟩
  mSocket := 3
  hasReactor := true
  reactor := ⟨5, ∅, [], ∅, fun _ _ => false⟩
  handler := 1
  settings := ⟨0, none, none⟩
  cipher := sampleCipher
  draws _ := sampleDraws
  sends _ := .accepted 1
  trace := []

def sampleServed (state : S5State) : Served Unit := ⟨(), sampleProxy state⟩

def sampleSealed (m : Bytes) (hne : m ≠ []) (hle : m.length ≤ MAX_ENCRYPT_SIZE) : Sealed where
  message := m
  wire := sampleParcel m
  encrypts := sampleParcel_encrypts hne
  message_le := hle

theorem length_sampleSealed {m : Bytes} (hne : m ≠ []) (hle : m.length ≤ MAX_ENCRYPT_SIZE) :
    (sampleSealed m hne hle).wire.length =
      (pack (sealContent sampleDraws m) MAX_PARCEL_SIZE).length := by
  obtain ⟨_, _, _, -, hparcel⟩ := sampleParcel_encrypts hne
  have hout := (encrypt_eq hparcel).2.1
  rw [List.take_of_length_le hle] at hout
  exact congrArg List.length hout

end Served

end NetCore
