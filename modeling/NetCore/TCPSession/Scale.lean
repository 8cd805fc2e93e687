import NetCore.Lib.Run
import NetCore.TCPSession.Birth
import NetCore.TCPSession.StepRelation

/-!
# Window scaling

The option byte of the SYN is the shift of all later windows, as it comes.  A shift to the left of 16
bits by 16 or less loses nothing, and the field of a window that `updateWindowSize` has bounded is the
whole of it shifted back.  A receiver shifts by 14 at most.
-/

namespace NetCore

theorem toNat_shiftLeft_exact {x : U32} {n : Nat} (h : x.toNat * 2 ^ n < 2 ^ 32) :
    (x <<< n).toNat = x.toNat * 2 ^ n := by
  rw [BitVec.toNat_shiftLeft, Nat.shiftLeft_eq, Nat.mod_eq_of_lt h]

/-- What a window field stands for at the other end. -/
def decodedWindow (scale : U8) (field : U16) : Nat := field.toNat * 2 ^ min scale.toNat 14

def windowField (ip : Bytes) : U16 := beWord16 ip 34

namespace TCPSession

variable {τ : Type} [ITunnel τ]

def room (s : TCPSession τ) : Nat :=
  (ITunnel.getAvailableBufferSize s.mTunnel).toNat - s.mForwardQueueDataSize.toNat

/-- The scale byte of a SYN, 0 if it has none. -/
def scaleOption (ip : Packet) : U8 :=
  match scanOptions ip optWS with
  | .found option => byteAt option 2
  | _ => 0

/-- The session with any tunnel and any amount queued for it, its window brought up to date. -/
def updatedWith (tunnel : τ) (size : U32) (s : TCPSession τ) : TCPSession τ :=
  ({ s with mTunnel := tunnel, mForwardQueueDataSize := size } : TCPSession τ).updateWindowSize

structure ScalesExactly (s : TCPSession τ) : Prop where
  lt : s.mWindowScale.toNat < 32
  /-- The two shifts to the left lose no bits. -/
  announced (w : U16) :
    (w.setWidth 32 <<< s.mWindowScale.toNat : U32).toNat = w.toNat * 2 ^ s.mWindowScale.toNat
  greatest : (0xFFFF#32 <<< s.mWindowScale.toNat).toNat = 0xFFFF * 2 ^ s.mWindowScale.toNat
  sendWindow {ip : Packet} {t : TCPSession τ} : ip.Plain → s.accept ip = some t →
    t.mSendWindow.toNat = ip.window.toNat * 2 ^ min s.mWindowScale.toNat 14
  /-- The field has room for all of the window shifted to the right. -/
  field (tunnel : τ) (size : U32) (flag : U8) (data : Bytes) :
    (windowField ((s.updatedWith tunnel size).buildPackage flag data).readable).toNat =
      ((s.updatedWith tunnel size).mReceiveWindow >>> s.mWindowScale.toNat).toNat
  decoded (tunnel : τ) (size : U32) (flag : U8) (data : Bytes) : ITunnel.isAlive tunnel →
    decodedWindow s.mWindowScale
        (windowField ((s.updatedWith tunnel size).buildPackage flag data).readable) ≤
      (s.updatedWith tunnel size).room

/-! ## The fields -/

variable {s : TCPSession τ}

omit [ITunnel τ] in
theorem windowField_buildPackage (s : TCPSession τ) (flag : U8) (data : Bytes) :
    windowField (s.buildPackage flag data).readable =
      (s.mReceiveWindow >>> s.mWindowScale.toNat).setWidth 16 := by
  rw [buildPackage, Segment.readable_ofBytes]
  exact beBytes16_append _

-- The least of what the field can tell and what the tunnel has room for, less what is queued.
theorem updateWindowSize_toNat (s : TCPSession τ) :
    s.updateWindowSize.mReceiveWindow.toNat =
      min (0xFFFF#32 <<< s.mWindowScale.toNat).toNat
          (if ITunnel.isAlive s.mTunnel then ITunnel.getAvailableBufferSize s.mTunnel
            else 0xFFFF#32 <<< s.mWindowScale.toNat).toNat -
        s.mForwardQueueDataSize.toNat := by
  have hleast (max available : U32) :
      (if max < available then max else available).toNat = min max.toNat available.toNat := by
    split <;> bv_omega
  have hrest (window size : U32) :
      (if window ≤ size then 0 else window - size).toNat = window.toNat - size.toNat := by
    split <;> bv_omega
  unfold updateWindowSize
  dsimp only
  rw [hrest, hleast]

-- The window told is never more than there is room for.
theorem updateWindowSize_le_room (h : ITunnel.isAlive s.mTunnel) :
    s.updateWindowSize.mReceiveWindow.toNat ≤ s.room := by
  rw [updateWindowSize_toNat, if_pos h, room]
  omega

-- Behind a window shifted to the left by at most 14 there is one of 16 bits.
theorem updateWindowSize_shiftRight_lt (hscale : s.mWindowScale.toNat ≤ 14) :
    (s.updateWindowSize.mReceiveWindow >>> s.mWindowScale.toNat).toNat < 2 ^ 16 := by
  have hpow : 2 ^ s.mWindowScale.toNat ≤ 2 ^ 14 := Nat.pow_le_pow_right (by decide) hscale
  have hmax : (0xFFFF#32).toNat = 0xFFFF := rfl
  have hexact : (0xFFFF#32 <<< s.mWindowScale.toNat).toNat = 0xFFFF * 2 ^ s.mWindowScale.toNat := by
    rw [toNat_shiftLeft_exact (by rw [hmax]; omega), hmax]
  have hpos := Nat.two_pow_pos s.mWindowScale.toNat
  rw [BitVec.toNat_ushiftRight, Nat.shiftRight_eq_div_pow, Nat.div_lt_iff_lt_mul hpos,
    updateWindowSize_toNat, hexact]
  omega

/-! ## The scale of a session -/

-- The windows of `t` are scaled as those of `s`, and the application's is the same.
structure SameWindow (s t : TCPSession τ) : Prop where
  scale : t.mWindowScale = s.mWindowScale
  sendWindow : t.mSendWindow = s.mSendWindow

namespace SameWindow

omit [ITunnel τ] in
theorem refl (s : TCPSession τ) : SameWindow s s := ⟨rfl, rfl⟩

omit [ITunnel τ] in
theorem trans {s t u : TCPSession τ} (h : SameWindow s t) (h' : SameWindow t u) : SameWindow s u :=
  ⟨h'.scale.trans h.scale, h'.sendWindow.trans h.sendWindow⟩

omit [ITunnel τ] in
theorem emit (points : List TracePoint) (s : TCPSession τ) : SameWindow s (s.emit points) :=
  ⟨rfl, rfl⟩

theorem switchState (state : TCPState) (s : TCPSession τ) : SameWindow s (s.switchState state) := by
  unfold TCPSession.switchState
  split
  · exact .refl s
  · dsimp only
    split <;> exact ⟨rfl, rfl⟩

theorem rstSent (s : TCPSession τ) : SameWindow s s.rstSent := by
  have hupdated : SameWindow s { s.updateWindowSize with mLocalSeq := s.mLocalNext } := ⟨rfl, rfl⟩
  exact (hupdated.trans (.emit _ _)).trans (.emit _ _)

theorem sendBackData (s : TCPSession τ) : SameWindow s s.sendBackData := by
  have hhand (s : TCPSession τ) (d : TCPDatagram) : SameWindow s (sendBackSegment d s).2.2 := by
    unfold sendBackSegment
    split
    · exact .refl s
    · dsimp only
      split
      · exact .refl s
      · exact .emit _ s
  have hreset (s : TCPSession τ) : SameWindow s s.resetConnection := by
    rw [resetConnection_eq]
    exact (rstSent s).trans (.switchState .closed _)
  have hresume (s : TCPSession τ) : SameWindow s s.resumeIfRoom := by
    unfold resumeIfRoom
    split <;> exact ⟨rfl, rfl⟩
  exact sendBackData_relation .trans (fun _ _ => ⟨rfl, rfl⟩) hhand hreset hresume s

theorem back : BackRelation (SameWindow (τ := τ)) where
  refl := .refl
  trans := .trans
  pop s := by
    obtain ⟨_, _, _, heq, -⟩ := s.popAcked_eq
    rw [heq]
    exact ⟨rfl, rfl⟩
  send := sendBackData
  number _ _ := ⟨rfl, rfl⟩
  refuse _ s := .emit _ s
  switch := switchState
  rst := rstSent
  upload _ _ := ⟨rfl, rfl⟩
  finish _ := ⟨rfl, rfl⟩

omit [ITunnel τ] in
theorem countRecv (i : Nat) (s : TCPSession τ) : SameWindow s (s.countRecv i) := by
  unfold TCPSession.countRecv
  split <;> exact ⟨rfl, rfl⟩

theorem countSent (n : Nat) (s : TCPSession τ) : SameWindow s (s.countSent n) := by
  unfold TCPSession.countSent
  split <;> exact ⟨rfl, rfl⟩

end SameWindow

-- Nothing behind the SYN changes the scale.
theorem scale_relation : StepRelation fun s t : TCPSession τ => t.mWindowScale = s.mWindowScale where
  toBackRelation :=
    SameWindow.back.weaken (fun _ => rfl) (fun h h' => h'.trans h) fun h => h.scale
  count ip s := by
    obtain ⟨_, _, heq⟩ := s.countAccepted_eq ip
    rw [heq]
  environment _ _ _ _ _ _ _ _ := rfl
  written _ _ _ := rfl

theorem step_scale {t : TCPSession τ} {e : Event τ} (hopen : s.mState ≠ .listen)
    (hstep : s.step e = some t) : t.mWindowScale = s.mWindowScale := by
  refine scale_relation.step hopen ?_ ?_ hstep
  · intro data _ hdata
    exact (SameWindow.back.onTunnelDataBack (fun _ _ => ⟨rfl, rfl⟩) .countRecv
      (fun _ _ => ⟨rfl, rfl⟩) (fun _ => ⟨rfl, rfl⟩) hdata s).scale
  · intro _
    exact (SameWindow.back.onTunnelWritable (fun _ => ⟨rfl, rfl⟩) .countSent
      (fun _ _ => ⟨rfl, rfl⟩) s).scale

-- The window an acknowledgement sets is the one it announces.
theorem accept_mSendWindow {ip : Packet} {t : TCPSession τ} (hopen : s.mState ≠ .listen)
    (hplain : ip.Plain) (haccept : s.accept ip = some t) :
    t.mSendWindow = announcedWindow ip s.mWindowScale := by
  obtain ⟨u, haccepted, rfl⟩ := accept_accepted hopen haccept
  have hscale : (s.countAccepted ip).mWindowScale = s.mWindowScale := by
    obtain ⟨_, _, heq⟩ := s.countAccepted_eq ip
    rw [heq]
  show u.mSendWindow = _
  rw [← hscale]
  cases haccepted with
  | syn hsyn =>
    rw [hplain.1] at hsyn
    cases hsyn
  | fin _ hfin =>
    rw [hplain.2.1] at hfin
    cases hfin
  | rst _ _ hrst =>
    rw [hplain.2.2] at hrst
    cases hrst
  | stale => rfl
  | ack _ _ hstep => exact (SameWindow.back.onReceiveACK hstep).sendWindow

theorem Fresh.accept_scale {s₀ : TCPSession τ} {ip : Packet} (hlisten : s₀.mState = .listen)
    (hscale : s₀.mWindowScale = 0) (hsyn : NetCore.hasFlag ip.flag SYN)
    (haccept : s₀.accept ip = some s) : s.mWindowScale = scaleOption ip := by
  obtain ⟨total, trace, heq⟩ := s₀.countAccepted_eq ip
  have hcounted : (s₀.countAccepted ip).mState = .listen := by
    rw [heq]
    exact hlisten
  have hzero : (s₀.countAccepted ip).mWindowScale = 0 := by
    rw [heq]
    exact hscale
  unfold accept dispatchFlags at haccept
  rw [if_pos hsyn, onReceiveSYN, if_neg (fun h => h hcounted)] at haccept
  obtain ⟨t, ht, rfl⟩ := Option.map_eq_some_iff.mp haccept
  show t.mWindowScale = _
  split at ht
  · cases ht
  · cases ht
  · cases ht
  · cases ht
    refine (SameWindow.back.handshake ip _).scale.trans ?_
    unfold scaleOption
    dsimp only [synNumbered]
    cases scanOptions ip optWS with
    | found option => rfl
    | notFound => exact hzero
    | spins => exact hzero

-- A session a SYN has brought to life keeps the scale of the SYN in every run.
theorem run_scale {s₀ t : TCPSession τ} {ip : Packet} {es : List (Event τ)} (hfresh : s₀.Fresh)
    (hscale : s₀.mWindowScale = 0) (hsyn : NetCore.hasFlag ip.flag SYN)
    (haccept : s₀.accept ip = some s) (hrun : Lib.run step s es = some t) :
    t.Opened ∧ t.mWindowScale = scaleOption ip := by
  have hborn : s.Born := ⟨s₀, ip, hfresh, hsyn, haccept⟩
  have hfirst := Fresh.accept_scale hfresh.state hscale hsyn haccept
  refine Lib.run_invariant (fun t => t.Opened ∧ t.mWindowScale = scaleOption ip) ?_
    ⟨hborn.newborn.opened, hfirst⟩ hrun
  intro u u' e hu hstep
  exact ⟨step_opened hu.1 hstep, (step_scale hu.1.2 hstep).trans hu.2⟩

/-! ## Exactness -/

-- A shift by at most 14 is exact in every respect.
theorem scalesExactly_of_le (hopen : s.mState ≠ .listen) (hscale : s.mWindowScale.toNat ≤ 14) :
    s.ScalesExactly := by
  have hpow : 2 ^ s.mWindowScale.toNat ≤ 2 ^ 14 := Nat.pow_le_pow_right (by decide) hscale
  have hannounced (w : U16) : (w.setWidth 32 <<< s.mWindowScale.toNat : U32).toNat =
      w.toNat * 2 ^ s.mWindowScale.toNat := by
    have hw := w.isLt
    have hwide : (w.setWidth 32 : U32).toNat = w.toNat := by
      rw [BitVec.toNat_setWidth, Nat.mod_eq_of_lt (by omega)]
    have hfits : w.toNat * 2 ^ s.mWindowScale.toNat < 2 ^ 32 := by
      calc w.toNat * 2 ^ s.mWindowScale.toNat ≤ w.toNat * 2 ^ 14 := Nat.mul_le_mul_left _ hpow
        _ < 2 ^ 32 := by omega
    rw [toNat_shiftLeft_exact (by rw [hwide]; exact hfits), hwide]
  have hfield (tunnel : τ) (size : U32) (flag : U8) (data : Bytes) :
      (windowField ((s.updatedWith tunnel size).buildPackage flag data).readable).toNat =
        ((s.updatedWith tunnel size).mReceiveWindow >>> s.mWindowScale.toNat).toNat := by
    have hlt := @updateWindowSize_shiftRight_lt _ _
      ({ s with mTunnel := tunnel, mForwardQueueDataSize := size } : TCPSession τ) hscale
    rw [windowField_buildPackage, BitVec.toNat_setWidth]
    exact Nat.mod_eq_of_lt hlt
  refine ⟨by omega, hannounced, ?_, ?_, hfield, ?_⟩
  · exact hannounced 0xFFFF
  · intro ip t hplain haccept
    rw [accept_mSendWindow hopen hplain haccept, announcedWindow, hannounced, Nat.min_eq_left hscale]
  · intro tunnel size flag data halive
    have hroom := @updateWindowSize_le_room _ _
      ({ s with mTunnel := tunnel, mForwardQueueDataSize := size } : TCPSession τ) halive
    rw [decodedWindow, hfield, BitVec.toNat_ushiftRight, Nat.shiftRight_eq_div_pow,
      Nat.min_eq_left hscale]
    exact (Nat.div_mul_le_self _ _).trans hroom

theorem header_fits : 40 + ([] : Bytes).length + ([] : Bytes).length ≤ 65535 := by decide

def narrowACK : Packet where
  seq := 0
  ack_seq := 0
  flag := ACK
  window := 1
  checksum := 0
  options := []
  payload := []
  behind := []
  fits := header_fits

theorem narrowACK_plain : narrowACK.Plain := ⟨rfl, rfl, rfl⟩

theorem onReceiveACK_narrowACK (s : TCPSession τ) : ∃ t, onReceiveACK narrowACK s = some t := by
  unfold onReceiveACK
  split
  · exact ⟨_, rfl⟩
  · exact ⟨_, rfl⟩
  · exact ⟨_, rfl⟩
  · exact ⟨_, rfl⟩
  · have hscan : (if s.mSack then scanOptions narrowACK optSACK else .notFound) = .notFound := by
      split <;> rfl
    rw [hscan]
    exact ⟨_, rfl⟩
  · exact ⟨_, rfl⟩

theorem accept_narrowACK (s : TCPSession τ) : ∃ t, s.accept narrowACK = some t := by
  have hdispatch (u : TCPSession τ) : ∃ t, dispatchFlags narrowACK u = some t := by
    unfold dispatchFlags
    rw [if_neg (by decide), if_neg (by decide), if_neg (by decide)]
    dsimp only
    split
    · exact onReceiveACK_narrowACK _
    · split <;> exact ⟨_, rfl⟩
  obtain ⟨t, ht⟩ := hdispatch (s.countAccepted narrowACK)
  exact ⟨t.noteTime, by rw [accept, ht, Option.map_some]⟩

-- No shift by more is: the window of an acknowledgement is not the one its sender means.
theorem le_of_scalesExactly (hopen : s.mState ≠ .listen) (h : s.ScalesExactly) :
    s.mWindowScale.toNat ≤ 14 := by
  by_contra hlarge
  obtain ⟨t, haccept⟩ := s.accept_narrowACK
  have hmeant := h.sendWindow narrowACK_plain haccept
  have hset := h.announced 1
  have hone : (1 : U16).toNat = 1 := rfl
  have hwindow : narrowACK.window = 1 := rfl
  rw [accept_mSendWindow hopen narrowACK_plain haccept, announcedWindow, hwindow, hset, hone,
    Nat.one_mul, Nat.one_mul, Nat.min_eq_right (by omega)] at hmeant
  have hlt : 2 ^ 14 < 2 ^ s.mWindowScale.toNat := Nat.pow_lt_pow_right (by decide) (by omega)
  omega

/-- In every run of a session the arithmetic is exact exactly if the scale byte of its SYN is one
    that the format allows. -/
theorem run_scalesExactly_iff {s₀ t : TCPSession τ} {ip : Packet} {es : List (Event τ)}
    (hfresh : s₀.Fresh) (hscale : s₀.mWindowScale = 0) (hsyn : NetCore.hasFlag ip.flag SYN)
    (haccept : s₀.accept ip = some s) (hrun : Lib.run step s es = some t) :
    t.ScalesExactly ↔ (scaleOption ip).toNat ≤ 14 := by
  obtain ⟨hopened, hkept⟩ := run_scale hfresh hscale hsyn haccept hrun
  rw [← hkept]
  exact ⟨le_of_scalesExactly hopened.2, scalesExactly_of_le hopened.2⟩

theorem scaledSYN_fits (scale : U8) :
    40 + ([3, 3, scale, 0] : Bytes).length + sampleSYN.payload.length ≤ 65535 :=
  Nat.le_of_ble_eq_true rfl

-- A SYN whose options are a window scale and the end.
def scaledSYN (scale : U8) : Packet :=
  { sampleSYN with options := [3, 3, scale, 0], fits := scaledSYN_fits scale }

def scaledBorn (scale : U8) : TCPSession TCPTunnel :=
  ((sampleInit sampleTunnel 1000).accept (scaledSYN scale)).getD (sampleInit sampleTunnel 1000)

theorem accept_scaledSYN {scale : U8}
    (h : ((sampleInit sampleTunnel 1000).accept (scaledSYN scale)).isSome) :
    (sampleInit sampleTunnel 1000).accept (scaledSYN scale) = some (scaledBorn scale) := by
  obtain ⟨s, hs⟩ := Option.isSome_iff_exists.mp h
  rw [scaledBorn, hs, Option.getD_some]

theorem run_scalesExactly_sample :
    ∃ t, Lib.run step (scaledBorn 7)
        [.accept (samplePacket 101 1001 ACK [0x61] (by decide)), .tunnelDataBack [1, 2, 3],
          .accept (samplePacket 102 1004 ACK [] (by decide))] = some t ∧
      t.mSendWindow = announcedWindow (samplePacket 102 1004 ACK [] (by decide)) 7 ∧
      t.ScalesExactly := by
  have hreach : ∃ t, Lib.run step (scaledBorn 7)
        [.accept (samplePacket 101 1001 ACK [0x61] (by decide)), .tunnelDataBack [1, 2, 3],
          .accept (samplePacket 102 1004 ACK [] (by decide))] = some t ∧
      t.mSendWindow = announcedWindow (samplePacket 102 1004 ACK [] (by decide)) 7 :=
    Lib.run_reaches (by decide)
  obtain ⟨t, hrun, hwindow⟩ := hreach
  refine ⟨t, hrun, hwindow, ?_⟩
  exact (run_scalesExactly_iff (init_fresh _ _ _ _ _ _ _ _) rfl (by decide)
    (accept_scaledSYN (by decide)) hrun).mpr (by decide)

/-- Nothing looks at the scale a SYN asks for: with 15 a window of 1 is taken for 32768. -/
theorem scale_fifteen : (scaledBorn 15).mWindowScale = 15 ∧ ¬ (scaledBorn 15).ScalesExactly := by
  have hborn : (scaledBorn 15).Born := ⟨sampleInit sampleTunnel 1000, scaledSYN 15,
    init_fresh _ _ _ _ _ _ _ _, by decide, accept_scaledSYN (by decide)⟩
  have hscale : (scaledBorn 15).mWindowScale = 15 := by decide
  refine ⟨hscale, fun h => ?_⟩
  have hle := le_of_scalesExactly hborn.newborn.opened.2 h
  rw [hscale] at hle
  exact absurd hle (by decide)

end TCPSession

end NetCore
