import NetCore.TCPSession.Accept

/-!
# Invariants of a step

A `CallInvariant` is a property that survives what the calls of a session are made of.  It carries a
budget: how many sequence numbers the rest of the step may still use up.  `CallInvariant.step` puts
the pieces together; what is left to show for an event is that the new left edge is harmless.  A
`PartInvariant` does not look at the order of the pieces, and a `StepInvariant` survives the router's
part in the segments, too.
-/

namespace NetCore

/-- The acknowledgement number of the packet is looked at. -/
def Packet.UsesAck (ip : Packet) : Prop :=
  hasFlag ip.flag SYN = false ∧ (hasFlag ip.flag FIN ∨ hasFlag ip.flag RST = false)

instance (ip : Packet) : Decidable ip.UsesAck := inferInstanceAs (Decidable (_ ∧ _))

theorem Packet.Plain.usesAck {ip : Packet} (h : ip.Plain) : ip.UsesAck := ⟨h.1, .inr h.2.2⟩

namespace TCPSession

variable {τ : Type}

def numbered (flag : U8) (data : Bytes) : Nat :=
  if NetCore.hasFlag flag (FIN ||| SYN) then 1 else data.length

/-- The states in which a flush may number a FIN. -/
def MayFinish (s : TCPSession τ) : Prop := s.mState = .established ∨ s.mState = .closeWait

instance (s : TCPSession τ) : Decidable s.MayFinish := inferInstanceAs (Decidable (_ ∨ _))

/-- How many sequence numbers a step may use up: the data of the tunnel, or a FIN. -/
def demand (s : TCPSession τ) : Event τ → Nat
  | .accept _ => if s.mRemoteFinished ∧ (s.mState = .synRcved ∨ s.MayFinish) then 1 else 0
  | .tunnelDataBack data => if data = [] then (if s.MayFinish then 1 else 0) else data.length
  | .tunnelDisconnected _ => if s.MayFinish then 1 else 0
  | .tunnelWritable => if s.MayFinish then 1 else 0
  | _ => 0

-- The changes of state outside the two FINs.
inductive Turn : TCPState → TCPState → Prop
  | established : Turn .synRcved .established
  | finWait2 : Turn .finWait1 .finWait2
  | timeWait : Turn .closing .timeWait
  | closed (state : TCPState) : Turn state .closed

variable [ITunnel τ]

structure CallInvariant (P : Nat → TCPSession τ → Prop) : Prop where
  mono {b b' s} : P b s → b' ≤ b → P b' s
  inert {b s s'} : P b s → Inert s s' → P b s'
  finished {b s} : P b s → b ≤ 1 → P b { s with mRemoteFinished := true }
  pop {b s} : P b s → P b s.popAcked
  send {b s} : P b s → s.BackSound → P b s.sendBackData
  reset {b s} : P b s → P b s.resetConnection
  turn {b s state} : P b s → Turn s.mState state → P b (s.switchState state)
  number {b s data} : P b s → s.mLocalNext ≤ s.mLocalSeq → data.length ≤ b →
    data.length ≤ TCP_IP_PAYLOAD_SIZE → P (b - data.length) (s.enqueueBack ACK data)
  finish {b s} : P b s → s.BackSound → s.FinDue → s.mLocalNext ≤ s.mLocalSeq → 1 ≤ b →
    P (b - 1) (s.enqueueBack (FIN ||| ACK) []).sendBackData.leave
  receive {b s state} : P b s → s.BackSound → s.mLocalNext ≤ s.mLocalSeq → FinTurn s.mState state →
    P b ((pushInBackQueue ACK [] s).2.switchState state)
  refuse {b s} (flag : U8) : P b s → s.mLocalSeq < s.mLocalNext → P b (s.emit [.refused flag])

structure PartInvariant (P : Nat → TCPSession τ → Prop) : Prop where
  mono {b b' s} : P b s → b' ≤ b → P b' s
  inert {b s s'} : P b s → Inert s s' → P b s'
  finished {b s} : P b s → P b { s with mRemoteFinished := true }
  pop {b s} : P b s → P b s.popAcked
  sent {b s d rest} : P b s → s.BackSound → s.mBackQueue = d :: rest → s.SendsFront d →
    P b (s.sentFront d rest)
  reset {b s} : P b s → P b s.resetConnection
  switch {b s} (state : TCPState) : P b s → P b (s.switchState state)
  number {b s flag data} : P b s → s.mLocalNext ≤ s.mLocalSeq → numbered flag data ≤ b →
    data.length ≤ TCP_IP_PAYLOAD_SIZE → P (b - numbered flag data) (s.enqueueBack flag data)
  refuse {b s} (flag : U8) : P b s → s.mLocalSeq < s.mLocalNext → P b (s.emit [.refused flag])

structure StepInvariant (P : Nat → TCPSession τ → Prop) : Prop extends PartInvariant P where
  written {b s} (i n : Nat) : P b s →
    P b { s with mBackQueue := s.mBackQueue.modify i (routerWrote n) }

-- An invariant together with what every session has from its SYN on.
structure Steady (P : Nat → TCPSession τ → Prop) (b : Nat) (s : TCPSession τ) : Prop where
  sound : s.BackSound
  opened : s.mState ≠ .listen
  holds : P b s

/-! ## States -/

theorem sendBackData_mState {s : TCPSession τ} (hsound : s.BackSound) :
    s.sendBackData.mState = s.mState ∨ s.sendBackData.mState = .closed := by
  rcases sendBackData_cases hsound with ⟨_, _, -, -, heq⟩ | ⟨_, _, -, -, -, heq⟩ | ⟨-, heq⟩
  · exact .inr (by rw [heq, resetConnection_mState])
  · exact .inl (by rw [heq, (resumeIfRoom_inert _).state]; rfl)
  · exact .inl (by rw [heq, (resumeIfRoom_inert _).state])

theorem sendBackData_sound {s : TCPSession τ} (hsound : s.BackSound) : s.sendBackData.BackSound := by
  have hinert {t t' : TCPSession τ} (ht : t.BackSound) (h : Inert t t') : t'.BackSound := by
    unfold BackSound
    rw [h.backQueue]
    exact ht
  rcases sendBackData_cases hsound with ⟨_, _, -, -, heq⟩ | ⟨_, _, hqueue, -, -, heq⟩ | ⟨-, heq⟩
  · unfold BackSound
    rw [heq, resetConnection_backQueue]
    exact hsound
  · rw [heq]
    exact hinert (sentFront_sound hsound hqueue) (resumeIfRoom_inert _)
  · rw [heq]
    exact hinert hsound (resumeIfRoom_inert _)

theorem pushInBackQueue_mState {s : TCPSession τ} (hsound : s.BackSound) (flag : U8) {data : Bytes}
    (hdata : data.length ≤ TCP_IP_PAYLOAD_SIZE) :
    (pushInBackQueue flag data s).2.mState = s.mState ∨
      (pushInBackQueue flag data s).2.mState = .closed := by
  by_cases hle : s.mLocalNext ≤ s.mLocalSeq
  · have hstate := sendBackData_mState (popAcked_sound (enqueueBack_sound hsound flag hdata))
    rw [popAcked_mState, enqueueBack_mState] at hstate
    rw [pushInBackQueue_of_le hle]
    exact hstate
  · rw [pushInBackQueue_refused (by bv_omega)]
    exact .inl rfl

theorem push_sound {s : TCPSession τ} (hsound : s.BackSound) {data : Bytes}
    (hdata : data.length ≤ TCP_IP_PAYLOAD_SIZE) : (pushInBackQueue ACK data s).2.BackSound := by
  by_cases hle : s.mLocalNext ≤ s.mLocalSeq
  · rw [pushInBackQueue_of_le hle]
    exact sendBackData_sound (popAcked_sound (enqueueBack_sound hsound ACK hdata))
  · rw [pushInBackQueue_refused (by bv_omega)]
    exact hsound

theorem PartInvariant.sendBackData {P : Nat → TCPSession τ → Prop} (inv : PartInvariant P) {b : Nat}
    {s : TCPSession τ} (hsound : s.BackSound) (h : P b s) : P b s.sendBackData := by
  rcases sendBackData_cases hsound with
    ⟨d, rest, -, -, heq⟩ | ⟨d, rest, hqueue, -, hsends, heq⟩ | ⟨-, heq⟩
  · rw [heq]
    exact inv.reset h
  · rw [heq]
    exact inv.inert (inv.sent h hsound hqueue hsends) (resumeIfRoom_inert _)
  · rw [heq]
    exact inv.inert h (resumeIfRoom_inert s)

theorem PartInvariant.call {P : Nat → TCPSession τ → Prop} (inv : PartInvariant P) :
    CallInvariant P where
  mono := inv.mono
  inert := inv.inert
  finished h _ := inv.finished h
  pop := inv.pop
  send h hsound := inv.sendBackData hsound h
  reset := inv.reset
  turn h _ := inv.switch _ h
  number {b _ data} h hle hb hdata := by
    have hnumbered : numbered ACK data ≤ b := hb
    exact inv.number h hle hnumbered hdata
  finish {b _} h hsound _ hle hb := by
    have hnumbered : numbered (FIN ||| ACK) [] ≤ b := hb
    have hpushed := inv.number h hle hnumbered (Nat.zero_le _)
    exact inv.switch _ (inv.sendBackData (enqueueBare_sound hsound _) hpushed)
  receive {b s _} h hsound hle _ := by
    have hnumbered : numbered ACK [] ≤ b := Nat.zero_le b
    have hpushed : P b (s.enqueueBack ACK []) := inv.number h hle hnumbered (Nat.zero_le _)
    rw [pushInBackQueue_of_le hle]
    refine inv.switch _ (inv.sendBackData ?_ (inv.pop hpushed))
    exact popAcked_sound (enqueueBare_sound hsound ACK)
  refuse := inv.refuse

namespace Steady

variable {P : Nat → TCPSession τ → Prop} {b : Nat} {s : TCPSession τ}

theorem mono (inv : CallInvariant P) (h : Steady P b s) {b' : Nat} (hle : b' ≤ b) :
    Steady P b' s := ⟨h.sound, h.opened, inv.mono h.holds hle⟩

theorem inert (inv : CallInvariant P) (h : Steady P b s) {s' : TCPSession τ} (hinert : Inert s s') :
    Steady P b s' where
  sound := by
    unfold BackSound
    rw [hinert.backQueue]
    exact h.sound
  opened := by
    rw [hinert.state]
    exact h.opened
  holds := inv.inert h.holds hinert

theorem turn (inv : CallInvariant P) (h : Steady P b s) {state : TCPState}
    (hturn : Turn s.mState state) : Steady P b (s.switchState state) where
  sound := switchState_sound h.sound
  opened := by
    rw [switchState_mState]
    generalize s.mState = old at hturn
    cases hturn <;> decide
  holds := inv.turn h.holds hturn

theorem resetConnection (inv : CallInvariant P) (h : Steady P b s) :
    Steady P b s.resetConnection where
  sound := by
    unfold BackSound
    rw [resetConnection_backQueue]
    exact h.sound
  opened := by
    rw [resetConnection_mState]
    decide
  holds := inv.reset h.holds

theorem popAcked (inv : CallInvariant P) (h : Steady P b s) : Steady P b s.popAcked where
  sound := popAcked_sound h.sound
  opened := by
    rw [popAcked_mState]
    exact h.opened
  holds := inv.pop h.holds

theorem sendBackData (inv : CallInvariant P) (h : Steady P b s) : Steady P b s.sendBackData where
  sound := sendBackData_sound h.sound
  opened := by
    rcases sendBackData_mState h.sound with hsame | hclosed
    · rw [hsame]
      exact h.opened
    · rw [hclosed]
      decide
  holds := inv.send h.holds h.sound

theorem enqueueBack (inv : CallInvariant P) (h : Steady P b s) {data : Bytes}
    (hle : s.mLocalNext ≤ s.mLocalSeq) (hb : data.length ≤ b)
    (hdata : data.length ≤ TCP_IP_PAYLOAD_SIZE) :
    Steady P (b - data.length) (s.enqueueBack ACK data) :=
  ⟨enqueueBack_sound h.sound ACK hdata, h.opened, inv.number h.holds hle hb hdata⟩

theorem refused (inv : CallInvariant P) (h : Steady P b s) (flag : U8)
    (hlt : s.mLocalSeq < s.mLocalNext) : Steady P b (s.emit [.refused flag]) :=
  ⟨h.sound, h.opened, inv.refuse flag h.holds hlt⟩

theorem push (inv : CallInvariant P) (h : Steady P b s) {data : Bytes} (hb : data.length ≤ b)
    (hdata : data.length ≤ TCP_IP_PAYLOAD_SIZE) :
    Steady P (b - data.length) (pushInBackQueue ACK data s).2 := by
  by_cases hle : s.mLocalNext ≤ s.mLocalSeq
  · rw [pushInBackQueue_of_le hle]
    exact ((h.enqueueBack inv hle hb hdata).popAcked inv).sendBackData inv
  · have hlt : s.mLocalSeq < s.mLocalNext := by bv_omega
    rw [pushInBackQueue_refused hlt]
    exact (h.refused inv ACK hlt).mono inv (Nat.sub_le _ _)

-- A pure ACK uses up nothing.
theorem pushACK (inv : CallInvariant P) (h : Steady P b s) :
    Steady P b (pushInBackQueue ACK [] s).2 := by
  have hnone : ([] : Bytes).length ≤ b := Nat.zero_le b
  exact h.push inv hnone (Nat.zero_le _)

theorem flush (inv : CallInvariant P) (h : Steady P b s)
    (hb : s.mRemoteFinished → s.MayFinish → 1 ≤ b) : Steady P 0 s.flushBackQueue := by
  have hpop := h.popAcked inv
  by_cases hfin : s.popAcked.FinDue
  · have hb' : 1 ≤ b := by
      refine hb ?_ ?_
      · rw [← (popAcked_frame s).remoteFinished]
        exact hfin.1
      · unfold MayFinish
        rw [← popAcked_mState]
        exact hfin.2.1
    by_cases hle : s.mLocalNext ≤ s.mLocalSeq
    · have hle' : s.popAcked.mLocalNext ≤ s.popAcked.mLocalSeq := by
        rw [(popAcked_frame s).localNext, popAcked_mLocalSeq]
        exact hle
      have hpushed := enqueueBare_sound hpop.sound (FIN ||| ACK)
      rw [flushBackQueue_fin hfin hle]
      refine ⟨?_, ?_, inv.mono (inv.finish hpop.holds hpop.sound hfin hle' hb') (Nat.zero_le _)⟩
      · exact switchState_sound (sendBackData_sound hpushed)
      · unfold leave
        rw [switchState_mState]
        split <;> decide
    · have hlt : s.popAcked.mLocalSeq < s.popAcked.mLocalNext := by
        rw [(popAcked_frame s).localNext, popAcked_mLocalSeq]
        bv_omega
      rw [flushBackQueue_fin_refused hfin (by bv_omega)]
      exact (hpop.refused inv _ hlt).mono inv (Nat.zero_le b)
  · rw [flushBackQueue_of_not_finDue hfin]
    exact (hpop.sendBackData inv).mono inv (Nat.zero_le b)

-- The ACK of a repeated segment, and the flush behind it.
theorem pushThenFlush (inv : CallInvariant P) (h : Steady P b s)
    (hb : s.mRemoteFinished → s.MayFinish → 1 ≤ b) :
    Steady P 0 (pushInBackQueue ACK [] s).2.flushBackQueue := by
  refine (h.pushACK inv).flush inv ?_
  rw [(pushInBackQueue_frame ACK [] s).remoteFinished]
  intro hfinished hmay
  refine hb hfinished ?_
  unfold MayFinish at hmay ⊢
  have hempty : ([] : Bytes).length ≤ TCP_IP_PAYLOAD_SIZE := Nat.zero_le _
  rcases pushInBackQueue_mState h.sound ACK hempty with hsame | hclosed
  · rw [hsame] at hmay
    exact hmay
  · rw [hclosed] at hmay
    rcases hmay with hmay | hmay <;> cases hmay

theorem uploaded_inert (ip : Packet) (s : TCPSession τ) : Inert s (s.uploaded ip) :=
  .of_eq rfl rfl rfl rfl rfl rfl

theorem acceptPayload (inv : CallInvariant P) (h : Steady P b s) (ip : Packet)
    (hb : s.mRemoteFinished → s.MayFinish → 1 ≤ b) : Steady P 0 (acceptPayload ip s) := by
  rcases acceptPayload_cases ip s with ⟨-, heq⟩ | ⟨-, -, heq⟩ | ⟨-, heq⟩
  · rw [heq]
    exact ((h.inert inv (uploaded_inert ip s)).pushACK inv).mono inv (Nat.zero_le b)
  · rw [heq]
    exact h.pushThenFlush inv hb
  · rw [heq]
    exact h.flush inv hb

theorem acceptFirstPayload (inv : CallInvariant P) (h : Steady P b s) (ip : Packet)
    (hb : s.mRemoteFinished → s.MayFinish → 1 ≤ b) : Steady P 0 (acceptFirstPayload ip s) := by
  rcases acceptFirstPayload_cases ip s with ⟨-, heq⟩ | ⟨-, -, heq⟩ | ⟨-, heq⟩
  · rw [heq]
    exact (h.inert inv (uploaded_inert ip s)).flush inv hb
  · rw [heq]
    exact h.pushThenFlush inv hb
  · rw [heq]
    exact h.flush inv hb

theorem onReceiveACK (inv : CallInvariant P) (h : Steady P b s) {ip : Packet} {t : TCPSession τ}
    (hb : s.mRemoteFinished → s.mState = .synRcved ∨ s.MayFinish → 1 ≤ b)
    (hstep : onReceiveACK ip s = some t) : Steady P 0 t := by
  -- a session that has left ESTABLISHED and CLOSE_WAIT numbers nothing
  have hswitched {old state : TCPState} (hold : s.mState = old) (hturn : Turn old state)
      (hstate : state ≠ .established ∧ state ≠ .closeWait) :
      Steady P 0 (s.switchState state).flushBackQueue := by
    refine (h.turn inv (hold ▸ hturn)).flush inv ?_
    intro _ hmay
    unfold MayFinish at hmay
    rw [switchState_mState] at hmay
    exact absurd hmay (by simp [hstate])
  rcases onReceiveACK_cases hstep with ⟨hstate, rfl⟩ | ⟨hstate, rfl⟩ | ⟨hstate, rfl⟩ |
    ⟨hstate, rfl⟩ | ⟨-, rfl⟩ | ⟨-, -, -, -, -, rfl⟩
  · refine (h.turn inv (hstate ▸ .established)).acceptFirstPayload inv ip ?_
    rw [(switchState_frame _ s).remoteFinished]
    exact fun hfinished _ => hb hfinished (.inl hstate)
  · exact hswitched hstate .finWait2 (by decide)
  · exact hswitched hstate (.closed _) (by decide)
  · exact hswitched hstate .timeWait (by decide)
  · exact h.acceptPayload inv ip fun hfinished hmay => hb hfinished (.inr hmay)
  · exact h.flush inv fun hfinished hmay => hb hfinished (.inr hmay)

-- The left edge a packet sets is harmless to the invariant.
def EdgeKept (P : Nat → TCPSession τ → Prop) (b : Nat) (ip : Packet) (s : TCPSession τ) : Prop :=
  ip.UsesAck → s.mLocalNext ≤ s.relativeAck ip → P b { s with mLocalNext := s.relativeAck ip }

theorem onReceiveFIN (inv : CallInvariant P) (h : Steady P b s) {ip : Packet}
    (hused : ip.UsesAck) (hedge : EdgeKept P b ip s) : Steady P b (onReceiveFIN ip s) := by
  have hnumbered : Steady P b (s.finNumbered ip) := by
    refine ⟨h.sound, h.opened, ?_⟩
    by_cases hnew : s.mLocalNext ≤ s.relativeAck ip
    · refine inv.inert (hedge hused hnew) (.of_eq rfl rfl ?_ rfl rfl rfl)
      exact if_pos hnew
    · refine inv.inert h.holds (.of_eq rfl rfl ?_ rfl rfl rfl)
      exact if_neg hnew
  by_cases hmoves : s.FinMoves
  · by_cases hle : (s.finNumbered ip).mLocalNext ≤ s.mLocalSeq
    · have hsound := (hnumbered.pushACK inv).sound
      rw [onReceiveFIN_moves hle hmoves]
      refine ⟨?_, ?_, ?_⟩
      · exact switchState_sound hsound
      · rw [switchState_mState]
        exact finState_ne_listen ip hmoves
      · exact inv.receive hnumbered.holds hnumbered.sound hle (finMoves_turn ip hmoves)
    · have hlt : s.mLocalSeq < (s.finNumbered ip).mLocalNext := by bv_omega
      rw [onReceiveFIN_refused hlt]
      exact hnumbered.refused inv ACK hlt
  · rw [onReceiveFIN_stays hmoves]
    exact hnumbered.pushACK inv

theorem accepted (inv : CallInvariant P) (h : Steady P b s) {ip : Packet} {t : TCPSession τ}
    (hb : s.mRemoteFinished → s.mState = .synRcved ∨ s.MayFinish → 1 ≤ b)
    (hedge : EdgeKept P b ip s) (haccepted : Accepted ip s t) : Steady P 0 t := by
  cases haccepted with
  | syn => exact h.flush inv fun hfinished hmay => hb hfinished (.inr hmay)
  | fin hsyn hfin => exact (h.onReceiveFIN inv ⟨hsyn, .inl hfin⟩ hedge).mono inv (Nat.zero_le b)
  | rst => exact (h.turn inv (.closed _)).mono inv (Nat.zero_le b)
  | stale tunnel =>
    refine (h.inert inv ?_).mono inv (Nat.zero_le b)
    exact .of_eq rfl rfl rfl rfl rfl rfl
  | ack hplain hle hstep =>
    have hacked : Steady P b (s.acknowledged ip) := by
      refine ⟨h.sound, h.opened, inv.inert (hedge hplain.usesAck hle) ?_⟩
      exact .of_eq rfl rfl rfl rfl rfl rfl
    exact hacked.onReceiveACK inv hb hstep

theorem accept (inv : CallInvariant P) (h : Steady P b s) {ip : Packet} {s' : TCPSession τ}
    (hb : s.mRemoteFinished → s.mState = .synRcved ∨ s.MayFinish → 1 ≤ b)
    (hedge : EdgeKept P b ip s) (hstep : accept ip s = some s') : Steady P 0 s' := by
  obtain ⟨t, haccepted, rfl⟩ := accept_accepted h.opened hstep
  have hinert := countAccepted_inert ip s
  have hframe := countAccepted_frame ip s
  have hack : (s.countAccepted ip).relativeAck ip = s.relativeAck ip := by
    unfold relativeAck
    rw [hframe.localSeqBase]
  have hcounted : Steady P 0 t := by
    refine (h.inert inv hinert).accepted inv ?_ ?_ haccepted
    · unfold MayFinish
      rw [hframe.remoteFinished, hinert.state]
      exact hb
    · intro hused hle
      rw [hinert.localNext, hack] at hle
      rw [hack]
      refine inv.inert (hedge hused hle) ?_
      exact ⟨hinert.backQueue, hinert.localSeq, rfl, hinert.state, hinert.remoteFinished,
        hinert.trace⟩
  exact hcounted.inert inv (noteTime_inert t)

/-! ### Calls from the tunnel -/

theorem onRemoteFinished (inv : CallInvariant P) (h : Steady P b s) (hb : s.MayFinish → 1 ≤ b) :
    Steady P 0 s.onRemoteFinished := by
  -- a FIN takes one number, whatever else the budget holds
  have hone := h.mono inv (Nat.min_le_left b 1)
  have hnoted : Steady P (min b 1) { s with mRemoteFinished := true } :=
    ⟨h.sound, h.opened, inv.finished hone.holds (Nat.min_le_right b 1)⟩
  refine hnoted.flush inv fun _ hmay => ?_
  have hlt := hb hmay
  omega

theorem onTunnelDisconnected (inv : CallInvariant P) (h : Steady P b s) (reason : U8)
    (hb : s.MayFinish → 1 ≤ b) : Steady P 0 (s.onTunnelDisconnected reason) := by
  unfold TCPSession.onTunnelDisconnected
  split
  · exact h.onRemoteFinished inv hb
  · exact h.onRemoteFinished inv hb
  · exact (h.turn inv (.closed _)).mono inv (Nat.zero_le b)
  · exact (h.turn inv (.closed _)).mono inv (Nat.zero_le b)
  · exact (h.turn inv (.closed _)).mono inv (Nat.zero_le b)
  · exact (h.turn inv (.closed _)).mono inv (Nat.zero_le b)
  · exact (h.resetConnection inv).mono inv (Nat.zero_le b)

-- Each round of the relay takes its chunk off the budget.
theorem relayLoop (inv : CallInvariant P) (fuel : Nat) {data : Bytes} {s : TCPSession τ}
    (h : Steady P data.length s) : Steady P 0 (relayLoop fuel data s).2 := by
  induction fuel generalizing data s with
  | zero => exact h.mono inv (Nat.zero_le _)
  | succ fuel ih =>
    unfold TCPSession.relayLoop
    by_cases hdata : data = []
    · rw [if_pos hdata]
      exact h.mono inv (Nat.zero_le _)
    · rw [if_neg hdata]
      have htake : (data.take TCP_IP_PAYLOAD_SIZE).length ≤ TCP_IP_PAYLOAD_SIZE :=
        List.length_take_le _ _
      have hpushed := h.push inv (List.length_take_le' TCP_IP_PAYLOAD_SIZE data) htake
      split
      next heq =>
        rw [heq] at hpushed
        exact hpushed.mono inv (Nat.zero_le _)
      next heq =>
        rw [heq] at hpushed
        refine ih (hpushed.mono inv ?_)
        rw [List.length_drop, List.length_take]
        omega

theorem onTunnelDataBack (inv : CallInvariant P) {data : Bytes} (h : Steady P b s)
    (hb : s.demand (.tunnelDataBack data) ≤ b) : Steady P 0 (s.onTunnelDataBack data) := by
  unfold demand at hb
  unfold TCPSession.onTunnelDataBack
  by_cases hdata : data = []
  · simp only [if_pos hdata] at hb ⊢
    have hpaused : Steady P 0 (TCPSession.onRemoteFinished
        { s with mTunnel := ITunnel.pauseReceiveData s.mTunnel }) := by
      refine (h.inert inv ?_).onRemoteFinished inv fun hmay => ?_
      · exact .of_eq rfl rfl rfl rfl rfl rfl
      · exact (if_pos (show s.MayFinish from hmay)).symm.trans_le hb
    exact hpaused.inert inv (noteTime_inert _)
  · simp only [if_neg hdata] at hb ⊢
    have hrelayed := (h.mono inv hb).relayLoop inv data.length
    have hcounted := hrelayed.inert inv (countRecv_inert (TCPSession.relayLoop data.length data s).1 _)
    exact (hcounted.inert inv (pauseIfFull_inert _)).inert inv (noteTime_inert _)

theorem onTunnelWritable (inv : CallInvariant P) (h : Steady P b s)
    (hb : s.MayFinish → 1 ≤ b) : Steady P 0 s.onTunnelWritable := by
  rcases onTunnelWritable_cases s with hinert | ⟨-, reason, n, -, heq⟩
  · exact (h.inert inv hinert).mono inv (Nat.zero_le b)
  · rw [heq]
    refine Steady.inert inv ?_ (countSent_inert n _)
    exact (h.inert inv (drained_inert s)).onTunnelDisconnected inv reason hb

end Steady

omit [ITunnel τ] in
theorem modify_sound {s : TCPSession τ} (h : s.BackSound) (i n : Nat) :
    BackSound { s with mBackQueue := s.mBackQueue.modify i (routerWrote n) } := by
  intro d hd
  obtain ⟨j, hj, rfl⟩ := List.mem_iff_getElem.mp hd
  rw [List.getElem_modify]
  split
  · exact routerWrote_sound n (h _ (List.getElem_mem _))
  · exact h _ (List.getElem_mem _)

-- A step of the session itself keeps a `CallInvariant` within the numbers it may use up, provided
-- that the left edge it sets is harmless.
theorem CallInvariant.step {P : Nat → TCPSession τ → Prop} (inv : CallInvariant P) {b : Nat}
    {s s' : TCPSession τ} {e : Event τ} (h : Steady P b s) (hb : s.demand e ≤ b)
    (hedge : ∀ ip, e = .accept ip → Steady.EdgeKept P b ip s) (hown : ∀ i n, e ≠ .written i n)
    (hstep : step s e = some s') : Steady P 0 s' := by
  cases e with
  | accept ip =>
    refine h.accept inv (fun hfinished hmay => ?_) (hedge ip rfl) hstep
    exact (if_pos ⟨hfinished, hmay⟩).symm.trans_le hb
  | tunnelConnected =>
    cases hstep
    exact h.mono inv (Nat.zero_le b)
  | tunnelDisconnected reason =>
    cases hstep
    exact h.onTunnelDisconnected inv reason fun hmay => (if_pos hmay).symm.trans_le hb
  | tunnelWritable =>
    cases hstep
    exact h.onTunnelWritable inv fun hmay => (if_pos hmay).symm.trans_le hb
  | tunnelDataBack data =>
    cases hstep
    exact h.onTunnelDataBack inv hb
  | written i n => exact absurd rfl (hown i n)
  | environment tunnel now rand =>
    cases hstep
    refine (h.inert inv ?_).mono inv (Nat.zero_le b)
    exact .of_eq rfl rfl rfl rfl rfl rfl

-- A step keeps a `CallInvariant` that the router's part in the segments keeps, whoever takes it.
theorem CallInvariant.stepOrWritten {P : Nat → TCPSession τ → Prop} (inv : CallInvariant P)
    (hwritten : ∀ {b : Nat} {s : TCPSession τ} (i n : Nat), P b s →
      P b { s with mBackQueue := s.mBackQueue.modify i (routerWrote n) })
    {b : Nat} {s s' : TCPSession τ} {e : Event τ} (h : Steady P b s) (hb : s.demand e ≤ b)
    (hedge : ∀ ip, e = .accept ip → Steady.EdgeKept P b ip s) (hstep : TCPSession.step s e = some s') :
    Steady P 0 s' := by
  by_cases hown : ∃ i n, e = .written i n
  · obtain ⟨i, n, rfl⟩ := hown
    cases hstep
    exact ⟨modify_sound h.sound i n, h.opened, inv.mono (hwritten i n h.holds) (Nat.zero_le b)⟩
  · exact inv.step h hb hedge (fun i n heq => hown ⟨i, n, heq⟩) hstep

theorem StepInvariant.step {P : Nat → TCPSession τ → Prop} (inv : StepInvariant P) {b : Nat}
    {s s' : TCPSession τ} {e : Event τ} (h : Steady P b s) (hb : s.demand e ≤ b)
    (hedge : ∀ ip, e = .accept ip → Steady.EdgeKept P b ip s) (hstep : step s e = some s') :
    Steady P 0 s' :=
  inv.toPartInvariant.call.stepOrWritten inv.written h hb hedge hstep

-- What every session keeps from its SYN on.
def Opened (s : TCPSession τ) : Prop := s.BackSound ∧ s.mState ≠ .listen

theorem true_invariant : StepInvariant fun _ (_ : TCPSession τ) => True where
  mono _ _ := trivial
  inert _ _ := trivial
  finished _ := trivial
  pop _ := trivial
  sent _ _ _ _ := trivial
  reset _ := trivial
  switch _ _ := trivial
  number _ _ _ _ := trivial
  refuse _ _ _ := trivial
  written _ _ _ := trivial

theorem step_opened {s s' : TCPSession τ} {e : Event τ} (h : s.Opened)
    (hstep : step s e = some s') : s'.Opened := by
  have hsteady : Steady (fun _ _ => True) (s.demand e) s := ⟨h.1, h.2, trivial⟩
  have hafter := true_invariant.step hsteady (Nat.le_refl _) (fun _ _ _ _ => trivial) hstep
  exact ⟨hafter.sound, hafter.opened⟩

end TCPSession

end NetCore
