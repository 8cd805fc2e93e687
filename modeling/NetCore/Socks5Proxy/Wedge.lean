import NetCore.Socks5Proxy.Handshake
import NetCore.Socks5Proxy.Message

/-!
# What stops the receive side

The loop of `onReadable` takes 0 from `decrypt` for "nothing complete", whether the parcel at the
front is incomplete, holds nothing, cannot be decoded or is longer than the window.  A stream that
meets none of the last three leaves no complete parcel behind.
-/

namespace NetCore

open Cipher

namespace Served

open Socks5Proxy

variable {γ : Type}

/-- The tunnel is over, or what is left to decrypt does not start with a complete parcel. -/
def Unblocked (w : Served γ) : Prop :=
  w.proxy.mS5State.isEnd ∨ parcel w.proxy.mDecryptBuffer.val.readable = none

/-- Bytes that are digested: window after window reads to something, until no complete parcel is
    left. -/
inductive Digested : Bytes → Prop where
  | done {b : Bytes} : parcel b = none → Digested b
  | more {b out rest : Bytes} : readParcels (b.take SOCKS5_SHARE_BUFFER_SZ) = .returned out rest →
      out ≠ [] → Digested (b.drop ((b.take SOCKS5_SHARE_BUFFER_SZ).length - rest.length)) →
      Digested b

-- The buffer stays as it is, and what is over stays over.
structure Onward (w w' : Served γ) : Prop where
  buffer : w'.proxy.mDecryptBuffer = w.proxy.mDecryptBuffer
  stays : w.proxy.mS5State.isEnd → w'.proxy.mS5State.isEnd

variable {w w' w'' : Served γ}

theorem Onward.refl (w : Served γ) : Onward w w := ⟨rfl, id⟩

theorem Onward.trans (h : Onward w w') (h' : Onward w' w'') : Onward w w'' :=
  ⟨h'.buffer.trans h.buffer, fun hend => h'.stays (h.stays hend)⟩

theorem Onward.of_eq (hbuffer : w'.proxy.mDecryptBuffer = w.proxy.mDecryptBuffer)
    (hstate : w'.proxy.mS5State = w.proxy.mS5State) : Onward w w' :=
  ⟨hbuffer, fun hend => by rw [hstate]; exact hend⟩

theorem Onward.of_kept (h : Kept w.proxy w'.proxy) : Onward w w' := .of_eq h.buffer h.state

theorem Onward.unblocked (h : Onward w w') (hopen : w.Unblocked) : w'.Unblocked := by
  rcases hopen with hend | hnone
  · exact .inl (h.stays hend)
  · refine .inr ?_
    rw [h.buffer]
    exact hnone

theorem sendS5_onward (kind : S5Message) (data : Bytes) (w : Served γ) :
    Onward w (w.sendS5 kind data).2 ∧
      (w.sendS5 kind data).2.proxy.mS5State = w.proxy.mS5State := by
  have hstands : w.Stands w.proxy.mS5State w.proxy.mDecryptBuffer.val.readable w.proxy.delivered :=
    ⟨rfl, rfl, rfl⟩
  have hstate := (hstands.sendS5 kind data).1.state
  refine ⟨.of_eq ?_ hstate, hstate⟩
  show (w.proxy.encryptAndQueue (.socks5 kind) data).2.mDecryptBuffer = _
  rcases encryptAndQueue_cases (.socks5 kind) data w.proxy with ⟨-, hkept⟩ | ⟨p, taken, hkept, heq⟩
  · exact hkept.buffer
  · rw [heq]
    exact hkept.buffer

variable [ITunnelClient γ Socks5Proxy]

-- A change of state leads where it says, and an end stays one only if it leads to one.
theorem switchS5State_onward {state : S5State} (h : w.proxy.mS5State.isEnd → state.isEnd) :
    Onward w (w.switchS5State state) ∧ (w.switchS5State state).proxy.mS5State = state := by
  unfold switchS5State
  split
  next hsame => exact ⟨.refl w, hsame⟩
  next =>
    have hentered : Onward w (w.onProxy fun p =>
        .emit (.switched p.mS5State state) { p with mS5State := state }) := ⟨rfl, h⟩
    have hcalled {f : γ → Socks5Proxy → γ × Socks5Proxy}
        (hf : ∀ c p, ITunnel.Calls p (f c p).2) (w : Served γ) : Kept w.proxy (w.callBack f).proxy :=
      kept_of_calls (hf w.mClient w.proxy)
    have hover : ∀ w₁ : Served γ, Kept w₁.proxy
        ((w₁.callBack (ITunnelClient.onTunnelDisconnected 0)).onProxy .destroyTunnel).proxy :=
      fun w₁ => (hcalled (ITunnelClient.disconnected_calls 0) w₁).trans (kept_destroyTunnel _)
    simp only
    cases state with
    | trans =>
      have hkept := hcalled ITunnelClient.writable_calls (w.onProxy fun p =>
        .emit (.switched p.mS5State .trans) { p with mS5State := .trans })
      exact ⟨hentered.trans (.of_kept hkept), hkept.state⟩
    | failed =>
      have hkept := hover (w.onProxy fun p =>
        .emit (.switched p.mS5State .failed) { p with mS5State := .failed })
      exact ⟨hentered.trans (.of_kept hkept), hkept.state⟩
    | ended =>
      have hkept := hover (w.onProxy fun p =>
        .emit (.switched p.mS5State .ended) { p with mS5State := .ended })
      exact ⟨hentered.trans (.of_kept hkept), hkept.state⟩
    | init => exact ⟨hentered, rfl⟩
    | greet => exact ⟨hentered, rfl⟩
    | verify => exact ⟨hentered, rfl⟩
    | connect => exact ⟨hentered, rfl⟩

-- Entering an end.
theorem switchS5State_over {state : S5State} (h : state.isEnd) (w : Served γ) :
    (w.switchS5State state).Unblocked := by
  refine .inl ?_
  rw [(switchS5State_onward fun _ => h).2]
  exact h

-- A message of the handshake, and the change of state behind it.
theorem sentThen_onward (kind : S5Message) (data : Bytes) {state : S5State}
    (h : w.proxy.mS5State.isEnd = false) :
    Onward w ((w.sendS5 kind data).2.switchS5State state) := by
  obtain ⟨hsent, hstate⟩ := sendS5_onward kind data w
  refine hsent.trans (switchS5State_onward fun hend => ?_).1
  rw [hstate, h] at hend
  cases hend

omit [ITunnelClient γ Socks5Proxy] in
theorem sendS5Account_onward (w : Served γ) :
    Onward w w.sendS5Account.2 ∧ w.sendS5Account.2.proxy.mS5State = w.proxy.mS5State := by
  unfold sendS5Account
  split
  · exact sendS5_onward _ _ w
  · exact ⟨.refl w, rfl⟩

theorem message_onward : MessageRelation fun w w' : Served γ => Onward w w' where
  refl := .refl
  trans := Onward.trans
  handled _ _ := .of_eq rfl rfl
  ends _ hend := (switchS5State_onward fun _ => by rcases hend with rfl | rfl <;> rfl).1
  connect hstate := sentThen_onward _ _ (by rcases hstate with h | h <;> rw [h] <;> rfl)
  account {w state} hgreet _ := by
    obtain ⟨hsent, hstate⟩ := sendS5Account_onward w
    refine hsent.trans (switchS5State_onward fun hend => ?_).1
    rw [hstate, hgreet] at hend
    cases hend
  established hconnect := by
    refine (switchS5State_onward fun hend => ?_).1
    rw [hconnect] at hend
    cases hend
  passBack data w _ := by
    have hnoted : Onward w (w.onProxy fun p =>
        .emit (.dataBack data)
          { p with mPayloadDataBack := p.mPayloadDataBack + BitVec.ofNat 32 data.length }) :=
      .of_eq rfl rfl
    exact hnoted.trans (.of_kept (kept_of_calls (ITunnelClient.dataBack_calls data _ _)))

theorem handle_onward (data : Bytes) (w : Served γ) : Onward w (w.handle data) :=
  message_onward.handle data w

/-! ## The loop -/

-- What is over stays over while the loop goes on.
theorem receiveLoop_over {fuel : Nat} (hend : w.proxy.mS5State.isEnd)
    (hloop : receiveLoop fuel w = some w') : w'.proxy.mS5State.isEnd := by
  induction fuel generalizing w with
  | zero => cases hloop
  | succ fuel ih =>
    have hround := steady_decryptBuffered w
    unfold receiveLoop at hloop
    cases hdecrypt : w.decryptBuffered with
    | fault =>
      rw [hdecrypt] at hloop
      cases hloop
    | done next =>
      rw [hdecrypt] at hloop hround
      cases hloop
      rw [hround.state]
      exact hend
    | next data next =>
      rw [hdecrypt] at hloop hround
      refine ih ((handle_onward data next).stays ?_) hloop
      rw [hround.state]
      exact hend

-- No complete parcel is left of bytes that are digested.
theorem receiveLoop_digested {fuel : Nat} {state : S5State} {b d : Bytes} (hb : Digested b)
    (h : w.Stands state b d) (hloop : receiveLoop fuel w = some w') : w'.Unblocked := by
  induction hb generalizing fuel w state d with
  | @done b hnone =>
    cases fuel with
    | zero => cases hloop
    | succ fuel =>
      have hwindow : parcel (b.take SOCKS5_SHARE_BUFFER_SZ) = none := by
        cases hparcel : parcel (b.take SOCKS5_SHARE_BUFFER_SZ) with
        | none => rfl
        | some r =>
          have hwhole := parcel_framing.extend (y := b.drop SOCKS5_SHARE_BUFFER_SZ) hparcel
          rw [List.take_append_drop, hnone] at hwhole
          cases hwhole
      have hread : readParcels (b.take SOCKS5_SHARE_BUFFER_SZ) =
          .returned [] (b.take SOCKS5_SHARE_BUFFER_SZ) := by
        rw [readParcels, readLoop, hwindow]
      obtain ⟨last, hlast, -, hround⟩ := receiveLoop_round fuel h hread
      rw [if_pos rfl] at hlast hround
      rw [hround] at hloop
      cases hloop
      exact .inr (by rw [hlast.buffered, hnone])
  | @more b out rest hread hne _ ih =>
    cases fuel with
    | zero => cases hloop
    | succ fuel =>
      obtain ⟨next, hnext, -, hround⟩ := receiveLoop_round fuel h hread
      rw [if_neg hne] at hnext hround
      rw [hround] at hloop
      have hbuffer := (handle_onward out next).buffer
      refine ih (w := next.handle out) ⟨rfl, ?_, rfl⟩ hloop
      rw [hbuffer, hnext.buffered]

/-! ## Runs -/

/-- The condition on a step: what a read adds is digested with what is there, as long as the tunnel
    is not over. -/
def Digestible (w : Served γ) : Event γ → Prop
  | .readable (.received data) => data ≠ [] → w.proxy.mS5State.isEnd = false → ¬ w.Overflows data →
      Digested (w.proxy.mDecryptBuffer.val.readable ++ data)
  | _ => True

theorem onReadable_unblocked {outcome : ReadOutcome} (h : w.Unblocked)
    (hcond : w.Digestible (.readable outcome)) (hread : w.onReadable outcome = some w') :
    w'.Unblocked := by
  cases outcome with
  | error errno =>
    rw [onReadable] at hread
    split at hread <;> cases hread
    · exact switchS5State_over rfl w
    · exact h
  | received data =>
    have hconnected := noteConnected_kept w
    have hroom : ((w.noteConnected.onProxy (makeRoom data.length)).Stands w.proxy.mS5State
        w.proxy.mDecryptBuffer.val.readable w.proxy.delivered) := by
      obtain ⟨hstate, hbuffered, hpassed⟩ :=
        Stands.of_kept (w := w) ⟨rfl, rfl, rfl⟩ hconnected
      unfold onProxy makeRoom
      split
      · exact ⟨hstate, (Segment.readable_flip _).trans hbuffered, hpassed⟩
      · exact ⟨hstate, hbuffered, hpassed⟩
    rw [onReadable] at hread
    split at hread
    · cases hread
      exact switchS5State_over rfl w
    next hne =>
      simp only at hread
      split at hread
      · cases hread
        exact switchS5State_over rfl _
      next hfits =>
        have hbuffered : ((w.noteConnected.onProxy (makeRoom data.length)).buffer data).Stands
            w.proxy.mS5State (w.proxy.mDecryptBuffer.val.readable ++ data) w.proxy.delivered :=
          ⟨hroom.state, (Segment.readable_write_of_le (Nat.le_of_not_lt hfits)).trans
            (congrArg (· ++ data) hroom.buffered), hroom.passed⟩
        cases hend : w.proxy.mS5State.isEnd with
        | true => exact .inl (receiveLoop_over (by rw [hbuffered.state]; exact hend) hread)
        | false => exact receiveLoop_digested (hcond hne hend hfits) hbuffered hread

omit [ITunnelClient γ Socks5Proxy] in
theorem kept_closeWrite (p : Socks5Proxy) : Kept p p.closeWrite := kept_withReactor _ p

omit [ITunnelClient γ Socks5Proxy] in
theorem countSent_onward (sent : Bytes) (w : Served γ) : Onward w (w.onProxy (countSent sent)) := by
  unfold onProxy countSent
  split
  · exact .of_eq rfl rfl
  · exact .of_kept (kept_closeWrite w.proxy)

omit [ITunnelClient γ Socks5Proxy] in
theorem sendOut_onward (w : Served γ) : Onward w (w.onProxy .sendOut) := by
  obtain ⟨sends, heq⟩ := sendLoop_proxy (sendFuel w.proxy.mOutQueue) w.proxy.mOutQueue w.proxy
  have hwrote (sent : Bytes) (queue : List Segment) : Onward w (w.onProxy fun p =>
      .emit (.wrote sent) { p with sends := sends, mOutQueue := queue }) := .of_eq rfl rfl
  unfold onProxy sendOut
  simp only [heq]
  exact (hwrote _ _).trans (countSent_onward _ _)

omit [ITunnelClient γ Socks5Proxy] in
theorem sendSocks5_onward (w : Served γ) : Onward w (w.onProxy .sendSocks5) := by
  obtain ⟨sends, heq⟩ := sendLoop_proxy (sendFuel w.proxy.mSocks5) w.proxy.mSocks5 w.proxy
  have hwrote (sent : Bytes) (queue : List Segment) : Onward w (w.onProxy fun p =>
      .emit (.wrote sent) { p with sends := sends, mSocks5 := queue }) := .of_eq rfl rfl
  unfold onProxy sendSocks5
  simp only [heq]
  exact (hwrote _ _).trans (countSent_onward _ _)

theorem onWritable_onward (w : Served γ) : Onward w w.onWritable := by
  have hconnected : Onward w w.noteConnected := .of_kept (noteConnected_kept w)
  refine hconnected.trans ?_
  unfold onWritable
  simp only
  split
  next =>
    split
    · exact sendOut_onward _
    · have hcalled := kept_of_calls
        (ITunnelClient.writable_calls w.noteConnected.mClient w.noteConnected.proxy)
      rcases hpair : ITunnelClient.onTunnelWritable w.noteConnected.mClient w.noteConnected.proxy
        with ⟨s, c, p⟩
      rw [hpair] at hcalled
      simp only
      split
      · exact .of_kept (hcalled.trans (kept_closeWrite p))
      · exact .of_kept hcalled
  next hstate => exact sentThen_onward _ _ (by rw [hstate]; rfl)
  next =>
    split
    · exact .of_kept (kept_closeWrite _)
    · exact sendSocks5_onward _

theorem step_unblocked {e : Event γ} (h : w.Unblocked) (hcond : w.Digestible e)
    (hstep : w.step e = some w') : w'.Unblocked := by
  cases e with
  | readable outcome => exact onReadable_unblocked h hcond hstep
  | writable =>
    cases hstep
    exact (onWritable_onward w).unblocked h
  | exception error =>
    cases hstep
    exact switchS5State_over rfl w
  | client c =>
    cases hstep
    exact (Onward.of_kept (kept_of_calls (c.calls w.mClient w.proxy))).unblocked h
  | environment settings cipher =>
    cases hstep
    exact (Onward.of_eq rfl rfl).unblocked h

/-- The receive side never wedges as long as every read brings bytes that are digested. -/
theorem receive_unblocked {events : List (Event γ)} (h : w.Unblocked)
    (hcond : Lib.Along step Digestible w events) (hrun : Lib.run step w events = some w') :
    w'.Unblocked :=
  hcond.invariant Unblocked (fun _ _ _ h hcond hstep => step_unblocked h hcond hstep) h hrun

/-- A read that is digested: one byte without coders. -/
theorem receive_unblocked_sample :
    ∃ w' : Served Unit,
      Lib.run step (sampleServed .trans) [.readable (.received [0, 2, 0, 0x61])] = some w' ∧
      w'.Unblocked := by
  have hempty : (sampleServed .trans).Stands .trans [] [] := ⟨rfl, rfl, rfl⟩
  have hne : ([0, 2, 0, 0x61] : Bytes) ≠ [] := by decide
  have hfits : ([0, 2, 0, 0x61] : Bytes).length ≤ SOCKS5_SHARE_BUFFER_SZ := by decide
  have hletter : readParcels (([0, 2, 0, 0x61] : Bytes).take SOCKS5_SHARE_BUFFER_SZ) =
      .returned [0x61] [] := by decide
  have hnothing : readParcels (([] : Bytes).take SOCKS5_SHARE_BUFFER_SZ) = .returned [] [] := by decide
  have hdigested : Digested ([0, 2, 0, 0x61] : Bytes) :=
    .more hletter (List.cons_ne_nil _ _) (.done (by decide))
  obtain ⟨w, hw, -, hreceived⟩ := onReadable_received hempty (Nat.zero_le _) hne hfits
  obtain ⟨w₁, hw₁, -, hround₁⟩ := receiveLoop_round ([0, 2, 0, 0x61] : Bytes).length hw hletter
  obtain ⟨w₂, -, -, hround₂⟩ := receiveLoop_round 3 (handle_trans [0x61] hw₁) hnothing
  have hstep : (sampleServed .trans).step (.readable (.received [0, 2, 0, 0x61])) = some w₂ :=
    hreceived.trans (hround₁.trans hround₂)
  have hrun : Lib.run step (sampleServed .trans) [.readable (.received [0, 2, 0, 0x61])] = some w₂ := by
    rw [Lib.run_cons [] hstep]
    rfl
  have hcond : (sampleServed .trans).Digestible (.readable (.received [0, 2, 0, 0x61])) := by
    intro _ _ _
    rw [hempty.buffered]
    exact hdigested
  have hstart : (sampleServed .trans).Unblocked := .inr (by rw [hempty.buffered]; rfl)
  exact ⟨w₂, hrun, receive_unblocked hstart (.single hcond) hrun⟩

-- An end mark with nothing in front of it, and a parcel behind it.
def sampleWedge : Bytes := [0, 1, 0, 0, 2, 0, 0x61]

/-- The byte is never passed on: the end mark stays at the front. -/
theorem receive_blocked :
    ∃ w' : Served Unit,
      Lib.run step (sampleServed .trans) [.readable (.received sampleWedge)] = some w' ∧
      w'.proxy.mS5State = .trans ∧ w'.proxy.mDecryptBuffer.val.readable = sampleWedge ∧
      ¬ w'.Unblocked := by
  have hempty : (sampleServed .trans).Stands .trans [] [] := ⟨rfl, rfl, rfl⟩
  have hread : readParcels (sampleWedge.take SOCKS5_SHARE_BUFFER_SZ) =
      .returned [] [0, 2, 0, 0x61] := by decide
  have hne : sampleWedge ≠ [] := by decide
  have hfits : sampleWedge.length ≤ SOCKS5_SHARE_BUFFER_SZ := by decide
  obtain ⟨w, hw, -, hreceived⟩ := onReadable_received hempty (Nat.zero_le _) hne hfits
  obtain ⟨w', hw', -, hround⟩ := receiveLoop_round sampleWedge.length hw hread
  rw [if_pos rfl] at hw' hround
  have hstep : (sampleServed .trans).step (.readable (.received sampleWedge)) = some w' :=
    hreceived.trans hround
  refine ⟨w', ?_, hw'.state, hw'.buffered, fun hopen => ?_⟩
  · rw [Lib.run_cons [] hstep]
    rfl
  · rcases hopen with hend | hnone
    · rw [hw'.state] at hend
      cases hend
    · rw [hw'.buffered] at hnone
      exact absurd hnone (by decide)

end Served

end NetCore
