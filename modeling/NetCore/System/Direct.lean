import NetCore.ITunnel.Gate
import NetCore.System.EndOfStream
import NetCore.TCPSession.Direct
import NetCore.TCPSession.Proxied

/-!
# From the socket of the server to the packets of the application

A session with a socket of its own passes on what it reads.  When it learns that there is no more it
has closed the socket, or closes it before the next event; so the FIN it sends is behind all it has
read, and the application that has it has everything.
-/

namespace NetCore

def DirectSession.Event.read : DirectSession.Event → Bytes
  | .readable (.received data) => data
  | _ => []

namespace DirectSession

open Lib (Assembled)
open TCPSession (Ending Marked KeepsFin calls_relation drainLoop drain)

variable {s t : DirectSession}

-- Once the remote has finished, the socket is closed.
def Shut (s : DirectSession) : Prop := s.mRemoteFinished → s.mTunnel.mSocket < 0

theorem closed_calls {t t' : TCPTunnel} (h : t.mSocket < 0) (hcalls : ITunnel.Calls t t') :
    t'.mSocket < 0 := TCPTunnel.down_calls h hcalls

-- A failing `send` has closed the socket.
theorem drainLoop_failed (fuel : Nat) (queue : List TCPDatagram) (t : TCPTunnel)
    (h : (drainLoop fuel queue t).failed ≠ none) : (drainLoop fuel queue t).tunnel.mSocket < 0 := by
  induction fuel generalizing queue t with
  | zero => exact absurd rfl h
  | succ fuel ih =>
    cases queue with
    | nil => exact absurd rfl h
    | cons d queue =>
      rw [TCPSession.drainLoop_cons] at h ⊢
      cases hsend : ITunnel.sendData t d.readable (!d.hasFlag PSH) with
      | failed reason t' => exact TCPTunnel.sendData_failed hsend
      | sent n t' =>
        rw [hsend] at h
        dsimp only at h ⊢
        split
        next hnone =>
          rw [if_pos hnone] at h
          exact absurd rfl h
        next hsome =>
          rw [if_neg hsome] at h
          exact ih _ _ h

theorem disconnected_closed (reason : U8) (h : s.mTunnel.mSocket < 0) :
    (TCPSession.onTunnelDisconnected reason s).mTunnel.mSocket < 0 :=
  closed_calls h (calls_relation.onTunnelDisconnected reason s).tunnel

theorem shut_onTunnelWritable (h : s.Shut) : Shut (TCPSession.onTunnelWritable s) := by
  rcases TCPSession.onTunnelWritable_cases s with hinert | ⟨-, reason, n, hfailed, heq⟩
  · intro hfinished
    rw [hinert.remoteFinished] at hfinished
    exact closed_calls (h hfinished) (TCPSession.onTunnelWritable_calls s)
  · intro _
    have hdrained : s.drained.mTunnel.mSocket < 0 := by
      refine drainLoop_failed _ _ _ (show (drain s.mForwardQueue s.mTunnel).failed ≠ none from ?_)
      rw [hfailed]
      exact Option.some_ne_none reason
    have hcalled := disconnected_closed reason hdrained
    rw [heq]
    unfold TCPSession.countSent
    split
    · exact hcalled
    · exact closed_calls hcalled (.pauseSendData .refl)

-- A packet makes only calls of the tunnel.
theorem accept_calls {ip : Packet} (h : TCPSession.accept ip s = some t) :
    ITunnel.Calls s.mTunnel t.mTunnel := by
  rcases calls_relation.accept h with hframe | ⟨u, hsu, -, hut⟩
  · exact hframe.tunnel
  · have hqueued : ITunnel.Calls u.mTunnel (u.uploaded ip).mTunnel := by
      show ITunnel.Calls u.mTunnel (if _ then u.mTunnel.requestSendData else u.mTunnel)
      split
      · exact .requestSendData .refl
      · exact .refl
    exact calls_relation.trans (calls_relation.trans hsu.tunnel hqueued) hut.tunnel

/-! ## The session alone -/

theorem ending_unread {stream data : Bytes} (hnone : data = []) (h : Ending (stream ++ data) s) :
    Ending stream s := by
  rw [hnone, List.append_nil] at h
  exact h

theorem ending_onTunnel {stream : Bytes} (f : TCPTunnel → TCPTunnel) (h : Ending stream s) :
    Ending stream (s.onTunnel f) := by
  have hstep : TCPSession.step s (.environment (f s.mTunnel) s.now s.rand) = some (s.onTunnel f) := rfl
  have hkeeps : s.KeepsFin (.environment (f s.mTunnel) s.now s.rand) := fun _ => id
  exact ending_unread rfl (TCPSession.step_ending h hkeeps hstep)

theorem ending_disconnected {stream : Bytes} (reason : U8) (h : Ending stream s) :
    Ending stream (TCPSession.onTunnelDisconnected reason s) := by
  have hstep : TCPSession.step s (.tunnelDisconnected reason) =
      some (TCPSession.onTunnelDisconnected reason s) := rfl
  have hkeeps : s.KeepsFin (.tunnelDisconnected reason) := fun _ => id
  exact ending_unread rfl (TCPSession.step_ending h hkeeps hstep)

theorem of_whileOpen {s' : DirectSession} (h : s.whileOpen s' = some t) :
    0 ≤ s.mTunnel.mSocket ∧ t = s' := by
  unfold whileOpen at h
  split at h
  next hopen => exact ⟨hopen, (Option.some.inj h).symm⟩
  next => cases h

-- The socket is closed, and then the session is told.
theorem ending_closes {stream : Bytes} (reason : U8) (h : Ending stream s) :
    Ending stream (TCPSession.onTunnelDisconnected reason (s.onTunnel .destroyTunnel)) ∧
      Shut (TCPSession.onTunnelDisconnected reason (s.onTunnel .destroyTunnel)) := by
  have hclosed : (s.onTunnel .destroyTunnel).mTunnel.mSocket < 0 := by
    show (-1 : Int) < 0
    omega
  exact ⟨ending_disconnected reason (ending_onTunnel _ h), fun _ => disconnected_closed reason hclosed⟩

theorem ending_received {stream data : Bytes} (h : Ending stream s) (hshut : s.Shut)
    (hopen : 0 ≤ s.mTunnel.mSocket) :
    Ending (stream ++ data) (s.onReadable (.received data)) ∧
      (s.onReadable (.received data)).Shut := by
  by_cases hdata : data = []
  · rw [onReadable, if_pos hdata, hdata, List.append_nil]
    exact ending_closes 0 h
  · -- nothing can have finished before, and bytes finish nothing
    have hnot : ¬ s.mRemoteFinished := fun hfinished => absurd (hshut hfinished) (by omega)
    have hnoted : Ending stream s.noteConnected := ending_onTunnel _ h
    have hstep : TCPSession.step s.noteConnected (.tunnelDataBack data) =
        some (TCPSession.onTunnelDataBack data s.noteConnected) := rfl
    have hkeeps : s.noteConnected.KeepsFin (.tunnelDataBack data) := fun hfinished =>
      absurd hfinished hnot
    rw [onReadable, if_neg hdata]
    refine ⟨ending_onTunnel _ (TCPSession.step_ending hnoted hkeeps hstep), fun hfinished => ?_⟩
    have hopened : s.noteConnected.Opened := ⟨hnoted.finLast.sound, hnoted.finLast.opened⟩
    rcases TCPSession.step_finished hopened hstep hfinished with hbefore | htells
    · exact absurd hbefore hnot
    · exact absurd htells hdata

theorem step_ending {stream : Bytes} {e : Event} (h : Ending stream s) (hshut : s.Shut)
    (hstep : s.step e = some t) : Ending (stream ++ e.read) t ∧ t.Shut := by
  have hopened : s.Opened := ⟨h.finLast.sound, h.finLast.opened⟩
  have hunread {s : DirectSession} (h : Ending stream s) : Ending (stream ++ []) s := by
    rw [List.append_nil]
    exact h
  have hquiet {s t : DirectSession} {e' : TCPSession.Event TCPTunnel} (h : Ending stream s)
      (hdata : ¬ e'.CarriesData) (hnone : e'.download = []) (hstep : TCPSession.step s e' = some t) :
      Ending (stream ++ []) t :=
    hunread (ending_unread hnone (TCPSession.step_ending h (fun _ => hdata) hstep))
  cases e with
  | accept ip =>
    have hrun : TCPSession.step s (.accept ip) = some t := hstep
    refine ⟨hquiet h id rfl hrun, fun hfinished => ?_⟩
    have hbefore := (TCPSession.step_finished hopened hrun hfinished).resolve_right id
    exact closed_calls (hshut hbefore) (accept_calls hstep)
  | readable outcome =>
    cases outcome with
    | error errno =>
      obtain ⟨-, rfl⟩ := of_whileOpen hstep
      rw [onReadable]
      split
      · obtain ⟨hending, hclosed⟩ := ending_closes (BitVec.ofNat 8 errno) h
        exact ⟨hunread hending, hclosed⟩
      · exact ⟨hunread h, hshut⟩
    | received data =>
      rw [step] at hstep
      split at hstep
      · obtain ⟨hopen, rfl⟩ := of_whileOpen hstep
        exact ending_received h hshut hopen
      · cases hstep
  | writable =>
    obtain ⟨-, rfl⟩ := of_whileOpen hstep
    have hnoted : Ending stream s.noteConnected := ending_onTunnel _ h
    have hrun : TCPSession.step s.noteConnected .tunnelWritable = some s.onWritable := rfl
    exact ⟨hquiet hnoted id rfl hrun, shut_onTunnelWritable hshut⟩
  | exception error =>
    obtain ⟨-, rfl⟩ := of_whileOpen hstep
    refine ⟨hunread (ending_onTunnel _ (ending_disconnected _ h)), fun _ => ?_⟩
    show (-1 : Int) < 0
    omega
  | check =>
    obtain ⟨-, rfl⟩ := of_whileOpen hstep
    rw [onPeriodicallyCheck]
    split
    · obtain ⟨hending, hclosed⟩ := ending_closes 0 h
      exact ⟨hunread hending, hclosed⟩
    · exact ⟨hunread h, hshut⟩
  | written i n =>
    have hrun : TCPSession.step s (.written i n) = some t := hstep
    refine ⟨hquiet h id rfl hrun, ?_⟩
    cases hstep
    exact hshut
  | reactor call =>
    rw [step] at hstep
    split at hstep
    · cases hstep
    · cases hstep
      exact ⟨hunread (ending_onTunnel _ h), hshut⟩
  | environment now rand sockBufferSize =>
    have hrun : TCPSession.step s (.environment
        { s.mTunnel with now := now, sockBufferSize := sockBufferSize } now rand) = some t := hstep
    refine ⟨hquiet h id rfl hrun, ?_⟩
    cases hstep
    exact hshut

/-! ## Runs -/

/-- The application gets the bytes of the server in their order, whatever happens to the packets and
    whatever it answers; and if it gets a FIN behind what it has put together, that is all that has
    been read of the server, and the socket is closed. -/
theorem run_untruncated {es : List Event} (hborn : s.Born) (hrun : Lib.run step s es = some t)
    (hreset : .reset ∉ t.trace) (hfits : t.sequence.length ≤ 2 ^ 32) :
    (∀ out, Assembled 1 t.pieces out → out <+: es.flatMap Event.read ∧
      (1 + out.length ∈ t.ends → out = es.flatMap Event.read ∧ t.mTunnel.mSocket < 0)) ∧
    (t.mLocalNext ≤ t.mLocalSeq → t.downloaded = es.flatMap Event.read) := by
  have hstart : ¬ s.mRemoteFinished := Bool.eq_false_iff.mp hborn.newborn.remoteFinished
  have halways : Lib.Along step (fun _ _ => True) s es := .of_forall (fun _ _ _ => trivial) s
  have hinvariant := Lib.Along.history
    (fun past (s : DirectSession) => Ending (past.flatMap Event.read) s ∧ s.Shut)
    (fun past s e t h _ hstep => by
      rw [List.flatMap_append, List.flatMap_singleton]
      exact step_ending h.1 h.2 hstep)
    [] ⟨hborn.ending, fun hfinished => absurd hfinished hstart⟩ halways hrun
  obtain ⟨hending, hshut⟩ := hinvariant
  obtain ⟨hout, hall⟩ := hending.numbers.assembled hending.placed hending.syn hreset hfits
  refine ⟨fun out h => ⟨hout out h, fun hends => ?_⟩, hall⟩
  obtain ⟨hfinished, hlength, -⟩ := hending.ends hreset hfits hends
  refine ⟨(hout out h).eq_of_length ?_, hshut hfinished⟩
  omega

/-- The server sends three bytes and closes. -/
theorem run_untruncated_sample :
    ∃ t : DirectSession,
      Lib.run step (TCPSession.sampleBorn TCPSession.sampleTunnel)
        [.accept (TCPSession.samplePacket 101 1001 ACK [] (by decide)), .readable (.received [1, 2, 3]),
          .accept (TCPSession.samplePacket 101 1004 ACK [] (by decide)), .readable (.received [])] =
        some t ∧
      Assembled 1 t.pieces [1, 2, 3] ∧ 4 ∈ t.ends ∧ t.mTunnel.mSocket < 0 := by
  have hreach : ∃ t : DirectSession,
      Lib.run step (TCPSession.sampleBorn TCPSession.sampleTunnel)
        [.accept (TCPSession.samplePacket 101 1001 ACK [] (by decide)), .readable (.received [1, 2, 3]),
          .accept (TCPSession.samplePacket 101 1004 ACK [] (by decide)), .readable (.received [])] =
        some t ∧
      .reset ∉ t.trace ∧ t.sequence.length ≤ 2 ^ 32 ∧ Assembled 1 t.pieces [1, 2, 3] ∧ 4 ∈ t.ends :=
    Lib.run_reaches (by decide)
  obtain ⟨t, hrun, hreset, hfits, hout, hend⟩ := hreach
  have hborn : (TCPSession.sampleBorn TCPSession.sampleTunnel).Born :=
    TCPSession.sampleBorn_born (by decide)
  have hall := (run_untruncated hborn hrun hreset hfits).1 _ hout
  exact ⟨t, hrun, hout, hend, (hall.2 hend).2⟩

end DirectSession
end NetCore
