import NetCore.System.Outlet
import NetCore.TCPSession.Upload

/-!
# From the packets of the application to the socket

For a session it makes no difference what its tunnel does between two calls, so a session with a socket
of its own runs as any session does.  What the kernel has taken and what is queued is then the stream as
far as it has been acknowledged, and with the write event asked for nothing of it is left behind.
-/

namespace NetCore
namespace DirectSession

open TCPSession (UploadEvent UploadsInOrder)

variable {s t : DirectSession} {S : Bytes} {base : U32}

-- What the tunnel does on its own is a change of the environment.
theorem run_onTunnel (f : TCPTunnel → TCPTunnel) {fs : List (TCPSession.Event TCPTunnel)}
    (h : Lib.run TCPSession.step (s.onTunnel f) fs = some t) :
    Lib.run TCPSession.step s (.environment (f s.mTunnel) s.now s.rand :: fs) = some t := by
  have hfirst : TCPSession.step s (.environment (f s.mTunnel) s.now s.rand) = some (s.onTunnel f) := rfl
  rw [Lib.run_cons fs hfirst]
  exact h

theorem run_closes (reason : U8) :
    Lib.run TCPSession.step s
        [.environment s.mTunnel.destroyTunnel s.now s.rand, .tunnelDisconnected reason] =
      some (TCPSession.onTunnelDisconnected reason (s.onTunnel .destroyTunnel)) :=
  run_onTunnel .destroyTunnel rfl

theorem run_noteConnected {fs : List (TCPSession.Event TCPTunnel)}
    (h : Lib.run TCPSession.step s.noteConnected fs = some t) :
    ∃ tunnel, Lib.run TCPSession.step s (.environment tunnel s.now s.rand :: fs) = some t :=
  ⟨_, run_onTunnel _ h⟩

-- An event is a packet, or a run of the session without one.
theorem step_session {e : Event} (hstep : s.step e = some t) :
    (∃ ip, e = .accept ip ∧ TCPSession.accept ip s = some t) ∨
      ∃ fs, Lib.run TCPSession.step s fs = some t ∧ ∀ ip, .accept ip ∉ fs := by
  cases e with
  | accept ip => exact .inl ⟨ip, rfl, hstep⟩
  | readable outcome =>
    cases outcome with
    | error errno =>
      obtain ⟨-, rfl⟩ := of_whileOpen hstep
      rw [onReadable]
      split
      · exact .inr ⟨_, run_closes _, by simp⟩
      · exact .inr ⟨[], rfl, by simp⟩
    | received data =>
      rw [step] at hstep
      split at hstep
      · obtain ⟨-, rfl⟩ := of_whileOpen hstep
        rw [onReadable]
        split
        · exact .inr ⟨_, run_closes _, by simp⟩
        · have hback : Lib.run TCPSession.step s.noteConnected
              [.tunnelDataBack data, .environment _ _ _] =
              some (onTunnel .touch (TCPSession.onTunnelDataBack data s.noteConnected)) := rfl
          obtain ⟨tunnel, hrun⟩ := run_noteConnected hback
          exact .inr ⟨_, hrun, by simp⟩
      · cases hstep
  | writable =>
    obtain ⟨-, rfl⟩ := of_whileOpen hstep
    have hwritable : Lib.run TCPSession.step s.noteConnected [.tunnelWritable] = some s.onWritable := rfl
    obtain ⟨tunnel, hrun⟩ := run_noteConnected hwritable
    exact .inr ⟨_, hrun, by simp⟩
  | exception error =>
    obtain ⟨-, rfl⟩ := of_whileOpen hstep
    exact .inr ⟨[.tunnelDisconnected (BitVec.ofInt 8 error), .environment _ _ _], rfl, by simp⟩
  | check =>
    obtain ⟨-, rfl⟩ := of_whileOpen hstep
    rw [onPeriodicallyCheck]
    split
    · exact .inr ⟨_, run_closes _, by simp⟩
    · exact .inr ⟨[], rfl, by simp⟩
  | written i n => exact .inr ⟨[.written i n], hstep, by simp⟩
  | reactor call =>
    rw [step] at hstep
    split at hstep
    · cases hstep
    · cases hstep
      exact .inr ⟨[.environment _ _ _], run_onTunnel _ rfl, by simp⟩
  | environment now rand sockBufferSize =>
    cases hstep
    exact .inr ⟨[.environment _ _ _], rfl, by simp⟩

/-! ## The stream -/

def Uploads (S : Bytes) (s : DirectSession) : Event → Prop
  | .accept ip => ip.Plain ∧ TCPSession.Carries S ip s ∧ TCPSession.InOrder ip s
  | _ => True

instance (S : Bytes) (s : DirectSession) : ∀ e, Decidable (Uploads S s e)
  | .accept _ => inferInstanceAs (Decidable (_ ∧ _ ∧ _))
  | .readable _ | .writable | .exception _ | .check | .written _ _ | .reactor _ | .environment _ _ _ =>
    inferInstanceAs (Decidable True)

-- What has been taken and what is queued is what has been acknowledged.
def Uploading (S : Bytes) (base : U32) (s : DirectSession) : Prop :=
  ∃ past, TCPSession.Uploads S base past s

theorem step_uploading {e : Event} (h : Uploading S base s) (hevent : Uploads S s e)
    (hstep : s.step e = some t) : Uploading S base t := by
  obtain ⟨past, h⟩ := h
  rcases step_session hstep with ⟨ip, rfl, haccept⟩ | ⟨fs, hrun, hnone⟩
  · obtain ⟨hplain, hcarries, horder⟩ := hevent
    exact ⟨_, TCPSession.step_uploads (e := .accept ip) h ⟨hplain, hcarries⟩ horder haccept⟩
  · have hquiet : Lib.Along TCPSession.step
        (fun (s : DirectSession) e => s.UploadEvent S e ∧ s.UploadsInOrder e) s fs := by
      refine .of_forall (fun e he s => ?_) s
      cases e with
      | accept ip => exact absurd he (hnone ip)
      | _ => exact ⟨trivial, trivial⟩
    exact ⟨_, Lib.Along.history (TCPSession.Uploads S base)
      (fun _ _ _ _ h hcond hstep => TCPSession.step_uploads h hcond.1 hcond.2 hstep) past h hquiet hrun⟩

theorem born_uploading (hborn : s.Born) : Uploading S s.mRemoteSeqBase s := by
  have hnew := hborn.newborn
  refine ⟨[], hnew.opened, rfl, ?_, ?_, fun i hi hlt => ?_⟩
  · rw [hnew.remoteNext]
    decide
  · have htaken : s.taken = [] := by
      refine List.flatMap_eq_nil_iff.mpr fun p hp => ?_
      have hearly := hnew.trace p hp
      cases p <;> first | rfl | cases hearly
    rw [htaken, hnew.forwardQueue, hnew.remoteNext]
    rfl
  · rw [hnew.remoteNext] at hlt
    have hone : ((1 : U32)).toNat = 1 := rfl
    omega

theorem onWritable_mRemoteNext (s : DirectSession) : s.onWritable.mRemoteNext = s.mRemoteNext := by
  rcases TCPSession.onTunnelWritable_upload s.noteConnected with hsame | hsame
  · exact hsame.remoteNext
  · exact hsame.remoteNext

variable {a : TCPTunnel.Answers} {tunnel tunnel' : TCPTunnel} {hasRemote : Bool}

/-- As long as the payloads come in order, what the kernel has taken and what is queued is the stream as
    far as it has been acknowledged.  What is queued waits for a write event the kernel watches for, and
    the next write event hands over all of it or closes the socket. -/
theorem run_sent {srcPort destPort : U16} {srcAddr destAddr ctrl : U32} {now : Nat} {rand : U32}
    {ip : Packet} {es : List Event} (hready : Ready a tunnel)
    (hestablish : tunnel.establish hasRemote a = (0, tunnel')) (hsyn : NetCore.hasFlag ip.flag SYN)
    (haccept : (TCPSession.init srcPort destPort srcAddr destAddr ctrl tunnel' now rand).accept ip =
      some s)
    (hevents : Lib.Along step (Uploads S) s es) (hrun : Lib.run step s es = some t) :
    t.taken ++ BufferQueue.bytes t.mForwardQueue = S.take (t.mRemoteNext.toNat - 1) ∧
      (0 ≤ t.mTunnel.mSocket → t.mForwardQueue ≠ [] →
        ∃ events, t.mTunnel.Attached a.socket events ∧ events &&& evWRITE = evWRITE) ∧
      ∀ u, step t .writable = some u → 0 ≤ u.mTunnel.mSocket →
        u.taken = S.take (t.mRemoteNext.toNat - 1) := by
  have hborn : s.Born :=
    ⟨_, ip, TCPSession.init_fresh srcPort destPort srcAddr destAddr ctrl tunnel' now rand, hsyn, haccept⟩
  have hfirst := init_outlet hready hestablish srcPort destPort srcAddr destAddr ctrl now rand
  have hstart := (step_tended (e := .accept ip) hfirst haccept).1
  have hkeeps (v : DirectSession) (e : Event) (w : DirectSession)
      (h : v.Outlet a.socket ∧ Uploading S s.mRemoteSeqBase v) (hevent : Uploads S v e)
      (hstep : step v e = some w) : w.Outlet a.socket ∧ Uploading S s.mRemoteSeqBase w :=
    ⟨(step_tended h.1 hstep).1, step_uploading h.2 hevent hstep⟩
  obtain ⟨houtlet, hstream⟩ :=
    Lib.Along.invariant _ hkeeps ⟨hstart, born_uploading hborn⟩ hevents hrun
  refine ⟨?_, fun hopen hne => ?_, fun u hu hopen => ?_⟩
  · obtain ⟨past, h⟩ := hstream
    exact h.stream
  · obtain ⟨events, hattached, hwrite⟩ := houtlet.attached.resolve_left (by omega)
    exact ⟨events, hattached, hwrite hne⟩
  · have hempty := (step_tended houtlet hu).2.emptied rfl hopen
    have hevent : Uploads S t .writable := trivial
    obtain ⟨past, h⟩ := step_uploading hstream hevent hu
    have hall := h.stream
    rw [hempty, BufferQueue.bytes_nil, List.append_nil] at hall
    obtain ⟨-, rfl⟩ := of_whileOpen hu
    rw [hall, onWritable_mRemoteNext]

/-- Three bytes of four, sent in two pieces. -/
theorem run_sent_sample :
    ∃ t u : DirectSession,
      Lib.run step (TCPSession.sampleBorn sampleEstablished)
        [.accept (TCPSession.samplePacket 101 1001 ACK [1, 2, 3] (by decide))] = some t ∧
      step t .writable = some u ∧ 0 ≤ u.mTunnel.mSocket ∧ t.mRemoteNext = 4 ∧
      u.taken = ([1, 2, 3, 4] : Bytes).take (t.mRemoteNext.toNat - 1) := by
  have haccept : (TCPSession.sampleInit sampleEstablished 1000).accept TCPSession.sampleSYN =
      some (TCPSession.sampleBorn sampleEstablished) := by
    have hsome : ((TCPSession.sampleInit sampleEstablished 1000).accept TCPSession.sampleSYN).isSome := by
      decide
    obtain ⟨s, hs⟩ := Option.isSome_iff_exists.mp hsome
    rw [TCPSession.sampleBorn, hs, Option.getD_some]
  have hevents : Lib.Along step (Uploads [1, 2, 3, 4]) (TCPSession.sampleBorn sampleEstablished)
      [.accept (TCPSession.samplePacket 101 1001 ACK [1, 2, 3] (by decide))] := by decide
  have hreach : ∃ t : DirectSession,
      Lib.run step (TCPSession.sampleBorn sampleEstablished)
        [.accept (TCPSession.samplePacket 101 1001 ACK [1, 2, 3] (by decide))] = some t ∧
      t.mRemoteNext = 4 ∧ (step t .writable).any fun u => decide (0 ≤ u.mTunnel.mSocket) :=
    Lib.run_reaches (by decide)
  obtain ⟨t, hrun, hnext, hany⟩ := hreach
  obtain ⟨u, hu, hopen⟩ := (Option.any_eq_true _ _).mp hany
  have hsent :=
    (run_sent sampleUnconnected_ready establish_sample (by decide) haccept hevents hrun).2.2
  exact ⟨t, u, hrun, hu, of_decide_eq_true hopen, hnext, hsent u hu (of_decide_eq_true hopen)⟩

end DirectSession
end NetCore
