import NetCore.TCPSession.Sequence

/-!
# What a flush hands to the router

The send loop looks at the front of the queue and stops behind it.  The front goes out if it starts
at the left edge, waits for nothing and is smaller as a packet, headers included, than the window
and than 2^16; a front ahead of the edge resets the connection.

A flush is called in the middle of an event, when the edge, the window and the queue are no longer
those the event has found.  `Amid s t` holds of every such `t`: its queue holds what `s` held and
what has been built since.
-/

namespace NetCore

def TracePoint.package : TracePoint → Option TCPDatagram
  | .writePackage d => some d
  | _ => none

namespace TCPSession

variable {τ : Type}

/-- What the router has been handed between `s` and `s'`. -/
def handedSince (s s' : TCPSession τ) : List TCPDatagram :=
  (s'.trace.drop s.trace.length).filterMap TracePoint.package

theorem handedSince_of_trace {s s' : TCPSession τ} {points : List TracePoint}
    (h : s'.trace = s.trace ++ points) :
    handedSince s s' = points.filterMap TracePoint.package := by
  unfold handedSince
  rw [h, List.drop_left]

-- A change that records no hand-over adds nothing behind.
theorem handedSince_quiet {s t t' : TCPSession τ} {kind : TracePoint → Bool}
    (hgrows : ∃ points, t.trace = s.trace ++ points) (h : Records kind t t')
    (hkind : ∀ p, kind p → p.package = none) : handedSince s t' = handedSince s t := by
  obtain ⟨points, hpoints⟩ := hgrows
  obtain ⟨more, hmore, hall⟩ := h
  have hnone : more.filterMap TracePoint.package = [] :=
    List.filterMap_eq_nil_iff.mpr fun p hp => hkind p (hall p hp)
  rw [handedSince_of_trace hpoints]
  rw [hpoints, List.append_assoc] at hmore
  rw [handedSince_of_trace hmore, List.filterMap_append, hnone, List.append_nil]

-- Nor does one that comes before.
theorem handedSince_behind {s t t' : TCPSession τ} {kind : TracePoint → Bool}
    (h : Records kind s t) (hkind : ∀ p, kind p → p.package = none)
    (hgrows : ∃ points, t'.trace = t.trace ++ points) : handedSince s t' = handedSince t t' := by
  obtain ⟨points, hpoints, hall⟩ := h
  obtain ⟨more, hmore⟩ := hgrows
  have hnone : points.filterMap TracePoint.package = [] :=
    List.filterMap_eq_nil_iff.mpr fun p hp => hkind p (hall p hp)
  rw [handedSince_of_trace hmore]
  rw [hpoints, List.append_assoc] at hmore
  rw [handedSince_of_trace hmore, List.filterMap_append, hnone, List.nil_append]

theorem package_of_releasing {p : TracePoint} (h : p.releasing) : p.package = none := by
  cases p <;> first | rfl | cases h

theorem package_of_switching {p : TracePoint} (h : p.switching) : p.package = none := by
  cases p <;> first | rfl | cases h

-- The pop loop stops at a segment it does not take.
theorem popAcked_front {s : TCPSession τ} {d : TCPDatagram} {rest : List TCPDatagram}
    (h : s.popAcked.mBackQueue = d :: rest) : popsSegment s.mLocalNext d = false := by
  rw [popAcked_mBackQueue] at h
  have hhead := List.head?_dropWhile_not (popsSegment s.mLocalNext) s.mBackQueue
  rw [h] at hhead
  simpa using hhead

theorem not_below_of_stays {next : U32} {d : TCPDatagram} (h : popsSegment next d = false) :
    ¬ d.mSeq < next := by
  intro hlt
  simp [popsSegment, hlt] at h

variable [ITunnel τ]

/-! ## In the middle of an event -/

/-- A segment that was in the queue of `s`, or has been built since, handed over or not. -/
inductive Carried (s : TCPSession τ) : TCPDatagram → Prop
  | queued {d : TCPDatagram} : d ∈ s.mBackQueue → Carried s d
  | built (u : TCPSession τ) (flag : U8) {data : Bytes} :
      data.length ≤ TCP_IP_PAYLOAD_SIZE → Carried s (u.newSegment flag data)
  | sent {d : TCPDatagram} : Carried s d → Carried s (handedOver d)

/-- The code of an event that has started in `s` can be at `t`. -/
def Amid (s t : TCPSession τ) : Prop := ∀ d ∈ t.mBackQueue, s.Carried d

theorem Amid.refl (s : TCPSession τ) : s.Amid s := fun _ hd => .queued hd

theorem Carried.sound {s : TCPSession τ} (hs : s.BackSound) {d : TCPDatagram} (h : s.Carried d) :
    d.Sound := by
  induction h with
  | queued hd => exact hs _ hd
  | built u flag hdata => exact newSegment_sound flag u hdata
  | sent _ ih => exact handedOver_sound ih

theorem Amid.sound {s t : TCPSession τ} (h : s.Amid t) (hs : s.BackSound) : t.BackSound :=
  fun d hd => (h d hd).sound hs

-- Whatever the code of an event does to the queue keeps it so.
theorem amid_invariant (s : TCPSession τ) : PartInvariant fun _ t => s.Amid t where
  mono h _ := h
  inert {_ t t'} h hinert := by
    intro d hd
    rw [hinert.backQueue] at hd
    exact h d hd
  finished h := h
  pop {_ t} h := by
    intro d hd
    rw [popAcked_mBackQueue] at hd
    exact h d ((List.dropWhile_sublist _).mem hd)
  sent {_ t d rest} h _ hqueue _ := by
    have hall : ∀ x ∈ d :: rest, s.Carried x := hqueue ▸ h
    intro x hx
    rcases List.mem_cons.mp hx with rfl | hx
    · exact .sent (hall d List.mem_cons_self)
    · exact hall x (List.mem_cons_of_mem d hx)
  reset {_ t} h := by
    intro d hd
    rw [resetConnection_backQueue] at hd
    exact h d hd
  switch {_ t} state h := by
    intro d hd
    rw [switchState_backQueue] at hd
    exact h d hd
  number {_ t flag data} h _ _ hdata := by
    intro d hd
    rw [enqueueBack_mBackQueue] at hd
    rcases List.mem_append.mp hd with hd | hd
    · exact h d hd
    · rw [List.mem_singleton.mp hd]
      exact .built t flag hdata
  refuse _ h _ := h

-- So it is where the event ends, too.
theorem step_amid {s s' : TCPSession τ} {e : Event τ} (h : s.Opened)
    (hown : ∀ i n, e ≠ .written i n) (hstep : step s e = some s') : s.Amid s' := by
  have hsteady : Steady (fun _ t => s.Amid t) (s.demand e) s := ⟨h.1, h.2, .refl s⟩
  refine ((amid_invariant s).call.step hsteady (Nat.le_refl _) ?_ hown hstep).holds
  exact fun _ _ _ _ => .refl s

/-! ## The front -/

/-- The queue the send loop of a flush finds: what is left after popping, or the FIN just pushed. -/
def offered (s : TCPSession τ) : List TCPDatagram :=
  if s.popAcked.FinDue then
    if s.mLocalSeq < s.mLocalNext then [] else [s.popAcked.newSegment (FIN ||| ACK) []]
  else s.popAcked.mBackQueue

/-- The front lies ahead of the left edge. -/
def Disordered (s : TCPSession τ) : Prop :=
  ∃ d rest, s.offered = d :: rest ∧ s.mLocalNext < d.mSeq

omit [ITunnel τ] in
-- The comparison of the send loop, on the true size.
theorem fits_iff {s : TCPSession τ} {d : TCPDatagram} (hd : d.Sound) :
    BitVec.ofNat 32 d.size < s.sendLimit ↔
      d.size < min s.mSendWindow.toNat TCP_MAX_SEND_WINDOW.toNat := by
  have hlt := Nat.lt_of_le_of_lt d.size_le_capacity hd.capacity_lt
  rw [BitVec.lt_def, BitVec.toNat_ofNat, Nat.mod_eq_of_lt hlt, sendLimit]
  by_cases hwide : TCP_MAX_SEND_WINDOW < s.mSendWindow
  · rw [if_pos hwide]
    have hwide' := BitVec.lt_def.mp hwide
    omega
  · rw [if_neg hwide]
    have hnarrow : ¬ TCP_MAX_SEND_WINDOW.toNat < s.mSendWindow.toNat := fun h =>
      hwide (BitVec.lt_def.mpr h)
    omega

-- All a reset hands over is its RST.
theorem resetConnection_handed (s : TCPSession τ) :
    ∃ rst, handedSince s s.resetConnection = [rst] ∧ rst.mFlag = RST ||| ACK := by
  obtain ⟨t, hsent⟩ := s.rstSent_trace
  refine ⟨handedOver t.rstSegment, ?_, rfl⟩
  rw [resetConnection_eq, handedSince_quiet ⟨_, hsent⟩ (switchState_records .closed s.rstSent)
    fun _ => package_of_switching, handedSince_of_trace hsent]
  rfl

theorem sendBackData_grows {s : TCPSession τ} (hsound : s.BackSound) :
    ∃ points, s.sendBackData.trace = s.trace ++ points := by
  rcases sendBackData_cases hsound with ⟨_, _, -, -, heq⟩ | ⟨d, rest, -, -, -, heq⟩ | ⟨-, heq⟩
  · obtain ⟨points, htrace, -⟩ := s.resetConnection_records
    rw [heq]
    exact ⟨points, htrace⟩
  · obtain ⟨points, htrace, -⟩ := sentFront_records d rest s
    rw [heq, resumeIfRoom_trace]
    exact ⟨points, htrace⟩
  · rw [heq, resumeIfRoom_trace]
    exact ⟨[], (List.append_nil _).symm⟩

-- Without disorder the send loop hands its front over or nothing.
theorem sendBackData_handed {s : TCPSession τ} (hsound : s.BackSound)
    (horder : ∀ d rest, s.mBackQueue = d :: rest → ¬ s.mLocalNext < d.mSeq) :
    (∃ d rest, s.mBackQueue = d :: rest ∧ s.SendsFront d ∧
      handedSince s s.sendBackData = [handedOver d]) ∨
    ((∀ d rest, s.mBackQueue = d :: rest → ¬ s.SendsFront d) ∧
      handedSince s s.sendBackData = []) := by
  rcases sendBackData_cases hsound with
    ⟨d, rest, hqueue, hahead, -⟩ | ⟨d, rest, hqueue, -, hsends, heq⟩ | ⟨hwaits, heq⟩
  · exact absurd hahead (horder d rest hqueue)
  · refine .inl ⟨d, rest, hqueue, hsends, ?_⟩
    have htrace : s.sendBackData.trace = s.trace ++ packagePoints (handedOver d) s := by
      rw [heq, resumeIfRoom_trace]
      rfl
    rw [handedSince_of_trace htrace]
    rfl
  · refine .inr ⟨fun d rest hqueue => (hwaits d rest hqueue).2, ?_⟩
    have htrace : s.sendBackData.trace = s.trace ++ [] := by
      rw [heq, resumeIfRoom_trace, List.append_nil]
    rw [handedSince_of_trace htrace]
    rfl

/-! ## The flush -/

omit [ITunnel τ] in
theorem popAcked_mSendWindow (s : TCPSession τ) : s.popAcked.mSendWindow = s.mSendWindow := by
  obtain ⟨_, _, _, heq, -⟩ := s.popAcked_eq
  rw [heq]

-- The flush of `s` runs its send loop in `u`.
structure Offers (s u : TCPSession τ) : Prop where
  queue : u.mBackQueue = s.offered
  localNext : u.mLocalNext = s.mLocalNext
  sendWindow : u.mSendWindow = s.mSendWindow
  sound : u.BackSound
  notBelow : ∀ d rest, s.offered = d :: rest → ¬ d.mSeq < s.mLocalNext
  quiet : Records (fun p => p.package.isNone) s u
  flush : s.flushBackQueue = u.sendBackData ∨ s.flushBackQueue = u.sendBackData.leave

omit [ITunnel τ] in
theorem popAcked_quiet (s : TCPSession τ) :
    Records (fun p => p.package.isNone) s s.popAcked := by
  refine (popAcked_records s).mono fun p hp => ?_
  rw [package_of_releasing hp]
  rfl

-- A flush offers a queue to the send loop, or its FIN is refused.
theorem flush_offers {s : TCPSession τ} (hsound : s.BackSound) :
    (∃ u, s.Offers u) ∨
    (s.offered = [] ∧ Records (fun p => p.package.isNone) s s.flushBackQueue) := by
  by_cases hfin : s.popAcked.FinDue
  · by_cases hlt : s.mLocalSeq < s.mLocalNext
    · refine .inr ⟨?_, ?_⟩
      · rw [offered, if_pos hfin, if_pos hlt]
      · rw [flushBackQueue_fin_refused hfin hlt]
        exact (popAcked_quiet s).trans (emit_records (by simp [TracePoint.package]) _)
    · have hle : s.mLocalNext ≤ s.mLocalSeq := by bv_omega
      have hoffered : s.offered = [s.popAcked.newSegment (FIN ||| ACK) []] := by
        rw [offered, if_pos hfin, if_neg hlt]
      refine .inl ⟨s.popAcked.enqueueBack (FIN ||| ACK) [], ?_, ?_, ?_, ?_, ?_, ?_, ?_⟩
      · rw [enqueueBack_mBackQueue, hfin.2.2, hoffered, List.nil_append]
      · rw [enqueueBack_mLocalNext, (popAcked_frame s).localNext]
      · exact popAcked_mSendWindow s
      · exact enqueueBare_sound (popAcked_sound hsound) _
      · intro d rest hqueue
        rw [hoffered] at hqueue
        cases hqueue
        rw [newSegment_mSeq, popAcked_mLocalSeq]
        exact hlt
      · exact (popAcked_quiet s).trans (emit_records (by simp [TracePoint.package]) _)
      · exact .inr (flushBackQueue_fin hfin hle)
  · have hoffered : s.offered = s.popAcked.mBackQueue := if_neg hfin
    refine .inl ⟨s.popAcked, hoffered.symm, (popAcked_frame s).localNext, popAcked_mSendWindow s,
      popAcked_sound hsound, ?_, popAcked_quiet s, .inl (flushBackQueue_of_not_finDue hfin)⟩
    intro d rest hqueue
    exact not_below_of_stays (popAcked_front (hoffered.symm.trans hqueue))

-- The change of state behind a FIN hands nothing over.
theorem Offers.handed {s u : TCPSession τ} (h : s.Offers u) :
    handedSince s s.flushBackQueue = handedSince u u.sendBackData := by
  have hgrows := sendBackData_grows h.sound
  have hnone (p : TracePoint) (hp : p.package.isNone = true) : p.package = none :=
    Option.isNone_iff_eq_none.mp hp
  have hbehind := handedSince_behind h.quiet hnone hgrows
  rcases h.flush with heq | heq
  · rw [heq]
    exact hbehind
  · obtain ⟨points, hpoints, -⟩ := h.quiet
    obtain ⟨more, hmore⟩ := hgrows
    rw [hpoints, List.append_assoc] at hmore
    rw [heq, leave, handedSince_quiet ⟨_, hmore⟩ (switchState_records _ _)
      fun _ => package_of_switching]
    exact hbehind

/-- The packet is smaller than the window, and than what is ever sent at once. -/
def Fits (s : TCPSession τ) (d : TCPDatagram) : Prop :=
  d.size < min s.mSendWindow.toNat TCP_MAX_SEND_WINDOW.toNat

instance (s : TCPSession τ) (d : TCPDatagram) : Decidable (s.Fits d) :=
  inferInstanceAs (Decidable (_ < _))

theorem Offers.sendsFront_iff {s u : TCPSession τ} (h : s.Offers u) {d : TCPDatagram}
    (hd : d ∈ s.offered) :
    u.SendsFront d ↔ s.Fits d ∧ d.isBuffering = false ∧ d.mACKed = false := by
  have hfits := fits_iff (s := u) (h.sound d (h.queue ▸ hd))
  rw [h.sendWindow] at hfits
  exact and_congr_left' hfits

structure WindowSafe (s : TCPSession τ) : Prop where
  front : ¬ s.Disordered → handedSince s s.flushBackQueue = [] ∨
    ∃ d rest, s.offered = d :: rest ∧ handedSince s s.flushBackQueue = [handedOver d] ∧
      d.mSeq = s.mLocalNext ∧ d.isBuffering = false ∧ d.mACKed = false ∧ s.Fits d
  reset : s.Disordered → ∃ u : TCPSession τ, u.mBackQueue = s.offered ∧
    (s.flushBackQueue = u.resetConnection ∨ s.flushBackQueue = u.resetConnection.leave) ∧
    ∃ rst, handedSince s s.flushBackQueue = [rst] ∧ rst.mFlag = RST ||| ACK

theorem windowSafe_of_sound {s : TCPSession τ} (hsound : s.BackSound) : s.WindowSafe := by
  rcases flush_offers hsound with ⟨u, hu⟩ | ⟨hnone, hquiet⟩
  · refine ⟨fun horder => ?_, ?_⟩
    · have horder' : ∀ d rest, u.mBackQueue = d :: rest → ¬ u.mLocalNext < d.mSeq := by
        rw [hu.queue, hu.localNext]
        exact fun d rest hqueue hahead => horder ⟨d, rest, hqueue, hahead⟩
      rcases sendBackData_handed hu.sound horder' with
        ⟨d, rest, hqueue, hsends, hhanded⟩ | ⟨-, hhanded⟩
      · right
        have hbelow := hu.notBelow d rest (hu.queue.symm.trans hqueue)
        have hahead := horder' d rest hqueue
        rw [hu.localNext] at hahead
        rw [hu.queue] at hqueue
        obtain ⟨hfits, hfree, hacked⟩ := (hu.sendsFront_iff (hqueue ▸ List.mem_cons_self)).mp hsends
        refine ⟨d, rest, hqueue, hu.handed.trans hhanded, ?_, hfree, hacked, hfits⟩
        bv_omega
      · exact .inl (hu.handed.trans hhanded)
    · rintro ⟨d, rest, hqueue, hahead⟩
      have hreset : u.sendBackData = u.resetConnection := by
        apply sendBackData_ahead (hu.queue.trans hqueue)
        rw [hu.localNext]
        exact hahead
      have hflush := hu.flush
      rw [hreset] at hflush
      refine ⟨u, hu.queue, hflush, ?_⟩
      rw [hu.handed, hreset]
      exact resetConnection_handed u
  · refine ⟨fun _ => .inl ?_, ?_⟩
    · obtain ⟨points, htrace, hpoints⟩ := hquiet
      rw [handedSince_of_trace htrace]
      exact List.filterMap_eq_nil_iff.mpr fun p hp => Option.isNone_iff_eq_none.mp (hpoints p hp)
    · rintro ⟨d, rest, hqueue, -⟩
      rw [hnone] at hqueue
      cases hqueue

theorem run_sound {s s' : TCPSession τ} {es : List (Event τ)} (hborn : s.Born)
    (hrun : Lib.run step s es = some s') : s'.BackSound :=
  (Lib.run_invariant Opened (fun _ _ _ h hstep => step_opened h hstep) hborn.newborn.opened
    hrun).1

/-- At most the front of the queue is handed over, if it starts at the left edge, waits for nothing
    and fits; a front ahead of the edge resets the connection. -/
theorem flush_in_window {s₀ s t : TCPSession τ} {es : List (Event τ)} (hborn : s₀.Born)
    (hrun : Lib.run step s₀ es = some s) (hamid : s.Amid t) : t.WindowSafe :=
  windowSafe_of_sound (hamid.sound (run_sound hborn hrun))

theorem flush_in_window_sample :
    ∃ s : TCPSession TCPTunnel,
      Lib.run step (sampleBorn sampleTunnel)
        [.accept (samplePacket 101 1001 ACK [] (by decide)), .tunnelDataBack [1, 2, 3]] = some s ∧
      s.mBackQueue.length = 1 ∧ s.WindowSafe := by
  have hreach : ∃ s : TCPSession TCPTunnel,
      Lib.run step (sampleBorn sampleTunnel)
        [.accept (samplePacket 101 1001 ACK [] (by decide)), .tunnelDataBack [1, 2, 3]] = some s ∧
      s.mBackQueue.length = 1 := Lib.run_reaches (by decide)
  obtain ⟨s, hrun, hlength⟩ := hreach
  exact ⟨s, hrun, hlength, flush_in_window (sampleBorn_born (by decide)) hrun (.refl s)⟩

/-! ## Progress -/

/-- The flush hands its front over: without payload whatever the window is, with payload at least a
    byte of it if the window is open. -/
structure Progresses (s : TCPSession τ) (d : TCPDatagram) : Prop where
  bare : d.mLength = 0 → handedOver d ∈ handedSince s s.flushBackQueue
  payload : 0 < d.mLength → 0 < s.mSendWindow →
    ∃ x ∈ handedSince s s.flushBackQueue, x.mSeq = d.mSeq ∧ 0 < x.mLength

/-- The loop compares the whole packet with the window: a front that does not fit stays where it
    is, payload or not. -/
theorem progresses_iff {s₀ s t : TCPSession τ} {es : List (Event τ)} {d : TCPDatagram}
    {rest : List TCPDatagram} (hborn : s₀.Born) (hrun : Lib.run step s₀ es = some s)
    (hamid : s.Amid t) (hqueue : t.popAcked.mBackQueue = d :: rest)
    (horder : d.mSeq = t.mLocalNext) (hfree : d.isBuffering = false) (hacked : d.mACKed = false) :
    t.Progresses d ↔ (0 < d.mLength ∧ t.mSendWindow = 0) ∨ t.Fits d := by
  have hsound := hamid.sound (run_sound hborn hrun)
  have hfin : ¬ t.popAcked.FinDue := by
    intro hfin
    rw [hfin.2.2] at hqueue
    cases hqueue
  have hoffered : t.offered = d :: rest := (if_neg hfin).trans hqueue
  have hordered : ¬ t.Disordered := by
    rintro ⟨d', rest', hqueue', hahead⟩
    rw [hoffered] at hqueue'
    cases hqueue'
    rw [horder] at hahead
    exact BitVec.lt_irrefl _ hahead
  have hhanded : handedSince t t.flushBackQueue = if t.Fits d then [handedOver d] else [] := by
    rcases flush_offers hsound with ⟨u, hu⟩ | ⟨hnone, -⟩
    · have hiff := hu.sendsFront_iff (d := d) (hoffered ▸ List.mem_cons_self)
      have horder' : ∀ d' rest', u.mBackQueue = d' :: rest' → ¬ u.mLocalNext < d'.mSeq := by
        rw [hu.queue, hu.localNext]
        exact fun d' rest' hqueue' hahead => hordered ⟨d', rest', hqueue', hahead⟩
      rw [hu.handed]
      rcases sendBackData_handed hu.sound horder' with
        ⟨d', rest', hqueue', hsends, heq⟩ | ⟨hstays, heq⟩
      · rw [hu.queue, hoffered] at hqueue'
        cases hqueue'
        rw [heq, if_pos (hiff.mp hsends).1]
      · have hnot := hstays d rest (hu.queue.trans hoffered)
        rw [heq, if_neg fun hfits => hnot (hiff.mpr ⟨hfits, hfree, hacked⟩)]
    · rw [hoffered] at hnone
      cases hnone
  constructor
  · intro h
    by_cases hfits : t.Fits d
    · exact .inr hfits
    · rw [if_neg hfits] at hhanded
      by_cases hbare : d.mLength = 0
      · have hmem := h.bare hbare
        rw [hhanded] at hmem
        cases hmem
      · refine .inl ⟨Nat.pos_of_ne_zero hbare, ?_⟩
        by_contra hopen
        obtain ⟨x, hx, -⟩ := h.payload (Nat.pos_of_ne_zero hbare) (by bv_omega)
        rw [hhanded] at hx
        cases hx
  · rintro (⟨hpos, hzero⟩ | hfits)
    · refine ⟨fun hbare => absurd hbare (Nat.ne_of_gt hpos), fun _ hopen => ?_⟩
      rw [hzero] at hopen
      exact absurd hopen (BitVec.lt_irrefl 0)
    · rw [if_pos hfits] at hhanded
      refine ⟨fun _ => ?_, fun hpos _ => ⟨handedOver d, ?_, rfl, hpos⟩⟩ <;> rw [hhanded] <;>
        exact List.mem_singleton_self _

def closingPacket (window : U16) (payload : Bytes) (h : payload.length ≤ 60000) : Packet :=
  { samplePacket 101 1001 ACK payload h with window := window }

theorem progresses_sample :
    ∃ (s : TCPSession TCPTunnel) (d : TCPDatagram),
      Lib.run step (sampleBorn sampleTunnel)
        [.accept (closingPacket 0 [] (by decide)), .tunnelDataBack [1, 2, 3]] = some s ∧
      s.popAcked.mBackQueue = [d] ∧
      (s.Progresses d ↔ (0 < d.mLength ∧ s.mSendWindow = 0) ∨ s.Fits d) := by
  have hreach : ∃ s : TCPSession TCPTunnel,
      Lib.run step (sampleBorn sampleTunnel)
        [.accept (closingPacket 0 [] (by decide)), .tunnelDataBack [1, 2, 3]] = some s ∧
      s.popAcked.mBackQueue.length = 1 ∧ s.popAcked.mBackQueue.all fun d =>
        d.mSeq = s.mLocalNext ∧ d.isBuffering = false ∧ d.mACKed = false :=
    Lib.run_reaches (by decide)
  obtain ⟨s, hrun, hlength, hall⟩ := hreach
  obtain ⟨d, hqueue⟩ := List.length_eq_one_iff.mp hlength
  rw [hqueue] at hall
  have hd : d.mSeq = s.mLocalNext ∧ d.isBuffering = false ∧ d.mACKed = false := by simpa using hall
  exact ⟨s, d, hrun, hqueue,
    progresses_iff (sampleBorn_born (by decide)) hrun (.refl s) hqueue hd.1 hd.2.1 hd.2.2⟩

/-- The pure ACK of an upload does not go out into a closed window, and three bytes of download do
    not go out into a window of twenty. -/
theorem front_stuck :
    (sampleBorn sampleTunnel).Born ∧
      (∃ (s : TCPSession TCPTunnel) (d : TCPDatagram),
        Lib.run step (sampleBorn sampleTunnel)
          [.accept (closingPacket 0 [] (by decide)),
            .accept (closingPacket 0 [0x61] (by decide))] = some s ∧
        s.popAcked.mBackQueue = [d] ∧ d.mSeq = s.mLocalNext ∧ d.isBuffering = false ∧
        d.mACKed = false ∧ d.mLength = 0 ∧ handedSince s s.flushBackQueue = []) ∧
      ∃ (s : TCPSession TCPTunnel) (d : TCPDatagram),
        Lib.run step (sampleBorn sampleTunnel)
          [.accept (closingPacket 20 [] (by decide)), .tunnelDataBack [1, 2, 3]] = some s ∧
        s.popAcked.mBackQueue = [d] ∧ d.mSeq = s.mLocalNext ∧ d.isBuffering = false ∧
        d.mACKed = false ∧ d.mLength = 3 ∧ s.mSendWindow = 20 ∧
        handedSince s s.flushBackQueue = [] := by
  refine ⟨sampleBorn_born (by decide), ?_, ?_⟩
  · have hreach : ∃ s : TCPSession TCPTunnel,
        Lib.run step (sampleBorn sampleTunnel)
          [.accept (closingPacket 0 [] (by decide)),
            .accept (closingPacket 0 [0x61] (by decide))] = some s ∧
        s.popAcked.mBackQueue.length = 1 ∧ (s.popAcked.mBackQueue.all fun d =>
          d.mSeq = s.mLocalNext ∧ d.isBuffering = false ∧ d.mACKed = false ∧ d.mLength = 0) ∧
        handedSince s s.flushBackQueue = [] := Lib.run_reaches (by decide)
    obtain ⟨s, hrun, hlength, hall, hnone⟩ := hreach
    obtain ⟨d, hqueue⟩ := List.length_eq_one_iff.mp hlength
    rw [hqueue] at hall
    simp only [List.all_cons, List.all_nil, Bool.and_true, decide_eq_true_eq] at hall
    exact ⟨s, d, hrun, hqueue, hall.1, hall.2.1, hall.2.2.1, hall.2.2.2, hnone⟩
  · have hreach : ∃ s : TCPSession TCPTunnel,
        Lib.run step (sampleBorn sampleTunnel)
          [.accept (closingPacket 20 [] (by decide)), .tunnelDataBack [1, 2, 3]] = some s ∧
        s.popAcked.mBackQueue.length = 1 ∧ (s.popAcked.mBackQueue.all fun d =>
          d.mSeq = s.mLocalNext ∧ d.isBuffering = false ∧ d.mACKed = false ∧ d.mLength = 3) ∧
        s.mSendWindow = 20 ∧ handedSince s s.flushBackQueue = [] := Lib.run_reaches (by decide)
    obtain ⟨s, hrun, hlength, hall, hwindow, hnone⟩ := hreach
    obtain ⟨d, hqueue⟩ := List.length_eq_one_iff.mp hlength
    rw [hqueue] at hall
    simp only [List.all_cons, List.all_nil, Bool.and_true, decide_eq_true_eq] at hall
    exact ⟨s, d, hrun, hqueue, hall.1, hall.2.1, hall.2.2.1, hall.2.2.2, hwindow, hnone⟩

end TCPSession

end NetCore
