import NetCore.System.Ownership

/-!
# `~Router`

The destructor deletes the sessions and clears `mData`.  Deleting a session frees the segments of its
`mBackQueue`, but those the router holds are only marked for it; `clear` deletes them, and what
waits in `mData` besides them.
-/

namespace NetCore

variable {τ : Type} {r : Router} {udp : List UDPFlow}

def BufferQueue.clear (mQueue : List Nat) (memory : Lib.Heap BufferSegment) :
    Lib.Heap BufferSegment :=
  mQueue.foldl (fun memory p => memory.free p) memory

def Router.releaseData (r : Router) : Router :=
  { r with memory := BufferQueue.clear r.mData r.memory, mData := [] }

-- Everything in `mData` is deleted, once, and nothing besides it.
theorem Router.Sound.releaseData (h : r.Sound) :
    r.releaseData.memory.faults = r.memory.faults ∧
      ∀ p, r.releaseData.memory.Live p ↔ r.memory.Live p ∧ p ∉ r.mData := by
  obtain ⟨hfaults, -, hgone, hkept⟩ := Lib.Heap.foldl_free h.nodup fun p hp => (h.fits p).held hp
  refine ⟨hfaults, fun p => ?_⟩
  by_cases hp : p ∈ r.mData
  · have hdead : ¬ r.releaseData.memory.Live p := by
      intro hlive
      obtain ⟨segment, hcell⟩ := hlive.cell
      cases (hgone p hp).symm.trans hcell
    exact iff_of_false hdead fun hboth => hboth.2 hp
  · have hcell : r.releaseData.memory.cells p = r.memory.cells p := hkept p hp
    unfold Lib.Heap.Live
    rw [hcell]
    exact (and_iff_left hp).symm

namespace System

/-- `releaseSessions`, front to back. -/
def releaseSessions : List (TCPHolder τ) → Router → Router
  | [], r => r
  | h :: sessions, r => releaseSessions sessions (h.clearBackQueue r)

/-- `~Router`: the sessions, then `releaseData`.  A UDP session has no segment on the heap. -/
def destroy (s : System τ) : Router := (releaseSessions s.mTCPSessions s.router).releaseData

theorem mData_safeRelease (p : Nat) (r : Router) : (r.safeRelease p).mData = r.mData := by
  unfold Router.safeRelease
  split <;> rfl

theorem mData_clearBackQueue (h : TCPHolder τ) (r : Router) : (h.clearBackQueue r).mData = r.mData := by
  unfold TCPHolder.clearBackQueue
  induction h.segments generalizing r with
  | nil => rfl
  | cons p held ih => exact (ih (r.safeRelease p)).trans (mData_safeRelease p r)

-- What the router holds outlives the session, and so does what is not the session's.
theorem live_clearBackQueue {h : TCPHolder τ} (hagrees : h.Agrees r) (hsound : r.Sound) {p : Nat}
    (hp : p ∉ r.mData) :
    (h.clearBackQueue r).memory.Live p ↔ r.memory.Live p ∧ p ∉ h.segments := by
  have htended := clearBackQueue_tended hagrees hsound
  constructor
  · intro hlive
    obtain ⟨segment, hcell⟩ := hlive.cell
    rcases htended.owed hcell with hmem | ⟨hlt, hout⟩ | ⟨-, hmem⟩
    · cases hmem
    · have hsame := htended.others p hlt hout
      rw [hsame] at hcell
      exact ⟨Lib.Heap.live_of_cell hcell, hout⟩
    · exact (hp (mData_clearBackQueue h r ▸ hmem)).elim
  · rintro ⟨hlive, hout⟩
    unfold Lib.Heap.Live
    rw [htended.others p hlive.lt hout]
    exact hlive

-- The sessions are released one after the other, as `releaseTCP` does it with the first.
theorem releaseSessions_settled {sessions : List (TCPHolder τ)} {router : Router}
    (hsettled : Settled (τ := τ) ⟨router, sessions, udp⟩) :
    Settled (τ := τ) ⟨releaseSessions sessions router, [], udp⟩ ∧
      (releaseSessions sessions router).mData = router.mData ∧
      ∀ p ∉ router.mData, ((releaseSessions sessions router).memory.Live p ↔
        router.memory.Live p ∧ p ∉ queued (τ := τ) ⟨router, sessions, udp⟩) := by
  induction sessions generalizing router with
  | nil => exact ⟨hsettled, rfl, fun p _ => (and_iff_left List.not_mem_nil).symm⟩
  | cons h sessions ih =>
    have hkeeps : Keeps (τ := τ) ⟨router, h :: sessions, udp⟩
        ⟨h.clearBackQueue router, sessions, udp⟩ True := releaseTCP_keeps 0 _
    obtain ⟨hsettled', hdata, hlive⟩ := ih (hkeeps.settled hsettled)
    have hsame := mData_clearBackQueue h router
    refine ⟨hsettled', hdata.trans hsame, fun p hp => ?_⟩
    have hfirst := live_clearBackQueue (hsettled.agrees h List.mem_cons_self) hsettled.sound hp
    have hqueued : p ∈ queued (τ := τ) ⟨router, h :: sessions, udp⟩ ↔
        p ∈ h.segments ∨ p ∈ queued (τ := τ) ⟨h.clearBackQueue router, sessions, udp⟩ :=
      List.mem_append
    show (releaseSessions sessions (h.clearBackQueue router)).memory.Live p ↔ _
    rw [hlive p (hsame ▸ hp), hfirst, hqueued, not_or, and_assoc]

variable {s : System τ} [ITunnel τ]

/-- The destructor deletes no segment twice, and leaves on the heap what is neither in `mData` nor
    in the queue of a session.  Only a reply on the socket of a direct UDP session is such. -/
theorem run_destroyed {es : List (Event τ)} {t : System τ} (hstart : s.Started)
    (hrun : Lib.run step s es = some t) :
    t.destroy.memory.faults = [] ∧
      (∀ p, t.destroy.memory.Live p ↔
        t.router.memory.Live p ∧ p ∉ t.router.mData ∧ p ∉ t.queued) ∧
      (Lib.Along step (fun s e => ¬ s.ReadsReply e) s es → ∀ p, ¬ t.destroy.memory.Live p) := by
  have hsettled := run_settled hstart.settled hrun
  obtain ⟨hreleased, hdata, hlive⟩ := releaseSessions_settled hsettled
  obtain ⟨hfaults, hdestroyed⟩ := hreleased.sound.releaseData
  have hleft (p : Nat) : t.destroy.memory.Live p ↔
      t.router.memory.Live p ∧ p ∉ t.router.mData ∧ p ∉ t.queued := by
    have hdestroyed' : t.destroy.memory.Live p ↔
        (releaseSessions t.mTCPSessions t.router).memory.Live p ∧ p ∉ t.router.mData :=
      hdata ▸ hdestroyed p
    rw [hdestroyed']
    by_cases hp : p ∈ t.router.mData
    · exact iff_of_false (fun hboth => hboth.2 hp) fun hboth => hboth.2.1 hp
    · rw [and_iff_left hp, hlive p hp]
      exact and_congr_right fun _ => (and_iff_right hp).symm
  refine ⟨hfaults.trans hreleased.faults, hleft, fun htidy p hdestroyed' => ?_⟩
  -- what is on the heap is in `mData` or in a queue then
  have haccounted := run_owned_or_waiting hstart htidy hrun
  obtain ⟨hlive', hdata', hqueued⟩ := (hleft p).mp hdestroyed'
  obtain ⟨segment, hcell⟩ := hlive'.cell
  rcases haccounted p segment hcell with hmem | ⟨-, hmem⟩
  · exact hqueued hmem
  · exact hdata' hmem

/-- Two segments are in the queues of the sessions, one of them in `mData` too; nothing is left. -/
theorem run_destroyed_sample :
    ∃ t, Lib.run step sampleSystem busyEvents = some t ∧
      (t.router.mData = [2] ∧ t.queued = [1, 2]) ∧ t.destroy.memory.faults = [] ∧
      (∀ p, t.destroy.memory.Live p ↔
        t.router.memory.Live p ∧ p ∉ t.router.mData ∧ p ∉ t.queued) ∧
      ∀ p, ¬ t.destroy.memory.Live p := by
  have hreach : ∃ t, Lib.run step sampleSystem busyEvents = some t ∧
      (t.router.mData = [2] ∧ t.queued = [1, 2]) := Lib.run_reaches (by decide)
  obtain ⟨t, hrun, hqueues⟩ := hreach
  obtain ⟨hfaults, hleft, hnothing⟩ := run_destroyed sampleSystem_started hrun
  exact ⟨t, hrun, hqueues, hfaults, hleft, hnothing busyEvents_tidy⟩

end System

end NetCore
