import NetCore.Dns.Bounds
import NetCore.Router.OneLive
import NetCore.Router.Readable
import NetCore.UDPSession.Link

/-!
# The lengths of a packet

Nothing between `read` and the sessions compares a length of the packet with the number of bytes that
have been read.  A packet that some session takes is therefore read inside these bytes only if its own
lengths agree with them, and if what `accept` looks for on top of that, the rest of the TCP header, the
options, the names of a DNS message, happens to lie inside, too.
-/

namespace NetCore

/-! ## Lengths that agree -/

/-- The lengths a packet states fit together, and into the `n` bytes that have been read. -/
structure LengthsAgree (ip : Bytes) (n : Nat) : Prop where
  version : getIPVer ip = 4
  header : 20 ≤ getHeaderLen ip
  payload : 0 ≤ getPayloadLen ip
  total : (getTTLEN ip).toNat ≤ n

/-- What `dataoff` declares for options. -/
def optionArea (ip : Bytes) : Bytes :=
  (ip.drop (getHeaderLen ip + 20)).take (optionAreaLen (dataoff ip))

/-- A byte of payload stands behind the option area or the scan ends in it, and the use of what it
    finds lies inside. -/
def OptionUse.Inside (ip : Bytes) (n : Nat) (u : OptionUse) : Prop :=
  (getPayloadOffset ip < n ∨ EndsInside u.option (optionArea ip)) ∧
    ∀ addr, optionScan ip u.option = .found addr →
      0 < u.size → ip.length - addr.length + u.skip + u.size ≤ n

namespace TCPSession

variable {τ : Type} (ip : Bytes) (n : Nat) (s : TCPSession τ)

-- The end of the last field of the TCP header that `accept` reads.
def fieldsEnd : Nat :=
  if NetCore.hasFlag (tcpFlags ip) SYN then if s.mState = .listen then 16 else 14
  else if NetCore.hasFlag (tcpFlags ip) FIN ∨ NetCore.hasFlag (tcpFlags ip) RST then 14
  else if s.mLocalNext ≤ s.ackAt ip ∧ (s.mState = .synRcved ∨ s.mState = .established) ∧
      s.Enqueues ip then 18
  else 16

def scans : List OptionUse :=
  if NetCore.hasFlag (tcpFlags ip) SYN then
    if s.mState = .listen then scansMade ip synOptionUses else []
  else if NetCore.hasFlag (tcpFlags ip) FIN ∨ NetCore.hasFlag (tcpFlags ip) RST then []
  else if s.mLocalNext ≤ s.ackAt ip ∧ s.mState = .established ∧ s.mSack then
    scansMade ip sackUses
  else []

structure AcceptsInside : Prop where
  fields : getHeaderLen ip + s.fieldsEnd ip ≤ n
  options : ∀ u ∈ s.scans ip, u.Inside ip n

end TCPSession

/-- What must lie inside the `n` bytes besides the packet that `TTLEN` measures. -/
def Taker.AcceptsInside {τ : Type} (ip : Bytes) (n : Nat) : Taker τ → Prop
  | udp _ =>
      IsDns ip → Dns.MessageInside (dnsHeader ip) (dnsLength ip) (n - getPayloadOffset ip)
  | tcp s => s.AcceptsInside ip n

namespace Sessions

open SessionList

variable {τ : Type} [ITunnel τ] (setup : TunSetup τ) (read : TunRead) (r : Sessions τ)

/-- A packet is routed to a session, its lengths agree and nothing is read behind it; or it is dropped
    and no session changes. -/
def LengthsChecked : Prop :=
  (∃ t, takerOf setup read r = some t ∧ LengthsAgree read.mIPData read.packet.length ∧
      ∀ i ∈ readableReads setup read r, i < read.packet.length) ∨
    takerOf setup read r = none ∧ ∃ r', onReadable setup read r = some r' ∧
      r'.mTCPSessions = r.mTCPSessions ∧ r'.mUDPSessions = r.mUDPSessions

end Sessions

/-! ## The reads of a getter -/

variable {ip : Bytes} {n : Nat}

theorem getPayloadOffset_udp (h : getProtocol ip = protoUDP) :
    getPayloadOffset ip = getHeaderLen ip + 8 := by
  unfold getPayloadOffset
  rw [if_pos h]

theorem getPayloadOffset_tcp (h : getProtocol ip = protoTCP) :
    getPayloadOffset ip = getHeaderLen ip + (dataoff ip).toNat * 4 := by
  unfold getPayloadOffset
  rw [if_neg (by rw [h]; decide), if_pos h, getTCPHeaderLen_eq]

theorem LengthsAgree.offset_le (h : LengthsAgree ip n) :
    getPayloadOffset ip ≤ (getTTLEN ip).toNat := by
  have hpayload := h.payload
  unfold getPayloadLen at hpayload
  omega

theorem LengthsAgree.udp_le (h : LengthsAgree ip n) (hproto : getProtocol ip = protoUDP) :
    getHeaderLen ip + 8 ≤ n := by
  have hoffset := h.offset_le
  rw [getPayloadOffset_udp hproto] at hoffset
  exact hoffset.trans h.total

theorem LengthsAgree.tcp_le (h : LengthsAgree ip n) (hproto : getProtocol ip = protoTCP) :
    getHeaderLen ip + (dataoff ip).toNat * 4 ≤ n := by
  have hoffset := h.offset_le
  rw [getPayloadOffset_tcp hproto] at hoffset
  exact hoffset.trans h.total

theorem LengthsAgree.capture (h : LengthsAgree ip n) (ctrl : U32) :
    ∀ i ∈ captureReads ctrl ip, i < n := by
  have htotal := h.total
  unfold captureReads
  split
  · rw [List.range_eq_range', forall_range'_lt_iff]
    omega
  · exact List.forall_mem_nil _

theorem LengthsAgree.payloads (h : LengthsAgree ip n) : ∀ i ∈ payloadReads ip, i < n := by
  have htotal := h.total
  have hlen : getPayloadLen ip = (getTTLEN ip).toNat - getPayloadOffset ip := rfl
  apply forall_range'_lt_iff.mpr
  omega

theorem addrReads_lt (h : 20 ≤ n) : ∀ i ∈ addrReads, i < n :=
  forall_range'_lt_iff.mpr fun _ => h

theorem portReads_lt_iff (h : 20 ≤ n) :
    (∀ i ∈ portReads ip, i < n) ↔ getHeaderLen ip + 4 ≤ n := by
  unfold portReads
  rw [List.forall_mem_cons, List.forall_mem_cons, forall_range'_lt_iff]
  omega

theorem headReads_lt (h : 20 ≤ n) : ∀ i ∈ [0, 2, 3, 9], i < n := by
  simp only [List.forall_mem_cons]
  exact ⟨by omega, by omega, by omega, by omega, List.forall_mem_nil _⟩

theorem payloadLenReads_udp (hproto : getProtocol ip = protoUDP) (h : 20 ≤ n) :
    ∀ i ∈ payloadLenReads ip, i < n := by
  have hne : ¬ getProtocol ip = protoTCP := by
    rw [hproto]
    decide
  unfold payloadLenReads
  rw [if_neg hne, List.append_nil]
  exact headReads_lt h

theorem payloadLenReads_tcp (hproto : getProtocol ip = protoTCP) (h : 20 ≤ n) :
    (∀ i ∈ payloadLenReads ip, i < n) ↔ getHeaderLen ip + 12 < n := by
  unfold payloadLenReads
  rw [if_pos hproto, List.forall_mem_append, List.forall_mem_singleton]
  exact and_iff_right (headReads_lt h)

/-! ## The reads of a datagram -/

-- Counted as a `size_t`, a length that is not negative is what it was.
theorem LengthsAgree.dnsLength_eq (h : LengthsAgree ip n) :
    dnsLength ip = (getPayloadLen ip).toNat := by
  have hlen : getPayloadLen ip = (getTTLEN ip).toNat - getPayloadOffset ip := rfl
  have hlt := (getTTLEN ip).isLt
  have hpayload := h.payload
  unfold dnsLength
  rw [BitVec.toNat_ofInt]
  omega

theorem textReads_lt_iff (hproto : getProtocol ip = protoUDP) (h : LengthsAgree ip n) :
    (∀ i ∈ textReads ip, i < n) ↔
      (IsDns ip → Dns.MessageInside (dnsHeader ip) (dnsLength ip) (n - getPayloadOffset ip)) := by
  have hheader := h.header
  have htotal := h.total
  have hudp := h.udp_le hproto
  have hoffset := getPayloadOffset_udp hproto
  have hn : 20 ≤ n := by omega
  have hports : getHeaderLen ip + 4 ≤ n := by omega
  have hroom : dnsLength ip ≤ n - getPayloadOffset ip := by
    have hlen : getPayloadLen ip = (getTTLEN ip).toNat - getPayloadOffset ip := rfl
    rw [h.dnsLength_eq]
    omega
  unfold textReads
  simp only [List.forall_mem_append]
  rw [and_iff_right ⟨⟨addrReads_lt hn, (portReads_lt_iff hn).mpr hports⟩,
    payloadLenReads_udp hproto hn⟩]
  by_cases hdns : IsDns ip
  · rw [if_pos hdns, List.forall_mem_map, forall_prop_of_true hdns, ← Dns.messageReads_lt_iff hroom]
    refine forall₂_congr fun i _ => ?_
    omega
  · rw [if_neg hdns]
    exact iff_of_true (List.forall_mem_nil _) fun hport => absurd hport hdns

theorem UDPSession.acceptReads_lt_iff (hproto : getProtocol ip = protoUDP) (h : LengthsAgree ip n)
    {s : UDPSession} (halive : s.mAlive = true) :
    (∀ i ∈ s.acceptReads ip, i < n) ↔
      (IsDns ip → Dns.MessageInside (dnsHeader ip) (dnsLength ip) (n - getPayloadOffset ip)) := by
  have hheader := h.header
  have hudp := h.udp_le hproto
  have hn : 20 ≤ n := by omega
  unfold acceptReads
  rw [if_neg (by rw [halive]; decide)]
  simp only [List.forall_mem_append]
  rw [and_iff_left h.payloads, and_iff_left (h.capture s.mCtrlType),
    and_iff_right (payloadLenReads_udp hproto hn), textReads_lt_iff hproto h]

/-! ## The option scans -/

theorem optionArea_reads_iff (h : getHeaderLen ip + 20 + optionAreaLen (dataoff ip) ≤ ip.length)
    (option : U8) :
    (∀ i ∈ optionReads option (optionAreaLen (dataoff ip) + 1) (optionAreaLen (dataoff ip))
      (getHeaderLen ip + 20) (ip.drop (getHeaderLen ip + 20)),
        i < getHeaderLen ip + 20 + optionAreaLen (dataoff ip)) ↔
      EndsInside option (optionArea ip) := by
  have harea : (optionArea ip).length = optionAreaLen (dataoff ip) := by
    unfold optionArea
    rw [List.length_take, List.length_drop]
    omega
  have hinside := @optionReads_inside_iff option (optionArea ip)
    ((ip.drop (getHeaderLen ip + 20)).drop (optionAreaLen (dataoff ip))) _
    (Nat.lt_succ_self _) (getHeaderLen ip + 20)
  rw [optionArea, List.take_append_drop, ← optionArea, harea] at hinside
  exact hinside

-- Where a scan reads, by what stands in the area.
theorem optionReads_lt_iff (hproto : getProtocol ip = protoTCP) (h : LengthsAgree ip n)
    (hmem : n ≤ ip.length) (option : U8) :
    (∀ i ∈ optionReads option (optionAreaLen (dataoff ip) + 1) (optionAreaLen (dataoff ip))
      (getHeaderLen ip + 20) (ip.drop (getHeaderLen ip + 20)), i < n) ↔
      getPayloadOffset ip < n ∨ EndsInside option (optionArea ip) := by
  have htcp := h.tcp_le hproto
  have hoffset := getPayloadOffset_tcp hproto
  by_cases hwords : 5 ≤ (dataoff ip).toNat
  · have hend : getHeaderLen ip + 20 + optionAreaLen (dataoff ip) = getPayloadOffset ip := by
      unfold optionAreaLen
      omega
    by_cases hpayload : getPayloadOffset ip < n
    · refine iff_of_true (fun i hi => ?_) (.inl hpayload)
      have hle := optionReads_le hi
      omega
    · -- the area ends with the packet
      have hn : n = getHeaderLen ip + 20 + optionAreaLen (dataoff ip) := by omega
      rw [or_iff_right hpayload, hn]
      exact optionArea_reads_iff (by omega) option
  · have hzero : optionAreaLen (dataoff ip) = 0 := by
      unfold optionAreaLen
      omega
    have hnone : optionReads option (0 + 1) (0 : Nat) (getHeaderLen ip + 20)
        (ip.drop (getHeaderLen ip + 20)) = [] := optionReads_of_nonpos (by omega) 0 _ _
    have harea : optionArea ip = [] := by
      unfold optionArea
      rw [hzero, List.take_zero]
    rw [hzero, hnone, harea, endsInside_of_none rfl]
    exact iff_of_true (List.forall_mem_nil _) (.inr (by simp))

theorem OptionUse.reads_lt_iff (hproto : getProtocol ip = protoTCP) (h : LengthsAgree ip n)
    (hmem : n ≤ ip.length) (u : OptionUse) : (∀ i ∈ u.reads ip, i < n) ↔ u.Inside ip n := by
  unfold reads Inside
  dsimp only
  rw [List.forall_mem_append, optionReads_lt_iff hproto h hmem]
  refine and_congr_right fun _ => ?_
  cases hscan : optionScan ip u.option with
  | found addr =>
    simp only [OptionScan.found.injEq, forall_eq']
    exact forall_range'_lt_iff
  | notFound => simp
  | spins => simp

-- A scan goes on for ever only where there is an area.
theorem dataoff_of_spins {option : U8} (h : optionScan ip option = .spins) :
    6 ≤ (dataoff ip).toNat := by
  by_contra hwords
  have hzero : optionAreaLen (dataoff ip) = 0 := by
    unfold optionAreaLen
    omega
  unfold optionScan at h
  rw [hzero, getOptionAddr, optionLoop_of_nonpos (by omega)] at h
  cases h

theorem scanReads_lt_iff (hproto : getProtocol ip = protoTCP) (h : LengthsAgree ip n)
    (hmem : n ≤ ip.length) (us : List OptionUse) (rest : List Nat) :
    (∀ i ∈ scanReads ip us rest, i < n) ↔
      (∀ u ∈ scansMade ip us, u.Inside ip n) ∧ (ScansEnd ip us → ∀ i ∈ rest, i < n) := by
  unfold scanReads
  rw [List.forall_mem_append, List.forall_mem_flatMap]
  apply and_congr
  · exact forall₂_congr fun u _ => u.reads_lt_iff hproto h hmem
  · by_cases hends : ScansEnd ip us
    · rw [if_pos hends, forall_prop_of_true hends]
    · rw [if_neg hends]
      exact iff_of_true (List.forall_mem_nil _) fun hends' => absurd hends' hends

/-! ## The reads of a segment -/

-- The fixed TCP header lies inside when there is an area whose scan goes on for ever.
theorem fixed_of_not_scansEnd (hproto : getProtocol ip = protoTCP) (h : LengthsAgree ip n)
    {us : List OptionUse} (hspins : ¬ ScansEnd ip us) : getHeaderLen ip + 20 ≤ n := by
  unfold ScansEnd at hspins
  simp only [not_forall, not_not] at hspins
  obtain ⟨u, -, hscan⟩ := hspins
  have hwords := dataoff_of_spins hscan
  have htcp := h.tcp_le hproto
  omega

namespace TCPSession

variable {τ : Type} {s : TCPSession τ}

theorem enqueueReads_lt_iff (hproto : getProtocol ip = protoTCP) (h : LengthsAgree ip n)
    (hflags : getHeaderLen ip + 14 ≤ n) :
    (∀ i ∈ s.enqueueReads ip, i < n) ↔ (s.Enqueues ip → getHeaderLen ip + 18 ≤ n) := by
  have hheader := h.header
  have hlengths := (payloadLenReads_tcp hproto (show 20 ≤ n by omega)).mpr (by omega)
  unfold enqueueReads
  rw [List.forall_mem_append, and_iff_right hlengths]
  by_cases hempty : getPayloadLen ip = 0
  · rw [if_pos hempty]
    refine iff_of_true (List.forall_mem_nil _) fun henqueues => ?_
    have hpos := henqueues.1
    omega
  · rw [if_neg hempty, List.forall_mem_append, and_iff_right (forall_range'_lt_iff.mpr (by omega))]
    by_cases henqueues : s.Enqueues ip
    · have hpayload : ∀ i ∈ if s.repeats ip then [] else payloadReads ip, i < n := by
        split
        · exact List.forall_mem_nil _
        · exact h.payloads
      rw [if_pos henqueues, forall_prop_of_true henqueues, List.forall_mem_append,
        List.forall_mem_cons, and_iff_left hpayload, forall_range'_lt_iff]
      omega
    · rw [if_neg henqueues]
      exact iff_of_true (List.forall_mem_nil _) fun hyes => absurd hyes henqueues

theorem ackReads_lt_iff (hproto : getProtocol ip = protoTCP) (h : LengthsAgree ip n)
    (hmem : n ≤ ip.length) (hflags : getHeaderLen ip + 14 ≤ n) :
    (∀ i ∈ s.ackReads ip, i < n) ↔
      (∀ u ∈ if s.mState = .established ∧ s.mSack then scansMade ip sackUses else [],
        u.Inside ip n) ∧
        ((s.mState = .synRcved ∨ s.mState = .established) ∧ s.Enqueues ip →
          getHeaderLen ip + 18 ≤ n) := by
  have henqueue := enqueueReads_lt_iff (s := s) hproto h hflags
  unfold ackReads
  cases hstate : s.mState with
  | synRcved =>
    simp only [reduceCtorEq, false_and, if_false, List.not_mem_nil, false_imp_iff, implies_true,
      true_and, true_or]
    exact henqueue
  | established =>
    simp only [true_and, or_true]
    rw [scanReads_lt_iff hproto h hmem, henqueue]
    have hscans : scansMade ip (if s.mSack then sackUses else []) =
        if s.mSack then scansMade ip sackUses else [] := by
      split <;> rfl
    rw [hscans]
    refine and_congr_right fun _ => ⟨fun hall henqueues => ?_, fun hall _ => hall⟩
    by_cases hends : ScansEnd ip (if s.mSack then sackUses else [])
    · exact hall hends henqueues
    · have hfixed := fixed_of_not_scansEnd hproto h hends
      omega
  | _ => simp

theorem acceptsInside_iff :
    s.AcceptsInside ip n ↔
      getHeaderLen ip + s.fieldsEnd ip ≤ n ∧ ∀ u ∈ s.scans ip, u.Inside ip n :=
  ⟨fun h => ⟨h.fields, h.options⟩, fun h => ⟨h.1, h.2⟩⟩

theorem numberReads_lt (h : getHeaderLen ip + 14 ≤ n) : ∀ i ∈ numberReads ip, i < n :=
  forall_range'_lt_iff.mpr (by omega)

theorem windowReads_lt_iff : (∀ i ∈ windowReads ip, i < n) ↔ getHeaderLen ip + 16 ≤ n := by
  unfold windowReads
  rw [forall_range'_lt_iff]
  omega

theorem flagReads_lt_iff (hproto : getProtocol ip = protoTCP) (h : LengthsAgree ip n)
    (hmem : n ≤ ip.length) (hflags : getHeaderLen ip + 14 ≤ n) :
    (∀ i ∈ s.flagReads ip, i < n) ↔ s.AcceptsInside ip n := by
  have hnumbers := numberReads_lt hflags
  rw [acceptsInside_iff]
  unfold flagReads fieldsEnd scans
  by_cases hsyn : NetCore.hasFlag (tcpFlags ip) SYN
  · simp only [if_pos hsyn]
    by_cases hlisten : s.mState = .listen
    · simp only [if_pos hlisten]
      rw [scanReads_lt_iff hproto h hmem, List.forall_mem_append, and_iff_left hnumbers,
        windowReads_lt_iff, and_comm]
      refine and_congr_left' ⟨fun hall => ?_, fun hall _ => hall⟩
      by_cases hends : ScansEnd ip synOptionUses
      · exact hall hends
      · have hfixed := fixed_of_not_scansEnd hproto h hends
        omega
    · simp only [if_neg hlisten]
      exact iff_of_true (List.forall_mem_nil _) ⟨hflags, List.forall_mem_nil _⟩
  · simp only [if_neg hsyn]
    by_cases hover : NetCore.hasFlag (tcpFlags ip) FIN ∨ NetCore.hasFlag (tcpFlags ip) RST
    · simp only [if_pos hover]
      refine iff_of_true ?_ ⟨hflags, List.forall_mem_nil _⟩
      rcases hover with hfin | hrst
      · rw [if_pos hfin]
        exact hnumbers
      · rw [if_pos hrst, ite_self]
        exact hnumbers
    · have hnot := not_or.mp hover
      simp only [if_neg hover, if_neg hnot.1, if_neg hnot.2]
      rw [List.forall_mem_append, windowReads_lt_iff]
      by_cases hack : s.mLocalNext ≤ s.ackAt ip
      · simp only [hack, if_true, true_and]
        rw [ackReads_lt_iff hproto h hmem hflags]
        generalize (∀ u ∈ if s.mState = .established ∧ s.mSack then scansMade ip sackUses else [],
          u.Inside ip n) = inside
        by_cases hqueued : (s.mState = .synRcved ∨ s.mState = .established) ∧ s.Enqueues ip
        · rw [if_pos hqueued, forall_prop_of_true hqueued]
          constructor
          · rintro ⟨-, hinside, hpayload⟩
            exact ⟨hpayload, hinside⟩
          · rintro ⟨hpayload, hinside⟩
            exact ⟨by omega, hinside, hpayload⟩
        · rw [if_neg hqueued, and_iff_left fun hyes => absurd hyes hqueued]
      · simp [hack]

-- The flags are read whatever they are.
theorem AcceptsInside.flags (h : s.AcceptsInside ip n) : getHeaderLen ip + 14 ≤ n := by
  have hend : 14 ≤ s.fieldsEnd ip := by
    unfold fieldsEnd
    split_ifs <;> omega
  have hfields := h.fields
  omega

theorem acceptReads_lt_iff (hproto : getProtocol ip = protoTCP) (h : LengthsAgree ip n)
    (hmem : n ≤ ip.length) :
    (∀ i ∈ s.acceptReads ip, i < n) ↔ s.AcceptsInside ip n := by
  have hheader := h.header
  unfold acceptReads
  simp only [List.forall_mem_append, List.forall_mem_singleton]
  constructor
  · rintro ⟨⟨⟨-, hflags⟩, -⟩, hbranch⟩
    exact (flagReads_lt_iff hproto h hmem hflags).mp hbranch
  · intro hinside
    have hflags := hinside.flags
    have hlengths := (payloadLenReads_tcp hproto (show 20 ≤ n by omega)).mpr (by omega)
    exact ⟨⟨⟨⟨hlengths, numberReads_lt hflags⟩, hflags⟩, h.capture s.mCtrlType⟩,
      (flagReads_lt_iff hproto h hmem hflags).mpr hinside⟩

end TCPSession

/-! ## The reads of `route` -/

namespace SessionList

variable {σ : Type} [ISession σ] {build : Option σ} {r : SessionList σ} {s : σ}

omit [ISession σ] in
theorem findReads_lt (hn : 20 ≤ n) (hports : getHeaderLen ip + 4 ≤ n)
    (sessions : List (Lib.Numbered σ)) : ∀ i ∈ findReads ip sessions, i < n := by
  unfold findReads
  split
  · exact List.forall_mem_nil _
  · rw [List.forall_mem_append]
    refine ⟨(portReads_lt_iff hn).mpr hports, ?_⟩
    split
    · exact addrReads_lt hn
    · exact List.forall_mem_nil _

theorem buildReads_lt (hn : 20 ≤ n) (hports : getHeaderLen ip + 4 ≤ n) {init : List Nat}
    (hinit : ∀ i ∈ init, i < n) : ∀ i ∈ buildReads ip init, i < n := by
  unfold buildReads
  rw [List.forall_mem_append, List.range_eq_range', forall_range'_lt_iff]
  refine ⟨by omega, ?_⟩
  split
  · simp only [List.forall_mem_append]
    exact ⟨⟨addrReads_lt hn, (portReads_lt_iff hn).mpr hports⟩, hinit⟩
  · exact List.forall_mem_nil _

-- A session that takes the packet reads as far as anything on its way to it.
theorem routeReads_lt_iff (htaker : taker (flowHeader ip) build r = some s) (hn : 20 ≤ n)
    (init : List Nat) (accept : σ → List Nat)
    (hfirst : (∀ i ∈ accept s, i < n) → getHeaderLen ip + 4 ≤ n ∧ ∀ i ∈ init, i < n) :
    (∀ i ∈ routeReads ip build init accept r, i < n) ↔ ∀ i ∈ accept s, i < n := by
  unfold taker at htaker
  unfold routeReads
  rw [List.forall_mem_append]
  cases hfind : findSession (flowHeader ip) r.items with
  | some x =>
    rw [hfind] at htaker
    obtain rfl : x.item = s := Option.some.inj htaker
    exact and_iff_right_of_imp fun haccept => findReads_lt hn (hfirst haccept).1 r.items
  | none =>
    rw [hfind] at htaker
    have hbuild : build = some s := htaker
    simp only [hbuild, List.forall_mem_append]
    constructor
    · rintro ⟨-, -, haccept⟩
      exact haccept
    · intro haccept
      obtain ⟨hports, hinit⟩ := hfirst haccept
      exact ⟨findReads_lt hn hports r.items, buildReads_lt hn hports hinit, haccept⟩

end SessionList

namespace Sessions

open SessionList

variable {τ : Type} [ITunnel τ] (setup : TunSetup τ) (read : TunRead) (r : Sessions τ)

theorem buildUDP_alive {h : FlowHeader} {setup : UDPSetup} {now : Nat} {f : UDPFlow}
    (hbuild : buildUDP h setup now = some f) : f.session.mAlive = true := by
  unfold buildUDP UDPFlow.init at hbuild
  split at hbuild
  · cases hbuild
  · split at hbuild
    · obtain ⟨proxy, -, rfl⟩ := Option.map_eq_some_iff.mp hbuild
      rfl
    · obtain ⟨fd, -, rfl⟩ := Option.map_eq_some_iff.mp hbuild
      rfl

-- Only an open session is found, and a new one is open.
theorem taker_alive {h : FlowHeader} {setup : UDPSetup} {now : Nat} {r : SessionList UDPFlow}
    {f : UDPFlow} (htaker : taker h (buildUDP h setup now) r = some f) :
    f.session.mAlive = true := by
  unfold taker at htaker
  cases hfind : findSession h r.items with
  | some x =>
    rw [hfind] at htaker
    obtain rfl : x.item = f := Option.some.inj htaker
    have hopen : ¬ (!x.item.session.mAlive) = true := (findSession_some hfind).2.1
    simpa using hopen
  | none =>
    rw [hfind] at htaker
    exact buildUDP_alive htaker

omit [ITunnel τ] in
theorem udpReads_lt_iff {now : Nat} {sessions : SessionList UDPFlow} {f : UDPFlow}
    (hproto : getProtocol ip = protoUDP) (h : LengthsAgree ip n)
    (hf : taker (flowHeader ip) (setup.buildUDP ip now) sessions = some f) :
    (∀ i ∈ routeReads ip (setup.buildUDP ip now) (addrReads ++ portReads ip)
      (fun f => f.session.acceptReads ip) sessions, i < n) ↔
      (IsDns ip → Dns.MessageInside (dnsHeader ip) (dnsLength ip) (n - getPayloadOffset ip)) := by
  have hheader := h.header
  have hudp := h.udp_le hproto
  have hn : 20 ≤ n := by omega
  have hports : getHeaderLen ip + 4 ≤ n := by omega
  have hinit : ∀ i ∈ addrReads ++ portReads ip, i < n :=
    List.forall_mem_append.mpr ⟨addrReads_lt hn, (portReads_lt_iff hn).mpr hports⟩
  rw [routeReads_lt_iff hf hn _ _ fun _ => ⟨hports, hinit⟩]
  exact UDPSession.acceptReads_lt_iff hproto h (taker_alive hf)

omit [ITunnel τ] in
theorem tcpReads_lt_iff {now : Nat} {sessions : SessionList (TCPSession τ)} {s : TCPSession τ}
    (hproto : getProtocol ip = protoTCP) (h : LengthsAgree ip n) (hmem : n ≤ ip.length)
    (hs : taker (flowHeader ip) (setup.buildTCP ip now) sessions = some s) :
    (∀ i ∈ routeReads ip (setup.buildTCP ip now) (addrReads ++ [0, getHeaderLen ip + 13])
      (fun s => s.acceptReads ip) sessions, i < n) ↔ s.AcceptsInside ip n := by
  have hheader := h.header
  have htcp := h.tcp_le hproto
  have hn : 20 ≤ n := by omega
  have haccept := TCPSession.acceptReads_lt_iff (s := s) hproto h hmem
  have hfirst : (∀ i ∈ s.acceptReads ip, i < n) →
      getHeaderLen ip + 4 ≤ n ∧ ∀ i ∈ addrReads ++ [0, getHeaderLen ip + 13], i < n := by
    intro hreads
    -- `accept` reads the flags that `init` has looked at
    have hflags := (haccept.mp hreads).flags
    refine ⟨by omega, List.forall_mem_append.mpr ⟨addrReads_lt hn, ?_⟩⟩
    rw [List.forall_mem_cons, List.forall_mem_singleton]
    omega
  rw [routeReads_lt_iff hs hn _ _ hfirst]
  exact haccept

omit [ITunnel τ] in
-- Where `onReadable` reads, for a packet whose lengths agree.
theorem readableReads_lt_iff {t : Taker τ} (ht : takerOf setup read r = some t)
    (h : LengthsAgree read.mIPData read.packet.length) :
    (∀ i ∈ readableReads setup read r, i < read.packet.length) ↔
      t.AcceptsInside read.mIPData read.packet.length := by
  have hmem : read.packet.length ≤ read.mIPData.length := by
    unfold TunRead.mIPData
    rw [List.length_append]
    omega
  have hheader := h.header
  unfold takerOf at ht
  unfold readableReads
  dsimp only at ht ⊢
  by_cases hudp : getProtocol read.mIPData = protoUDP
  · have hlen := h.udp_le hudp
    rw [if_pos hudp] at ht ⊢
    obtain ⟨f, hf, rfl⟩ := Option.map_eq_some_iff.mp ht
    rw [List.forall_mem_cons, and_iff_right (show 9 < read.packet.length by omega)]
    exact udpReads_lt_iff setup hudp h hf
  · rw [if_neg hudp] at ht ⊢
    by_cases htcp : getProtocol read.mIPData = protoTCP
    · have hlen := h.tcp_le htcp
      rw [if_pos htcp] at ht ⊢
      obtain ⟨s, hs, rfl⟩ := Option.map_eq_some_iff.mp ht
      rw [List.forall_mem_cons, and_iff_right (show 9 < read.packet.length by omega)]
      exact tcpReads_lt_iff setup htcp h hmem hs
    · rw [if_neg htcp] at ht
      cases ht

/-- Every packet is dropped, or is routed with lengths that agree and read inside what has been read,
    exactly if no session takes it, or its lengths agree and `accept` finds inside what it looks for. -/
theorem lengthsChecked_iff :
    LengthsChecked setup read r ↔
      ∀ t, takerOf setup read r = some t → LengthsAgree read.mIPData read.packet.length ∧
        t.AcceptsInside read.mIPData read.packet.length := by
  unfold LengthsChecked
  cases ht : takerOf setup read r with
  | none =>
    refine iff_of_true (.inr ⟨rfl, onReadable_dropped setup read r ht⟩) ?_
    simp
  | some t =>
    simp only [Option.some.injEq, forall_eq', exists_eq_left', reduceCtorEq, false_and, or_false]
    exact and_congr_right fun hagree => readableReads_lt_iff setup read r ht hagree

theorem sampleCut_fits :
    [0x45#8, 0, 0x03, 0xE8, 0, 0, 0, 0, 64, 17, 0, 0, 10, 0, 0, 2, 8, 8, 8, 8,
      0x9C, 0x40, 0, 80, 0, 8, 0, 0].length ≤ 65535 :=
  Nat.le_of_ble_eq_true rfl

-- The headers of a datagram that claims to have 1000 bytes.
def sampleCut : TunRead := ⟨_, [], sampleCut_fits⟩

-- A new session of UDP gets a socket.
def sampleOutside : TunSetup TCPTunnel where
  tcp := ⟨0, none, 0⟩
  udp := ⟨0, UDPLink.sampleSocket.session.reactor, 2, fun _ => .accepted 0, 8, some 7, none⟩
  astrayTCP _ _ := none
  astrayUDP _ _ := none

/-- The session is built and gets the datagram, 972 bytes of it left from earlier packets. -/
theorem lengths_unchecked : ¬ LengthsChecked sampleOutside sampleCut (start 0 0) := by
  have htaken : (takerOf sampleOutside sampleCut (start 0 0)).isSome = true := rfl
  rintro (⟨t, -, hagree, -⟩ | ⟨hdropped, -⟩)
  · have htotal : (getTTLEN sampleCut.mIPData).toNat ≤ 28 := hagree.total
    revert htotal
    decide
  · rw [hdropped] at htaken
    cases htaken

end Sessions

end NetCore
