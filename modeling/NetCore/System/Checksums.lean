import NetCore.IPAdpt.Checksum
import NetCore.TCPSession.Package
import NetCore.UDPSession.Wakeup

/-!
# Packets with valid checksums

Every packet a session builds carries the checksums its receiver computes.  The code sums pseudo
header, transport header, options and payload one after the other; all but the payload have whole
words, so that is one sum.
-/

namespace NetCore

namespace TCPSession

variable {τ : Type} (s : TCPSession τ) (flag : U8) (data : Bytes)

/-- What `buildPackage` sums for the TCP checksum. -/
def checksumPieces : List Bytes :=
  [s.ipPseudo (20 + data.length + (s.packageOptions flag).length),
    s.tcpHeader (s.packageOptions flag).length flag 0, s.packageOptions flag, data]

theorem tcpChecksum_eq :
    s.tcpChecksum flag data = ~~~(s.checksumPieces flag data).foldl computeChecksum 0 := rfl

theorem flatten_checksumPieces : (s.checksumPieces flag data).flatten =
    ipv4Pseudo protoTCP s.mDestAddr s.mSrcAddr (20 + data.length + (s.packageOptions flag).length) ++
      s.tcpFront flag (s.packageOptions flag).length ++ leBytes16 0 ++
      ([0#8, 0#8] ++ s.packageOptions flag ++ data) := by
  simp [checksumPieces, tcpHeader_eq, ipPseudo, ipv4Pseudo]

variable {data}

theorem ipHeader_fits (ttlen : Nat) : AccumulatorFits 0 (s.ipHeader ttlen 0) :=
  accumulatorFits_of_length (by simp [ipHeader]) 0

theorem checksumPieces_fit (h : data.length ≤ TCP_IP_PAYLOAD_SIZE) :
    AccumulatorFits 0 (s.checksumPieces flag data).flatten := by
  have hmax : TCP_IP_PAYLOAD_SIZE = 61440 := rfl
  have hoptions := s.length_packageOptions flag
  apply accumulatorFits_of_length
  simp [checksumPieces, ipPseudo, tcpHeader]
  omega

theorem sumsAtOnce_pieces (h : data.length ≤ TCP_IP_PAYLOAD_SIZE) :
    SumsAtOnce 0 (s.checksumPieces flag data) := by
  apply sumsAtOnce _ (s.checksumPieces_fit flag h)
  have hoptions := s.length_packageOptions flag
  have hwhole : ∀ p ∈ [s.ipPseudo (20 + data.length + (s.packageOptions flag).length),
      s.tcpHeader (s.packageOptions flag).length flag 0, s.packageOptions flag],
      p.length % 2 = 0 := by
    simp only [List.forall_mem_cons, ipPseudo, tcpHeader]
    simp
    omega
  exact hwhole

theorem buildPackage_checksums (h : data.length ≤ TCP_IP_PAYLOAD_SIZE) :
    ChecksumsValid (s.buildPackage flag data).readable := by
  have hfits := s.checksumPieces_fit flag h
  have hchecksum : s.tcpChecksum flag data =
      ~~~computeChecksum 0 (s.checksumPieces flag data).flatten := by
    rw [tcpChecksum_eq, (s.sumsAtOnce_pieces flag h).chained]
  have hlen : 40 + (s.packageOptions flag).length + data.length =
      20 + (20 + data.length + (s.packageOptions flag).length) := by omega
  rw [flatten_checksumPieces] at hfits hchecksum
  have hfront : (s.tcpFront flag (s.packageOptions flag).length).length % 2 = 0 := by
    simp [tcpFront]
  rw [buildPackage, Segment.readable_ofBytes, packageBytes_eq, hchecksum]
  exact checksumsValid hlen hfront hfits

end TCPSession

namespace UDPSession

variable (s : UDPSession) (data : Bytes)

/-- What `buildPacket` sums for the UDP checksum. -/
def checksumPieces : List Bytes :=
  [s.ipPseudo (8 + data.length), s.udpHeader (8 + data.length) 0, data]

theorem udpChecksum_eq :
    s.udpChecksum data = ~~~(s.checksumPieces data).foldl computeChecksum 0 := rfl

def udpFront (len : Nat) : Bytes :=
  leBytes16 s.mDestPort ++ leBytes16 s.mSrcPort ++ beBytes16 (BitVec.ofNat 16 len)

theorem flatten_checksumPieces : (s.checksumPieces data).flatten =
    ipv4Pseudo protoUDP s.mDestAddr s.mSrcAddr (8 + data.length) ++ s.udpFront (8 + data.length) ++
      leBytes16 0 ++ data := by
  simp [checksumPieces, udpHeader, udpFront, ipPseudo, ipv4Pseudo]

-- A packet as its receiver takes it apart.
theorem packetBytes_eq : s.packetBytes data =
    ipv4Header protoUDP s.mDestAddr s.mSrcAddr (28 + data.length)
        (~~~computeChecksum 0 (ipv4Header protoUDP s.mDestAddr s.mSrcAddr (28 + data.length) 0)) ++
      (s.udpFront (8 + data.length) ++ leBytes16 (s.udpChecksum data) ++ data) := by
  simp [packetBytes, udpHeader, udpFront, ipHeader, ipv4Header]

variable {data}

theorem ipHeader_fits (ttlen : Nat) : AccumulatorFits 0 (s.ipHeader ttlen 0) :=
  accumulatorFits_of_length (by simp [ipHeader]) 0

theorem checksumPieces_fit (h : data.length ≤ MAX_IP_SIZE) :
    AccumulatorFits 0 (s.checksumPieces data).flatten := by
  have hmax : MAX_IP_SIZE = 61440 := rfl
  apply accumulatorFits_of_length
  simp [checksumPieces, ipPseudo, udpHeader]
  omega

theorem sumsAtOnce_pieces (h : data.length ≤ MAX_IP_SIZE) : SumsAtOnce 0 (s.checksumPieces data) := by
  apply sumsAtOnce _ (s.checksumPieces_fit h)
  have hwhole : ∀ p ∈ [s.ipPseudo (8 + data.length), s.udpHeader (8 + data.length) 0],
      p.length % 2 = 0 := by
    simp only [List.forall_mem_cons, ipPseudo, udpHeader]
    simp
  exact hwhole

theorem buildPacket_checksums (h : data.length ≤ MAX_IP_SIZE) :
    ChecksumsValid (s.buildPacket data).readable := by
  have hfits := s.checksumPieces_fit h
  have hchecksum : s.udpChecksum data = ~~~computeChecksum 0 (s.checksumPieces data).flatten := by
    rw [udpChecksum_eq, (s.sumsAtOnce_pieces h).chained]
  have hlen : 28 + data.length = 20 + (8 + data.length) := by omega
  rw [flatten_checksumPieces] at hfits hchecksum
  have hfront : (s.udpFront (8 + data.length)).length % 2 = 0 := by simp [udpFront]
  rw [buildPacket, Segment.readable_ofBytes, packetBytes_eq, hchecksum]
  exact checksumsValid hlen hfront hfits

end UDPSession

/-- Every packet built carries valid checksums: each is the complement of one sum over all it
    covers, and no sum on the way overflows. -/
theorem built_checksums {τ : Type} (t : TCPSession τ) (u : UDPSession) (flag : U8) {data : Bytes}
    (h : data.length ≤ 61440) :
    (ChecksumsValid (t.buildPackage flag data).readable ∧
      (∀ ttlen, AccumulatorFits 0 (t.ipHeader ttlen 0)) ∧
      t.tcpChecksum flag data = ~~~(t.checksumPieces flag data).foldl computeChecksum 0 ∧
      SumsAtOnce 0 (t.checksumPieces flag data)) ∧
    ChecksumsValid (u.buildPacket data).readable ∧
      (∀ ttlen, AccumulatorFits 0 (u.ipHeader ttlen 0)) ∧
      u.udpChecksum data = ~~~(u.checksumPieces data).foldl computeChecksum 0 ∧
      SumsAtOnce 0 (u.checksumPieces data) := by
  refine ⟨⟨t.buildPackage_checksums flag h, t.ipHeader_fits, t.tcpChecksum_eq flag data, ?_⟩,
    u.buildPacket_checksums h, u.ipHeader_fits, u.udpChecksum_eq data, ?_⟩
  · exact t.sumsAtOnce_pieces flag h
  · exact u.sumsAtOnce_pieces h

/-- A SYN and a datagram, both with a payload of odd length. -/
theorem built_checksums_sample :
    let t := TCPSession.sampleInit TCPSession.sampleTunnel 1000
    let u := UDPFlow.sampleSession
    (ChecksumsValid (t.buildPackage SYN [1, 2, 3]).readable ∧
      (∀ ttlen, AccumulatorFits 0 (t.ipHeader ttlen 0)) ∧
      t.tcpChecksum SYN [1, 2, 3] = ~~~(t.checksumPieces SYN [1, 2, 3]).foldl computeChecksum 0 ∧
      SumsAtOnce 0 (t.checksumPieces SYN [1, 2, 3])) ∧
    ChecksumsValid (u.buildPacket [1, 2, 3]).readable ∧
      (∀ ttlen, AccumulatorFits 0 (u.ipHeader ttlen 0)) ∧
      u.udpChecksum [1, 2, 3] = ~~~(u.checksumPieces [1, 2, 3]).foldl computeChecksum 0 ∧
      SumsAtOnce 0 (u.checksumPieces [1, 2, 3]) :=
  built_checksums (TCPSession.sampleInit TCPSession.sampleTunnel 1000) UDPFlow.sampleSession SYN
    (by decide)

end NetCore
