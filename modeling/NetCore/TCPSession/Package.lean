import NetCore.IPAdpt.Header
import NetCore.TCPSession.Birth

/-!
# Packages and their parser

`buildPackage` counts its options in bytes, ten with SYN, and the header declares whole words of
four: with SYN the last two bytes of the options are outside it, and count as payload.
-/

namespace NetCore

-- The four bytes of a 32-bit number, put together again.
theorem beBytes32_append (x : U32) :
    ((x >>> 24).setWidth 8 ++ (x >>> 16).setWidth 8 : U16) ++
      ((x >>> 8).setWidth 8 ++ x.setWidth 8 : U16) = x := by
  apply BitVec.eq_of_getLsbD_eq
  intro i hi
  simp only [BitVec.getLsbD_append, BitVec.getLsbD_setWidth, BitVec.getLsbD_ushiftRight]
  grind

namespace TCPSession

variable {τ : Type} (s : TCPSession τ) (flag : U8) (data : Bytes)

theorem length_packageOptions_eq :
    (s.packageOptions flag).length = if NetCore.hasFlag flag SYN then 10 else 0 := by
  unfold packageOptions
  split <;> rfl

theorem length_packageOptions : (s.packageOptions flag).length = 0 ∨
    (s.packageOptions flag).length = 10 := by
  rw [length_packageOptions_eq]
  split
  · exact .inr rfl
  · exact .inl rfl

-- The TCP header up to its checksum.
def tcpFront (optlen : Nat) : Bytes :=
  leBytes16 s.mDestPort ++ leBytes16 s.mSrcPort ++
    beBytes32 (s.mLocalSeq + s.mLocalSeqBase) ++ beBytes32 (s.mRemoteNext + s.mRemoteSeqBase) ++
    [BitVec.ofNat 8 ((20 + optlen) / 4) <<< 4, flag] ++
    beBytes16 ((s.mReceiveWindow >>> s.mWindowScale.toNat).setWidth 16)

theorem tcpHeader_eq (optlen : Nat) (checksum : U16) :
    s.tcpHeader optlen flag checksum = s.tcpFront flag optlen ++ leBytes16 checksum ++ [0#8, 0#8] :=
  rfl

-- A package as its receiver takes it apart.
theorem packageBytes_eq : s.packageBytes flag data =
    let options := s.packageOptions flag
    let ttlen := 40 + options.length + data.length
    ipv4Header protoTCP s.mDestAddr s.mSrcAddr ttlen
        (~~~computeChecksum 0 (ipv4Header protoTCP s.mDestAddr s.mSrcAddr ttlen 0)) ++
      (s.tcpFront flag options.length ++ leBytes16 (s.tcpChecksum flag data) ++
        ([0#8, 0#8] ++ options ++ data)) := by
  simp [packageBytes, tcpHeader_eq, ipHeader, ipv4Header]

/-- What the parser finds in the options of a SYN: the three options, complete and of the lengths
    they have, in the area the header declares. -/
def OptionsParseBack (ip : Bytes) : Prop :=
  let mem := ip.drop (getHeaderLen ip + 20)
  let optlen := getTCPHeaderLen ip (getHeaderLen ip) - 20
  ∀ option ∈ [(optMSS, 4), (optWS, 3), (optSACKF, 2)], ∃ addr,
    getOptionAddr mem optlen option.1 = .found addr ∧ (byteAt addr 1).toNat = option.2 ∧
      mem.length - addr.length + option.2 ≤ optlen

structure ParsesBack : Prop where
  ttlen : (getTTLEN (s.buildPackage flag data).readable).toNat = (s.buildPackage flag data).size
  payloadLen : getPayloadLen (s.buildPackage flag data).readable = data.length
  payload : ((s.buildPackage flag data).readable.drop
    (getPayloadOffset (s.buildPackage flag data).readable)).take data.length = data
  seq : beWord32 (s.buildPackage flag data).readable
    (getHeaderLen (s.buildPackage flag data).readable + 4) = s.mLocalSeq + s.mLocalSeqBase
  ack : beWord32 (s.buildPackage flag data).readable
    (getHeaderLen (s.buildPackage flag data).readable + 8) = s.mRemoteNext + s.mRemoteSeqBase
  flags : byteAt (s.buildPackage flag data).readable
    (getHeaderLen (s.buildPackage flag data).readable + 13) = flag
  options : NetCore.hasFlag flag SYN → OptionsParseBack (s.buildPackage flag data).readable

variable {s flag data}

-- The fields of the headers stand where the parser reads them, whatever follows.
theorem readPackage (s : TCPSession τ) (flag : U8) (data : Bytes) :
    getHeaderLen (s.packageBytes flag data) = 20 ∧
      getProtocol (s.packageBytes flag data) = protoTCP ∧
      getTTLEN (s.packageBytes flag data) =
        BitVec.ofNat 16 (40 + (s.packageOptions flag).length + data.length) ∧
      getTCPHeaderLen (s.packageBytes flag data) 20 =
        (BitVec.ofNat 8 ((20 + (s.packageOptions flag).length) / 4) <<< 4 >>> 4).toNat * 4 ∧
      beWord32 (s.packageBytes flag data) 24 = s.mLocalSeq + s.mLocalSeqBase ∧
      beWord32 (s.packageBytes flag data) 28 = s.mRemoteNext + s.mRemoteSeqBase ∧
      byteAt (s.packageBytes flag data) 33 = flag ∧
      (s.packageBytes flag data).drop 40 = s.packageOptions flag ++ data := by
  rw [packageBytes_eq]
  refine ⟨getHeaderLen_ipv4 .., getProtocol_ipv4 .., getTTLEN_ipv4 .., rfl, ?_, ?_, rfl, ?_⟩
  · exact beBytes32_append (s.mLocalSeq + s.mLocalSeqBase)
  · exact beBytes32_append (s.mRemoteNext + s.mRemoteSeqBase)
  · rfl

-- Ten bytes of options are declared as two words.
theorem getPayloadOffset_package (s : TCPSession τ) (flag : U8) (data : Bytes) :
    getPayloadOffset (s.packageBytes flag data) = if NetCore.hasFlag flag SYN then 48 else 40 := by
  obtain ⟨hheader, hprotocol, -, htcp, -⟩ := readPackage s flag data
  have hnotUDP : ¬ protoTCP = protoUDP := by decide
  unfold getPayloadOffset
  rw [hprotocol, if_neg hnotUDP, if_pos rfl, hheader, htcp, length_packageOptions_eq]
  split <;> decide

theorem getTTLEN_package (s : TCPSession τ) (flag : U8) (h : data.length ≤ TCP_IP_PAYLOAD_SIZE) :
    (getTTLEN (s.packageBytes flag data)).toNat =
      40 + (s.packageOptions flag).length + data.length := by
  have hmax : TCP_IP_PAYLOAD_SIZE = 61440 := rfl
  have hoptions := length_packageOptions s flag
  rw [(readPackage s flag data).2.2.1, BitVec.toNat_ofNat, Nat.mod_eq_of_lt (by omega)]

/-- A package parses back exactly if it has no options. -/
theorem parsesBack_iff (s : TCPSession τ) (flag : U8) {data : Bytes}
    (h : data.length ≤ TCP_IP_PAYLOAD_SIZE) :
    ParsesBack s flag data ↔ NetCore.hasFlag flag SYN = false := by
  have hreadable : (s.buildPackage flag data).readable = s.packageBytes flag data :=
    Segment.readable_ofBytes _
  have httlen := getTTLEN_package s flag h
  have hoffset := getPayloadOffset_package s flag data
  have hlength := length_packageOptions_eq s flag
  constructor
  · intro hparses
    have hpayload := hparses.payloadLen
    rw [hreadable, getPayloadLen, httlen, hoffset, hlength] at hpayload
    cases hsyn : NetCore.hasFlag flag SYN
    · rfl
    · rw [hsyn, if_pos rfl, if_pos rfl] at hpayload
      omega
  · intro hsyn
    obtain ⟨hheader, -, -, -, hseq, hack, hflag, hrest⟩ := readPackage s flag data
    have hnone : s.packageOptions flag = [] := by
      unfold packageOptions
      rw [if_neg (by simp [hsyn])]
    have hplain : ¬ NetCore.hasFlag flag SYN = true := by simp [hsyn]
    rw [if_neg hplain] at hoffset hlength
    rw [hnone, List.nil_append] at hrest
    refine ⟨?_, ?_, ?_, ?_, ?_, ?_, fun hflags => absurd hflags hplain⟩
    · show _ = (Segment.ofBytes (s.packageBytes flag data)).size
      rw [hreadable, httlen, Segment.size_ofBytes, length_packageBytes]
    · rw [hreadable, getPayloadLen, httlen, hoffset, hlength]
      omega
    · rw [hreadable, hoffset, hrest, List.take_length]
    · rw [hreadable, hheader, hseq]
    · rw [hreadable, hheader, hack]
    · rw [hreadable, hheader, hflag]

theorem parsesBack_sample :
    ParsesBack (sampleInit sampleTunnel 1000) (ACK ||| PSH) [1, 2, 3] ↔
      NetCore.hasFlag (ACK ||| PSH) SYN = false :=
  parsesBack_iff (sampleInit sampleTunnel 1000) (ACK ||| PSH) (by decide)

/-- The answer to the first SYN: two bytes of its options are read as payload. -/
theorem synPackage_misread :
    ([] : Bytes).length ≤ TCP_IP_PAYLOAD_SIZE ∧
      ¬ ParsesBack (sampleInit sampleTunnel 1000) (SYN ||| ACK) [] := by
  refine ⟨by decide, fun h => ?_⟩
  have hpayload : getPayloadLen ((sampleInit sampleTunnel 1000).packageBytes (SYN ||| ACK) []) = 2 := by
    decide
  have hnone : getPayloadLen ((sampleInit sampleTunnel 1000).packageBytes (SYN ||| ACK) []) = 0 := by
    rw [← Segment.readable_ofBytes (TCPSession.packageBytes _ _ _)]
    exact h.payloadLen
  rw [hpayload] at hnone
  cases hnone

end TCPSession

end NetCore
