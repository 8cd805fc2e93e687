import NetCore.IPAdpt

/-!
# The header of the packets built

Both sessions build the same IPv4 header, up to the protocol.  What the getters read from a packet
behind it does not depend on the checksum.
-/

namespace NetCore

/-- The header without options: the checksum as given, from `src` to `dest`. -/
def ipv4Header (protocol : U8) (src dest : U32) (ttlen : Nat) (checksum : U16) : Bytes :=
  [0x45#8, 0#8] ++ beBytes16 (BitVec.ofNat 16 ttlen) ++ [0#8, 0#8, 0#8, 0#8] ++
    [64#8, protocol] ++ leBytes16 checksum ++ leBytes32 src ++ leBytes32 dest

def ipv4Pseudo (protocol : U8) (src dest : U32) (len : Nat) : Bytes :=
  leBytes32 src ++ leBytes32 dest ++ [0#8, protocol] ++ beBytes16 (BitVec.ofNat 16 len)

@[simp] theorem length_ipv4Pseudo (protocol : U8) (src dest : U32) (len : Nat) :
    (ipv4Pseudo protocol src dest len).length = 12 := by
  simp [ipv4Pseudo]

variable (protocol : U8) (src dest : U32) (ttlen : Nat) (checksum : U16) (rest : Bytes)

@[simp] theorem length_ipv4Header : (ipv4Header protocol src dest ttlen checksum).length = 20 := by
  simp [ipv4Header]

theorem getHeaderLen_ipv4 :
    getHeaderLen (ipv4Header protocol src dest ttlen checksum ++ rest) = 20 := by
  have hversion : byteAt (ipv4Header protocol src dest ttlen checksum ++ rest) 0 = 0x45 := rfl
  rw [getHeaderLen, hversion]
  decide

theorem getProtocol_ipv4 :
    getProtocol (ipv4Header protocol src dest ttlen checksum ++ rest) = protocol := rfl

theorem getTTLEN_ipv4 :
    getTTLEN (ipv4Header protocol src dest ttlen checksum ++ rest) = BitVec.ofNat 16 ttlen :=
  beBytes16_append (BitVec.ofNat 16 ttlen)

-- The addresses stand where the header has them.
theorem addresses_ipv4 :
    ((ipv4Header protocol src dest ttlen checksum ++ rest).drop 12).take 8 =
      leBytes32 src ++ leBytes32 dest := rfl

theorem drop_ipv4 :
    (ipv4Header protocol src dest ttlen checksum ++ rest).drop 20 = rest := rfl

theorem take_ipv4 : (ipv4Header protocol src dest ttlen checksum ++ rest).take 20 =
    ipv4Header protocol src dest ttlen checksum := rfl

end NetCore
