import NetCore.Word

/-!
# Packet headers

`IPAdpt` and the comparison helpers of `Utils`: flags and states of TCP, the getters that read a
packet from its bytes, the option scan, the checksum, and the two translations between wire and
relative sequence numbers.
-/

namespace NetCore

def ctrlPROXY : U32 := 2
def ctrlCAPTURE : U32 := 8

def FIN : U8 := 1
def SYN : U8 := 2
def RST : U8 := 4
def PSH : U8 := 8
def ACK : U8 := 16

def hasFlag (flags flag : U8) : Bool := flags &&& flag != 0

inductive TCPState where
  | listen
  | synSent
  | synRcved
  | established
  | finWait1
  | finWait2
  | closeWait
  | closing
  | lastAck
  | timeWait
  | closed
deriving DecidableEq, Repr

/-- The kinds of `TCP_OPT` the sessions look for. -/
def optMSS : U8 := 2
def optWS : U8 := 3
def optSACKF : U8 := 4
def optSACK : U8 := 5

/-- `PROTO`. -/
def protoTCP : U8 := 6
def protoUDP : U8 := 17

/-! ## Reading a packet -/

def getTTLEN (ip : Bytes) : U16 := beWord16 ip 2

def getProtocol (ip : Bytes) : U8 := byteAt ip 9

def getHeaderLen (ip : Bytes) : Nat := (byteAt ip 0 &&& 0x0F).toNat * 4

/-- `getTCPHeaderLen` of the header that starts at `tcp`. -/
def getTCPHeaderLen (ip : Bytes) (tcp : Nat) : Nat := (byteAt ip (tcp + 12) >>> 4).toNat * 4

def getPayloadOffset (ip : Bytes) : Nat :=
  if getProtocol ip = protoUDP then getHeaderLen ip + 8
  else if getProtocol ip = protoTCP then
    getHeaderLen ip + getTCPHeaderLen ip (getHeaderLen ip)
  else 0

/-- An `int`: negative when the headers claim more than the packet holds. -/
def getPayloadLen (ip : Bytes) : Int := (getTTLEN ip).toNat - getPayloadOffset ip

/-! ## The option scan -/

/-- What `getOptionAddr` does: return the address of an option (here the memory from there on),
    return `NULL`, or go round for ever on a length byte of 0. -/
inductive OptionScan where
  | found (addr : Bytes)
  | notFound
  | spins
deriving DecidableEq

-- The `while` loop of `getOptionAddr`, with `fuel` rounds at most: `optlen` bytes of options are
-- left from `mem` on.
def optionLoop (option : U8) : Nat → Int → Bytes → OptionScan
  | 0, _, _ => .spins
  | fuel + 1, optlen, mem =>
      if optlen ≤ 0 then .notFound
      else
        let kind := byteAt mem 0
        if option = kind then .found mem
        else if kind = 0 then .notFound
        else if kind = 1 then optionLoop option fuel (optlen - 1) (mem.drop 1)
        else
          let len := (byteAt mem 1).toNat
          -- a length of 0 leaves both variables as they were
          if len = 0 then .spins
          else optionLoop option fuel (optlen - len) (mem.drop len)

/-- `getOptionAddr`: `mem` is the memory behind the fixed header, `optlen` the length of the option
    area.  Every round but a spinning one takes a byte off the area, so its length bounds them. -/
def getOptionAddr (mem : Bytes) (optlen : Nat) (option : U8) : OptionScan :=
  optionLoop option (optlen + 1) optlen mem

theorem optionLoop_found {option : U8} {fuel : Nat} {optlen : Int} {mem addr : Bytes}
    (h : optionLoop option fuel optlen mem = .found addr) : byteAt addr 0 = option := by
  induction fuel generalizing optlen mem with
  | zero => simp [optionLoop] at h
  | succ fuel ih =>
    simp only [optionLoop] at h
    split at h
    · simp at h
    · split at h
      next hkind =>
        cases h
        exact hkind.symm
      next =>
        split at h
        · simp at h
        · split at h
          · exact ih h
          · split at h
            · simp at h
            · exact ih h

-- The address returned is that of the kind byte.
theorem getOptionAddr_found {mem addr : Bytes} {optlen : Nat} {option : U8}
    (h : getOptionAddr mem optlen option = .found addr) : byteAt addr 0 = option :=
  optionLoop_found h

/-! ## Checksum -/

/-- The sum of the little-endian 16-bit words; an odd last byte counts as a word. -/
def sumWords : U32 → Bytes → U32
  | sum, [] => sum
  | sum, [b] => sum + b.setWidth 32
  | sum, lo :: hi :: rest => sumWords (sum + (hi ++ lo).setWidth 32) rest

def foldCarry (sum : U32) : U32 := (sum &&& 0xFFFF#32) + (sum >>> 16)

/-- `computeChecksum`.  Two rounds bring any 32-bit sum below 2^16 and a round leaves a sum below
    2^16 as it is, so the `while (sum >> 16)` loop is two rounds. -/
def computeChecksum (start : U16) (buffer : Bytes) : U16 :=
  (foldCarry (foldCarry (sumWords (start.setWidth 32) buffer))).setWidth 16

theorem foldCarry_toNat (sum : U32) :
    (foldCarry sum).toNat = sum.toNat % 2 ^ 16 + sum.toNat / 2 ^ 16 := by
  have hsum := sum.isLt
  have hand : (sum &&& 0xFFFF#32).toNat = sum.toNat % 2 ^ 16 := by
    rw [BitVec.toNat_and]
    exact Nat.and_two_pow_sub_one_eq_mod sum.toNat 16
  rw [foldCarry, BitVec.toNat_add, hand, BitVec.toNat_ushiftRight, Nat.shiftRight_eq_div_pow,
    Nat.mod_eq_of_lt]
  omega

-- After two rounds the carry loop is over.
theorem foldCarry_twice (sum : U32) : (foldCarry (foldCarry sum)).toNat < 2 ^ 16 := by
  have hsum := sum.isLt
  rw [foldCarry_toNat, foldCarry_toNat]
  omega

/-! ## Sequence numbers -/

def tcpRelativeSeq (seq base : U32) : U32 :=
  if base < seq then seq - base else 0xFFFFFFFF#32 - base + seq

/-- `compare_u32`: the subtractions of `int`s wrap, as on the targets built for. -/
def compareU32 (s1 s2 : U32) : Int :=
  if s1 = s2 then 0
  else if (s1.toInt < s2.toInt ∧ (s2 - s1).toInt < 0x7FFFFFFF) ∨
      (s2.toInt < s1.toInt ∧ 0x7FFFFFFF < (s1 - s2).toInt) then -1
  else 1

example : tcpRelativeSeq 0 0xFFFFFFFF = 0 := by decide

end NetCore
