import NetCore.Word

/-!
# `Cipher`: parcels

A message is shifted, padded and cut into sections; the sections make a parcel.  The functions are
those of `Cipher.cpp`, `ShiftCoder.cpp` and `PaddingCoder.cpp`, from memory to memory: a pointer is
the list of the bytes behind it, `out` is what has been written behind the output pointer.  The two
scratch buffers are part of the state, since the decoders read on in them past the length they are
given.  `CipherPoint`s record the lengths the safety of `decrypt` is about.  Log texts are left out.
-/

namespace NetCore

def MAX_SECTION_SIZE : Nat := 1 <<< 10
def MAX_ENCRYPT_SIZE : Nat := MAX_SECTION_SIZE <<< 2
def MAX_PARCEL_SIZE : Nat := MAX_ENCRYPT_SIZE <<< 1
def CIPHER_BUFFER_SIZE : Nat := MAX_PARCEL_SIZE

def codePADDING : U8 := 1
def codeSHIFT : U8 := 2

/-- `mBuffer` and `mBuffer1`. -/
abbrev Scratch := { buffer : Bytes // buffer.length = CIPHER_BUFFER_SIZE }

/-- Write to the front of a buffer; what lies behind stays as it was. -/
def Scratch.write (buffer : Scratch) (bytes : Bytes) : Scratch :=
  ⟨(bytes ++ buffer.val.drop bytes.length).take CIPHER_BUFFER_SIZE, by
    have hlen := buffer.property
    rw [List.length_take, List.length_append, List.length_drop]
    omega⟩

/-- The values `rand()` returns to the two encoders, which seed it anew each. -/
structure Draws where
  shift : Nat
  padding : Nat → Nat

namespace ShiftCoder

-- The loop of `encode`: each byte is turned one bit further than the one before it.
def encodeLoop : Nat → Bytes → Bytes
  | _, [] => []
  | shift, b :: data =>
      (b <<< shift ||| b >>> (8 - shift)) ::
        encodeLoop (if 7 < shift + 1 then 0 else shift + 1) data

def encode (rand : Nat) (data : Bytes) (size : Nat) : Bytes :=
  let shift := rand % 8
  if size ≤ data.length then [] else BitVec.ofNat 8 shift :: encodeLoop shift data

def decodeLoop : Nat → Bytes → Bytes
  | _, [] => []
  | shift, b :: data =>
      (b >>> shift ||| b <<< (8 - shift)) ::
        decodeLoop (if 7 < shift + 1 then 0 else shift + 1) data

/-- What `decode` returns, as an unsigned variable stores it, and the bytes it writes to `out`,
    where `room` are free; `none` for an access outside the buffers. -/
def decode (data : Bytes) (len : U32) (room : Nat) : Option (U32 × Bytes) :=
  match data with
  | [] => none
  | shift :: data =>
      if 7 < shift.toNat then some (0, [])
      else
        -- with `len = 0` the loop does nothing, and -1 is returned
        let n := len.toNat - 1
        if n ≤ data.length ∧ n ≤ room then
          some (len - 1, decodeLoop shift.toNat (data.take n))
        else none

def encodeLen (len : Nat) : Nat := len + 1

end ShiftCoder

namespace PaddingCoder

def paddingRange (len : Nat) : Nat := if MAX_SECTION_SIZE < len then 2 else MAX_SECTION_SIZE - len

def encode (rand : Nat → Nat) (data : Bytes) (size : Nat) : Bytes :=
  let len := data.length
  if size ≤ len + 3 then []
  else
    let range := paddingRange len
    let range := if size - len - 2 < range then size - len - 2 else range
    let padding := if 0 < range then rand 0 % range + 1 else 0
    beBytes16 (BitVec.ofNat 16 padding) ++
      (List.range padding).map (fun i => BitVec.ofNat 8 (rand (i + 1))) ++ data

def decode (data : Bytes) (len : U32) (room : Nat) : Option (U32 × Bytes) :=
  match data with
  | hi :: lo :: _ =>
      let padding : U16 := hi ++ lo
      let l := len - padding.setWidth 32 - 2
      if l.toInt < 0 then some (0, [])
      else if padding.toNat + 2 + l.toNat ≤ data.length ∧ l.toNat ≤ room then
        some (l, (data.drop (padding.toNat + 2)).take l.toNat)
      else none
  | _ => none

def encodeLen (len : Nat) : Nat := paddingRange len + len

end PaddingCoder

inductive Coder where
  | padding
  | shift
deriving DecidableEq

namespace Coder

def encode (draws : Draws) : Coder → Bytes → Nat → Bytes
  | padding => PaddingCoder.encode draws.padding
  | shift => ShiftCoder.encode draws.shift

def decode : Coder → Bytes → U32 → Nat → Option (U32 × Bytes)
  | padding => PaddingCoder.decode
  | shift => ShiftCoder.decode

def encodeLen : Coder → Nat → Nat
  | padding => PaddingCoder.encodeLen
  | shift => ShiftCoder.encodeLen

def headerLen : Coder → Nat
  | padding => 2
  | shift => 1

end Coder

inductive CipherPoint where
  /-- `unpack` has put a parcel of `l` bytes into `mBuffer`. -/
  | parcel (l : U32)
  /-- `decode` has been called with `len`, and `l` has been set from what it returned. -/
  | decode (coder : Coder) (len l : U32)
  /-- `memcpy` of `n` bytes to where `room` are free. -/
  | copy (n room : Nat)
deriving DecidableEq

structure Cipher where
  mBuffer : Scratch
  mBuffer1 : Scratch

namespace Cipher

def mCodes : List U8 := [codeSHIFT, codePADDING]

def getCoder (id : U8) : Option Coder :=
  if id = codePADDING then some .padding else if id = codeSHIFT then some .shift else none

def estimatePackLen (len : Nat) : Nat :=
  len + ((len + MAX_SECTION_SIZE) / MAX_SECTION_SIZE) <<< 1 + 2

def estimateEncryptLen (len : Nat) : Nat :=
  estimatePackLen <| mCodes.foldl (fun len id =>
    match getCoder id with
    | none => len
    | some coder => coder.encodeLen len + 1) (len + 1)

-- The loop of `pack`: the bytes written, and the last `l`.
def packLoop : Nat → Bytes → Nat → Bytes × Nat
  | 0, _, l => ([], l)
  | fuel + 1, s, l =>
      if s = [] then ([], l)
      else
        let l := if s.length < MAX_SECTION_SIZE then s.length else MAX_SECTION_SIZE
        let r := packLoop fuel (s.drop l) l
        (beBytes16 (BitVec.ofNat 16 l) ++ s.take l ++ r.1, r.2)

def pack (data : Bytes) (size : Nat) : Bytes :=
  if data = [] ∨ size < data.length then []
  else if size < estimatePackLen data.length then []
  else
    let r := packLoop data.length data 0
    -- a last section of full size needs an end mark
    if r.2 = MAX_SECTION_SIZE then r.1 ++ [0, 0] else r.1

-- The loop of `encrypt` over the codes: the content for `pack`, and the two buffers.
def encodeLoop (draws : Draws) : List U8 → Scratch → Scratch → Nat → Bytes × Scratch × Scratch
  | [], s, t, l => (s.val.take l, s, t)
  | id :: codes, s, t, l =>
      match getCoder id with
      | none => encodeLoop draws codes s t l
      | some coder =>
          let written := coder.encode draws (s.val.take l) (CIPHER_BUFFER_SIZE - 1)
          let t := t.write (id :: written)
          let l := written.length + 1
          if l ≤ 1 then (s.val.take l, s, t)
          else
            match encodeLoop draws codes t s l with
            | (content, t, s) => (content, s, t)

structure EncryptResult where
  /-- The bytes written, as many as the return value tells. -/
  out : Bytes
  /-- Where `*origin` points to. -/
  origin : Bytes
  cipher : Cipher

def encrypt (draws : Draws) (origin : Bytes) (size : U32) (c : Cipher) : EncryptResult :=
  if origin = [] ∨ size = 0 then ⟨[], origin, c⟩
  else
    let len := if MAX_ENCRYPT_SIZE < origin.length then MAX_ENCRYPT_SIZE else origin.length
    if CIPHER_BUFFER_SIZE < len then ⟨[], origin, c⟩
    else if size.toNat < estimateEncryptLen len then ⟨[], origin, c⟩
    else
      match encodeLoop draws mCodes (c.mBuffer.write (0 :: origin.take len)) c.mBuffer1
        (len + 1) with
      | (content, s, t) => ⟨pack content size.toNat, origin.drop len, ⟨s, t⟩⟩

/-! ## Decrypting -/

structure Unpacked where
  /-- What has been copied to `out`. -/
  out : Bytes
  /-- Where the parcel ends, if it does. -/
  rest : Option Bytes
  points : List CipherPoint

-- The loop of `unpack`; `out` has `CIPHER_BUFFER_SIZE` bytes in both calls.
def unpackLoop : Nat → Bytes → Bytes → Unpacked
  | 0, _, out => ⟨out, none, []⟩
  | fuel + 1, s, out =>
      match s with
      | hi :: lo :: s =>
          let l := (hi ++ lo : U16).toNat
          let sizet := CIPHER_BUFFER_SIZE - out.length
          if MAX_SECTION_SIZE < l ∨ s.length < l ∨ sizet < l then ⟨out, none, []⟩
          else if l ≠ MAX_SECTION_SIZE then ⟨out ++ s.take l, some (s.drop l), [.copy l sizet]⟩
          else
            let r := unpackLoop fuel (s.drop l) (out ++ s.take l)
            { r with points := .copy l sizet :: r.points }
      | _ => ⟨out, none, []⟩

def unpack (data : Bytes) : Unpacked := unpackLoop data.length data []

inductive ChainEnd where
  /-- A `break`: `l` bytes at `s`. -/
  | plain (s : Bytes) (l : U32)
  /-- `return 0`. -/
  | failed
  /-- An access outside the buffers. -/
  | fault
  /-- Not at all. -/
  | running
deriving DecidableEq

structure ChainResult where
  stop : ChainEnd
  s : Scratch
  t : Scratch
  points : List CipherPoint

def decodePoints (coder : Coder) (len l : U32) (written : Bytes) : List CipherPoint :=
  .decode coder len l ::
    match coder with
    | .padding => [.copy written.length CIPHER_BUFFER_SIZE]
    | .shift => []

-- The coder loop of `decrypt`: `l` bytes lie at the front of the buffer `s`.
def chainLoop : Nat → Scratch → Scratch → U32 → ChainResult
  | 0, s, t, _ => ⟨.running, s, t, []⟩
  | fuel + 1, s, t, l =>
      if l < 1 then ⟨.plain s.val l, s, t, []⟩
      else
        match s.val with
        | [] => ⟨.fault, s, t, []⟩
        | id :: data =>
            let l := l - 1
            if id = 0 then ⟨.plain data l, s, t, []⟩
            else
              match getCoder id with
              | none => ⟨.plain data l, s, t, []⟩
              | some coder =>
                  match coder.decode data l CIPHER_BUFFER_SIZE with
                  | none => ⟨.fault, s, t, []⟩
                  | some (l', written) =>
                      let points := decodePoints coder l l' written
                      let t := t.write written
                      if l' = 0 then ⟨.failed, s, t, points⟩
                      else
                        let r := chainLoop fuel t s l'
                        ⟨r.stop, r.t, r.s, points ++ r.points⟩

inductive DecryptEnd where
  | returned (i : U32)
  | fault
  | running
deriving DecidableEq

structure DecryptResult where
  stop : DecryptEnd
  /-- The bytes written. -/
  out : Bytes
  /-- Where `*data` points to. -/
  data : Bytes
  cipher : Cipher
  points : List CipherPoint

-- Behind the coder loop: take over the plain bytes, if there are any and they fit; `none` is a
-- `break`.
def takePlain (size i l : U32) (s : Bytes) : Option Bytes :=
  if 0 < l then if i + l < size then some (s.take l.toNat) else none else none

-- The end of a round of `decrypt`, behind the coder loop.  `points` are those of the round so far,
-- `next` is what the rounds behind it do.
def settle (size : U32) (data rest out : Bytes) (points : List CipherPoint) (r : ChainResult)
    (next : Bytes → Cipher → DecryptResult) : DecryptResult :=
  let i := BitVec.ofNat 32 out.length
  let c := ⟨r.s, r.t⟩
  match r.stop with
  | .fault => ⟨.fault, out, data, c, points⟩
  | .running => ⟨.running, out, data, c, points⟩
  -- what has been written is given up
  | .failed => ⟨.returned 0, out, data, c, points⟩
  | .plain s l =>
      match takePlain size i l s with
      | none => ⟨.returned i, out, rest, c, points⟩
      | some plain =>
          let points := points ++ [.copy l.toNat (size.toNat - out.length)]
          if plain.length < l.toNat ∨ size.toNat < out.length + l.toNat then
            ⟨.fault, out, data, c, points⟩
          else
            let r := next (out ++ plain) c
            { r with points := points ++ r.points }

-- The parcel loop of `decrypt`; `i` is the number of bytes in `out`.
def decryptLoop (size : U32) (data : Bytes) : Nat → Bytes → Bytes → Cipher → DecryptResult
  | 0, p1, out, c => ⟨.running, out, p1, c, []⟩
  | fuel + 1, p1, out, c =>
      let i := BitVec.ofNat 32 out.length
      if p1 = [] then ⟨.returned i, out, p1, c, []⟩
      else
        let u := unpack p1
        let c := { c with mBuffer := c.mBuffer.write u.out }
        match u.rest with
        | none => ⟨.returned i, out, p1, c, u.points⟩
        | some rest =>
            let l := BitVec.ofNat 32 u.out.length
            if l = 0 then ⟨.returned i, out, rest, c, u.points⟩
            else
              let r := chainLoop (u.out.length + 2) c.mBuffer c.mBuffer1 l
              settle size data rest out (u.points ++ .parcel l :: r.points) r
                (decryptLoop size data fuel rest)

def decrypt (data : Bytes) (size : U32) (c : Cipher) : DecryptResult :=
  if data = [] ∨ size = 0 then ⟨.returned 0, [], data, c, []⟩
  else if size.toNat < data.length then ⟨.returned 0, [], data, c, []⟩
  else decryptLoop size data (data.length + 1) data [] c

end Cipher

end NetCore
