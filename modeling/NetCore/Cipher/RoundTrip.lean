import NetCore.Cipher.Parcel

/-!
# What is encrypted is decrypted

Whatever the encoders draw, `encrypt` makes a frame whose coders peel off to the message, so
`decrypt` reads a row of parcels back to the row of messages and stops before what is incomplete.
-/

namespace NetCore

-- Turning a byte forth and back.
theorem turn_back (b : U8) {k : Nat} (hk : k < 8) :
    (b <<< k ||| b >>> (8 - k)) >>> k ||| (b <<< k ||| b >>> (8 - k)) <<< (8 - k) = b := by
  have hall : ∀ k : Fin 8, ∀ b : Fin 256,
      ((BitVec.ofFin b <<< k.val ||| BitVec.ofFin b >>> (8 - k.val)) >>> k.val |||
        (BitVec.ofFin b <<< k.val ||| BitVec.ofFin b >>> (8 - k.val)) <<< (8 - k.val) : U8) =
        BitVec.ofFin b := by
    decide +kernel
  exact hall ⟨k, hk⟩ b.toFin

namespace ShiftCoder

theorem decodeLoop_encodeLoop {k : Nat} (hk : k < 8) (data : Bytes) :
    decodeLoop k (encodeLoop k data) = data := by
  induction data generalizing k with
  | nil => rfl
  | cons b data ih =>
    have hnext : (if 7 < k + 1 then 0 else k + 1) < 8 := by
      split <;> omega
    rw [encodeLoop, decodeLoop, turn_back b hk, ih hnext]

theorem length_encodeLoop (k : Nat) (data : Bytes) : (encodeLoop k data).length = data.length := by
  induction data generalizing k with
  | nil => rfl
  | cons b data ih => rw [encodeLoop, List.length_cons, ih, List.length_cons]

-- What `encode` writes when there is room.
theorem encode_eq (rand : Nat) {data : Bytes} {size : Nat} (h : data.length < size) :
    encode rand data size = BitVec.ofNat 8 (rand % 8) :: encodeLoop (rand % 8) data := by
  unfold encode
  simp only
  rw [if_neg (by omega)]

theorem undo_encode (rand : Nat) {data : Bytes} {size : Nat} (h : data.length < size) :
    Coder.undo .shift (encode rand data size) = some data := by
  have hk : rand % 8 < 8 := Nat.mod_lt _ (by decide)
  have hnat : (BitVec.ofNat 8 (rand % 8)).toNat = rand % 8 := by
    rw [BitVec.toNat_ofNat]
    omega
  rw [encode_eq rand h, Coder.undo, hnat, if_neg (by omega), decodeLoop_encodeLoop hk]

end ShiftCoder

namespace PaddingCoder

def drawn (rand : Nat → Nat) (len size : Nat) : Nat :=
  let range := paddingRange len
  let range := if size - len - 2 < range then size - len - 2 else range
  if 0 < range then rand 0 % range + 1 else 0

theorem drawn_le (rand : Nat → Nat) (len size : Nat) : drawn rand len size ≤ paddingRange len := by
  have hrange (range : Nat) : (if 0 < range then rand 0 % range + 1 else 0) ≤ range := by
    split
    next hpos => exact Nat.mod_lt (rand 0) hpos
    next => exact Nat.zero_le range
  refine Nat.le_trans (hrange _) ?_
  split <;> omega

theorem paddingRange_le (len : Nat) : len + paddingRange len ≤ max MAX_SECTION_SIZE (len + 2) := by
  unfold paddingRange
  split <;> omega

theorem encode_eq (rand : Nat → Nat) {data : Bytes} {size : Nat} (h : data.length + 3 < size) :
    encode rand data size = beBytes16 (BitVec.ofNat 16 (drawn rand data.length size)) ++
      (List.range (drawn rand data.length size)).map (fun i => BitVec.ofNat 8 (rand (i + 1))) ++
      data := by
  unfold encode
  simp only
  rw [if_neg (by omega)]
  rfl

theorem length_encode (rand : Nat → Nat) {data : Bytes} {size : Nat} (h : data.length + 3 < size) :
    (encode rand data size).length = drawn rand data.length size + 2 + data.length := by
  rw [encode_eq rand h, List.length_append, List.length_append, List.length_map, List.length_range,
    length_beBytes16]
  omega

theorem undo_encode (rand : Nat → Nat) {data : Bytes} {size : Nat} (h : data.length + 3 < size) :
    Coder.undo .padding (encode rand data size) = some data := by
  have hle := drawn_le rand data.length size
  have hrange := paddingRange_le data.length
  have hsection := Cipher.maxSectionSize_eq
  have hnat : (BitVec.ofNat 16 (drawn rand data.length size)).toNat =
      drawn rand data.length size := by
    rw [BitVec.toNat_ofNat]
    unfold paddingRange at hle
    split at hle <;> omega
  have hword := beBytes16_append (BitVec.ofNat 16 (drawn rand data.length size))
  rw [encode_eq rand h, List.append_assoc, beBytes16, List.cons_append, List.cons_append,
    List.nil_append, Coder.undo, hword, hnat,
    List.drop_left' (by rw [List.length_map, List.length_range])]

end PaddingCoder

namespace Cipher

-- The bytes `encrypt` packs for a message.
def sealContent (draws : Draws) (m : Bytes) : Bytes :=
  codePADDING :: PaddingCoder.encode draws.padding
    (codeSHIFT :: ShiftCoder.encode draws.shift (0 :: m) (CIPHER_BUFFER_SIZE - 1))
    (CIPHER_BUFFER_SIZE - 1)

theorem maxEncryptSize_eq : MAX_ENCRYPT_SIZE = 4096 := rfl

theorem length_shifted (draws : Draws) {m : Bytes} (hm : m.length ≤ MAX_ENCRYPT_SIZE) :
    (ShiftCoder.encode draws.shift (0 :: m) (CIPHER_BUFFER_SIZE - 1)).length = m.length + 2 := by
  rw [maxEncryptSize_eq] at hm
  have hsize := cipherBufferSize_eq
  rw [ShiftCoder.encode_eq _ (by rw [List.length_cons]; omega), List.length_cons,
    ShiftCoder.length_encodeLoop, List.length_cons]

theorem length_sealContent (draws : Draws) {m : Bytes} (hm : m.length ≤ MAX_ENCRYPT_SIZE) :
    m.length + 6 ≤ (sealContent draws m).length ∧
      (sealContent draws m).length ≤ MAX_ENCRYPT_SIZE + 8 := by
  have hshifted := length_shifted draws hm
  rw [maxEncryptSize_eq] at hm ⊢
  have hsize := cipherBufferSize_eq
  have hsection := maxSectionSize_eq
  unfold sealContent
  rw [List.length_cons, PaddingCoder.length_encode _ (by rw [List.length_cons, hshifted]; omega),
    List.length_cons, hshifted]
  have hle := PaddingCoder.drawn_le draws.padding (m.length + 2 + 1) (CIPHER_BUFFER_SIZE - 1)
  have hrange := PaddingCoder.paddingRange_le (m.length + 2 + 1)
  omega

-- The coders of an encrypted message peel off.
theorem peel_sealContent (draws : Draws) {m : Bytes} (hm : m.length ≤ MAX_ENCRYPT_SIZE) :
    peel (sealContent draws m) = .plain m := by
  have hshifted := length_shifted draws hm
  rw [maxEncryptSize_eq] at hm
  have hsize := cipherBufferSize_eq
  have hpad : codePADDING ≠ codeSHIFT := by decide
  unfold sealContent
  rw [peel_coded (show getCoder codePADDING = some .padding from rfl)
    (PaddingCoder.undo_encode _ (by rw [List.length_cons, hshifted]; omega)) (List.cons_ne_nil _ _),
    peel_coded (show getCoder codeSHIFT = some .shift from rfl)
      (ShiftCoder.undo_encode _ (by rw [List.length_cons]; omega)) (List.cons_ne_nil _ _),
    peel_bare (show getCoder 0 = none from rfl)]

-- One code of the loop of `encrypt`.
theorem encodeLoop_cons (draws : Draws) {id : U8} {coder : Coder} {codes : List U8}
    {s t : Scratch} {l : Nat} {data : Bytes} (hid : getCoder id = some coder)
    (hfront : s.val.take l = data)
    (hpos : coder.encode draws data (CIPHER_BUFFER_SIZE - 1) ≠ []) :
    (encodeLoop draws (id :: codes) s t l).1 =
      (encodeLoop draws codes
        (t.write (id :: coder.encode draws data (CIPHER_BUFFER_SIZE - 1))) s
        ((coder.encode draws data (CIPHER_BUFFER_SIZE - 1)).length + 1)).1 := by
  have hlen := List.length_pos_iff.mpr hpos
  rw [encodeLoop, hid]
  simp only
  rw [hfront, if_neg (by omega)]

-- The loop of `encrypt` over its two codes.
theorem encodeLoop_mCodes (draws : Draws) {s t : Scratch} {m : Bytes}
    (hm : m.length ≤ MAX_ENCRYPT_SIZE) (hfront : s.val.take (m.length + 1) = 0 :: m) :
    (encodeLoop draws mCodes s t (m.length + 1)).1 = sealContent draws m := by
  have hshifted := length_shifted draws hm
  have hlen := length_sealContent draws hm
  have hsize := cipherBufferSize_eq
  rw [maxEncryptSize_eq] at hm hlen
  unfold sealContent at hlen ⊢
  rw [List.length_cons] at hlen
  have hshift := t.write_cons codeSHIFT
    (show (ShiftCoder.encode draws.shift (0 :: m) (CIPHER_BUFFER_SIZE - 1)).length <
      CIPHER_BUFFER_SIZE by omega)
  refine (encodeLoop_cons draws (show getCoder codeSHIFT = some .shift from rfl) hfront ?_).trans ?_
  · exact List.ne_nil_of_length_pos (by rw [Coder.encode, hshifted]; omega)
  refine (encodeLoop_cons draws (show getCoder codePADDING = some .padding from rfl) hshift ?_).trans ?_
  · exact List.ne_nil_of_length_pos (by rw [Coder.encode]; omega)
  refine s.write_cons codePADDING ?_
  show (PaddingCoder.encode _ _ _).length < _
  omega

-- The front of a message is cut off by its length.
theorem cut_front (origin : Bytes) :
    (if MAX_ENCRYPT_SIZE < origin.length then MAX_ENCRYPT_SIZE else origin.length) =
        (origin.take MAX_ENCRYPT_SIZE).length ∧
      origin.take (origin.take MAX_ENCRYPT_SIZE).length = origin.take MAX_ENCRYPT_SIZE ∧
      origin.drop (origin.take MAX_ENCRYPT_SIZE).length = origin.drop MAX_ENCRYPT_SIZE := by
  rw [List.length_take]
  rcases Nat.le_total MAX_ENCRYPT_SIZE origin.length with hle | hle
  · rw [Nat.min_eq_left hle]
    refine ⟨?_, rfl, rfl⟩
    split <;> omega
  · rw [Nat.min_eq_right hle, List.take_of_length_le hle, List.drop_of_length_le hle,
      List.take_length, List.drop_length, if_neg (by omega)]
    exact ⟨rfl, rfl, rfl⟩

-- What `encrypt` writes and where it leaves `*origin`, when it does not refuse.
theorem encrypt_sealed {draws : Draws} {origin : Bytes} {size : U32} {c : Cipher}
    (hne : origin ≠ [])
    (hroom : estimateEncryptLen (origin.take MAX_ENCRYPT_SIZE).length ≤ size.toNat) :
    (encrypt draws origin size c).out =
        pack (sealContent draws (origin.take MAX_ENCRYPT_SIZE)) size.toNat ∧
      (encrypt draws origin size c).origin = origin.drop MAX_ENCRYPT_SIZE := by
  have hsize := cipherBufferSize_eq
  have hmax := maxEncryptSize_eq
  have hm : (origin.take MAX_ENCRYPT_SIZE).length ≤ MAX_ENCRYPT_SIZE := List.length_take_le _ _
  have hzero : size ≠ 0 := by
    rintro rfl
    have hpos : 2 ≤ estimateEncryptLen (origin.take MAX_ENCRYPT_SIZE).length := Nat.le_add_left _ _
    rw [show (0 : U32).toNat = 0 from rfl] at hroom
    omega
  obtain ⟨hlen, htake, hdrop⟩ := cut_front origin
  have hfront : (c.mBuffer.write (0 :: origin.take MAX_ENCRYPT_SIZE)).val.take
      ((origin.take MAX_ENCRYPT_SIZE).length + 1) = 0 :: origin.take MAX_ENCRYPT_SIZE :=
    c.mBuffer.write_cons 0 (by omega)
  unfold encrypt
  simp only [hlen, htake, hdrop]
  rw [if_neg (fun h => h.elim hne hzero), if_neg (by omega), if_neg (by omega),
    ← encodeLoop_mCodes draws (t := c.mBuffer1) hm hfront]
  exact ⟨rfl, rfl⟩

theorem encrypt_refused {draws : Draws} {origin : Bytes} {size : U32} {c : Cipher}
    (h : origin = [] ∨ size.toNat < estimateEncryptLen (origin.take MAX_ENCRYPT_SIZE).length) :
    (encrypt draws origin size c).out = [] := by
  have hsize := cipherBufferSize_eq
  have hmax := maxEncryptSize_eq
  have hm : (origin.take MAX_ENCRYPT_SIZE).length ≤ MAX_ENCRYPT_SIZE := List.length_take_le _ _
  obtain ⟨hlen, -⟩ := cut_front origin
  unfold encrypt
  by_cases hbad : origin = [] ∨ size = 0
  · rw [if_pos hbad]
  · have hroom := h.resolve_left fun hempty => hbad (.inl hempty)
    simp only [hlen]
    rw [if_neg hbad, if_neg (by omega), if_pos hroom]

-- Whatever `encrypt` writes is the packed content.
theorem encrypt_eq {draws : Draws} {origin : Bytes} {size : U32} {c : Cipher}
    (h : (encrypt draws origin size c).out ≠ []) :
    origin ≠ [] ∧
      (encrypt draws origin size c).out =
        pack (sealContent draws (origin.take MAX_ENCRYPT_SIZE)) size.toNat ∧
      (encrypt draws origin size c).origin = origin.drop MAX_ENCRYPT_SIZE := by
  have hne : origin ≠ [] := fun hempty => h (encrypt_refused (.inl hempty))
  have hroom : estimateEncryptLen (origin.take MAX_ENCRYPT_SIZE).length ≤ size.toNat :=
    Nat.le_of_not_lt fun hlt => h (encrypt_refused (.inr hlt))
  exact ⟨hne, encrypt_sealed hne hroom⟩

theorem estimatePackLen_le (len : Nat) : estimatePackLen len ≤ len + len / 512 + 4 := by
  unfold estimatePackLen
  rw [maxSectionSize_eq, Nat.shiftLeft_eq]
  omega

-- A buffer of `MAX_PARCEL_SIZE` bytes is enough for any message.
theorem encrypt_succeeds (draws : Draws) {m : Bytes} {size : U32} (c : Cipher) (hm : m ≠ [])
    (hsize : MAX_PARCEL_SIZE ≤ size.toNat) : (encrypt draws m size c).out ≠ [] := by
  have hparcel : MAX_PARCEL_SIZE = 8192 := rfl
  have hmax := maxEncryptSize_eq
  have hsection := maxSectionSize_eq
  have htake : (m.take MAX_ENCRYPT_SIZE).length ≤ MAX_ENCRYPT_SIZE := List.length_take_le _ _
  obtain ⟨hpos, hlen⟩ := length_sealContent draws htake
  have hestimate : estimateEncryptLen (m.take MAX_ENCRYPT_SIZE).length ≤ size.toNat := by
    have hpack := estimatePackLen_le
      (PaddingCoder.encodeLen ((m.take MAX_ENCRYPT_SIZE).length + 1 + 1 + 1) + 1)
    have hrange := PaddingCoder.paddingRange_le ((m.take MAX_ENCRYPT_SIZE).length + 1 + 1 + 1)
    have hpadded : PaddingCoder.encodeLen ((m.take MAX_ENCRYPT_SIZE).length + 1 + 1 + 1) =
        PaddingCoder.paddingRange ((m.take MAX_ENCRYPT_SIZE).length + 1 + 1 + 1) +
          ((m.take MAX_ENCRYPT_SIZE).length + 1 + 1 + 1) := rfl
    show estimatePackLen _ ≤ _
    refine Nat.le_trans hpack ?_
    omega
  have hpack := estimatePackLen_le (sealContent draws (m.take MAX_ENCRYPT_SIZE)).length
  have hne : sealContent draws (m.take MAX_ENCRYPT_SIZE) ≠ [] :=
    List.ne_nil_of_length_pos (by omega)
  have hwritten := (length_packLoop 0
    (Nat.le_refl (sealContent draws (m.take MAX_ENCRYPT_SIZE)).length)).2 hne
  rw [(encrypt_sealed hm hestimate).1]
  unfold pack
  rw [if_neg (fun h => h.elim hne (by omega)), if_neg (by omega)]
  simp only
  refine List.ne_nil_of_length_pos ?_
  split
  · rw [List.length_append]
    omega
  · omega

/-- `x` is the parcel some call of `encrypt` made of `m`. -/
def Encrypts (m x : Bytes) : Prop :=
  ∃ draws size c, (encrypt draws m size c).out = x ∧ x ≠ []

-- Only the front of a message is encrypted.
theorem encrypts_front {draws : Draws} {origin : Bytes} {size : U32} {c : Cipher}
    (h : (encrypt draws origin size c).out ≠ []) :
    Encrypts (origin.take MAX_ENCRYPT_SIZE) (encrypt draws origin size c).out := by
  obtain ⟨hne, hout, -⟩ := encrypt_eq h
  have hroom : estimateEncryptLen (origin.take MAX_ENCRYPT_SIZE).length ≤ size.toNat :=
    Nat.le_of_not_lt fun hlt => h (encrypt_refused (.inr hlt))
  have htake : (origin.take MAX_ENCRYPT_SIZE).take MAX_ENCRYPT_SIZE = origin.take MAX_ENCRYPT_SIZE := by
    rw [List.take_take, Nat.min_self]
  have hfront : origin.take MAX_ENCRYPT_SIZE ≠ [] := fun hnil => by
    rcases List.take_eq_nil_iff.mp hnil with hzero | hnil
    · cases hzero
    · exact hne hnil
  rw [← htake] at hroom
  refine ⟨draws, size, c, ?_, h⟩
  rw [(encrypt_sealed hfront hroom).1, htake, hout]

-- An encrypted message is a frame whose coders peel off to what was taken of the message.
theorem Encrypts.isFrame {m x : Bytes} (h : Encrypts m x) :
    ∃ content, Lib.IsFrame parcel content x ∧ peel content = .plain (m.take MAX_ENCRYPT_SIZE) := by
  obtain ⟨draws, size, c, rfl, hne⟩ := h
  have hm : (m.take MAX_ENCRYPT_SIZE).length ≤ MAX_ENCRYPT_SIZE := List.length_take_le _ _
  have hlen := (length_sealContent draws hm).2
  have hsize := cipherBufferSize_eq
  have hmax := maxEncryptSize_eq
  have hout := (encrypt_eq hne).2.1
  rw [hout] at hne ⊢
  exact ⟨_, pack_isFrame (by omega) hne, peel_sealContent draws hm⟩

-- No parcel is longer than a share buffer.
theorem Encrypts.length_le {m x : Bytes} (h : Encrypts m x) : x.length ≤ MAX_PARCEL_SIZE := by
  obtain ⟨draws, size, c, rfl, hne⟩ := h
  have hm : (m.take MAX_ENCRYPT_SIZE).length ≤ MAX_ENCRYPT_SIZE := List.length_take_le _ _
  have hlen := (length_sealContent draws hm).2
  have hmax := maxEncryptSize_eq
  have hparcel : MAX_PARCEL_SIZE = 8192 := rfl
  have hpack := length_pack_le (sealContent draws (m.take MAX_ENCRYPT_SIZE)) size.toNat
  rw [(encrypt_eq hne).2.1]
  omega

-- A parcel at the front of the stream, with something in it.
theorem readLoop_parcel {fuel : Nat} {content x plain : Bytes} (hx : Lib.IsFrame parcel content x)
    (hpeel : peel content = .plain plain) (hne : plain ≠ []) (y out : Bytes) :
    readLoop (fuel + 1) (x ++ y) out = readLoop fuel y (out ++ plain) :=
  readLoop_plain (parcel_framing.next_frame hx y) hpeel hne out

-- Reading a row of parcels and an incomplete one behind them.
theorem readLoop_parcels {ms xs : List Bytes} {p : Bytes}
    (hxs : List.Forall₂ (fun m x => m.length ≤ MAX_ENCRYPT_SIZE ∧ Encrypts m x) ms xs)
    (hp : parcel p = none) {fuel : Nat} (hfuel : (xs.flatten ++ p).length < fuel) (out : Bytes) :
    readLoop fuel (xs.flatten ++ p) out = .returned (out ++ ms.flatten) p := by
  induction hxs generalizing fuel out with
  | nil =>
    obtain ⟨fuel, rfl⟩ := Nat.exists_eq_succ_of_ne_zero (Nat.ne_of_gt (Nat.zero_lt_of_lt hfuel))
    rw [List.flatten_nil, List.nil_append, List.append_nil, readLoop, hp]
  | @cons m x ms xs hx _ ih =>
    obtain ⟨fuel, rfl⟩ := Nat.exists_eq_succ_of_ne_zero (Nat.ne_of_gt (Nat.zero_lt_of_lt hfuel))
    obtain ⟨content, hframe, hpeel⟩ := hx.2.isFrame
    obtain ⟨draws, size, c, rfl, hne⟩ := hx.2
    have hm := (encrypt_eq hne).1
    have hpos := List.length_pos_iff.mpr hne
    rw [List.take_of_length_le hx.1] at hpeel
    rw [List.flatten_cons, List.append_assoc, List.length_append] at hfuel
    rw [List.flatten_cons, List.append_assoc, readLoop_parcel hframe hpeel hm, ih (by omega),
      List.append_assoc, List.flatten_cons]

/-- An encrypted row of messages, with an incomplete parcel behind it, decrypts to the messages and
    leaves what is incomplete; and what `encrypt` takes off the front of a message is what `decrypt`
    gives back. -/
theorem decrypt_encrypt :
    (∀ {ms xs : List Bytes} {m x p : Bytes} {size : U32} (c : Cipher),
      List.Forall₂ (fun m x => m.length ≤ MAX_ENCRYPT_SIZE ∧ Encrypts m x) ms xs →
      Encrypts m x → p <+: x → p ≠ x → (xs.flatten ++ p).length ≤ size.toNat →
      (decrypt (xs.flatten ++ p) size c).stop = .returned (BitVec.ofNat 32 ms.flatten.length) ∧
        (decrypt (xs.flatten ++ p) size c).out = ms.flatten ∧
        (decrypt (xs.flatten ++ p) size c).data = p) ∧
    ∀ {draws : Draws} {origin : Bytes} {size size' : U32} (c c' : Cipher),
      (encrypt draws origin size c).out ≠ [] →
      (encrypt draws origin size c).out.length ≤ size'.toNat →
      (decrypt (encrypt draws origin size c).out size' c').out ++
        (encrypt draws origin size c).origin = origin := by
  constructor
  · intro ms xs m x p size c hxs hx hp hne hsize
    obtain ⟨content, hframe, -⟩ := hx.isFrame
    have hnone := parcel_framing.next_prefix hframe hp hne
    refine (decrypt_spec hsize c).returned _ _ ?_
    rw [readParcels, readLoop_parcels hxs hnone (Nat.lt_succ_self _), List.nil_append]
  · intro draws origin size size' c c' hne hsize
    have hencrypts : Encrypts origin (encrypt draws origin size c).out := ⟨draws, size, c, rfl, hne⟩
    obtain ⟨content, hframe, hpeel⟩ := hencrypts.isFrame
    have horigin := (encrypt_eq hne).1
    have htake : origin.take MAX_ENCRYPT_SIZE ≠ [] := by
      rw [Ne, List.take_eq_nil_iff]
      exact fun h => h.elim (by decide) horigin
    have hread : readParcels (encrypt draws origin size c).out =
        .returned (origin.take MAX_ENCRYPT_SIZE) [] := by
      have hpos := List.length_pos_iff.mpr hne
      obtain ⟨n, hn⟩ := Nat.exists_eq_succ_of_ne_zero (Nat.ne_of_gt hpos)
      have hfirst : readLoop (n + 1 + 1) ((encrypt draws origin size c).out ++ []) [] =
          readLoop (n + 1) [] ([] ++ origin.take MAX_ENCRYPT_SIZE) :=
        readLoop_parcel hframe hpeel htake [] []
      rw [List.append_nil, List.nil_append] at hfirst
      rw [readParcels, hn, Nat.succ_eq_add_one, hfirst]
      rfl
    rw [((decrypt_spec hsize c').returned _ _ hread).2.1, (encrypt_eq hne).2.2,
      List.take_append_drop]

-- Every number drawn is 0: one byte of padding, where there is room for it, and no shift at first.
def sampleDraws : Draws where
  shift := 0
  padding _ := 0

def sampleParcel (m : Bytes) : Bytes :=
  (encrypt sampleDraws m (BitVec.ofNat 32 MAX_PARCEL_SIZE) sampleCipher).out

theorem sampleParcel_encrypts {m : Bytes} (hm : m ≠ []) : Encrypts m (sampleParcel m) :=
  ⟨_, _, _, rfl, encrypt_succeeds sampleDraws sampleCipher hm (by decide)⟩

/-- Two messages with the start of a third, and a message of more than one parcel. -/
theorem decrypt_encrypt_sample :
    ((decrypt ([sampleParcel [1, 2], sampleParcel [3, 4, 5]].flatten ++ (sampleParcel [6]).take 4)
        20000 sampleCipher).stop = .returned 5 ∧
      (decrypt ([sampleParcel [1, 2], sampleParcel [3, 4, 5]].flatten ++ (sampleParcel [6]).take 4)
        20000 sampleCipher).out = [1, 2, 3, 4, 5] ∧
      (decrypt ([sampleParcel [1, 2], sampleParcel [3, 4, 5]].flatten ++ (sampleParcel [6]).take 4)
        20000 sampleCipher).data = (sampleParcel [6]).take 4) ∧
    (decrypt (sampleParcel (List.replicate 5000 7)) 8192 sampleCipher).out ++
      (encrypt sampleDraws (List.replicate 5000 7) (BitVec.ofNat 32 MAX_PARCEL_SIZE)
        sampleCipher).origin = List.replicate 5000 7 := by
  have hencrypts {m : Bytes} (hne : m ≠ []) := sampleParcel_encrypts hne
  have hone : ([1, 2] : Bytes) ≠ [] := by decide
  have htwo : ([3, 4, 5] : Bytes) ≠ [] := by decide
  have hthree : ([6] : Bytes) ≠ [] := by decide
  have hlong : List.replicate 5000 (7 : U8) ≠ [] := by
    refine List.ne_nil_of_length_pos ?_
    rw [List.length_replicate]
    decide
  constructor
  · have hmax : MAX_PARCEL_SIZE = 8192 := rfl
    have hfirst := (hencrypts hone).length_le
    have hsecond := (hencrypts htwo).length_le
    have hcut : (sampleParcel [6]).take 4 ≠ sampleParcel [6] := by
      have hlen : (sampleParcel [6]).length = 10 := by
        obtain ⟨_, _, _, -, hne⟩ := hencrypts hthree
        have hout : sampleParcel [6] = _ := (encrypt_eq hne).2.1
        rw [hout]
        decide
      intro heq
      have htaken := congrArg List.length heq
      rw [List.length_take, hlen] at htaken
      exact absurd htaken (by decide)
    have hsize : ([sampleParcel [1, 2], sampleParcel [3, 4, 5]].flatten ++
        (sampleParcel [6]).take 4).length ≤ (20000 : U32).toNat := by
      have htake : ((sampleParcel [6]).take 4).length ≤ 4 := List.length_take_le _ _
      show _ ≤ 20000
      rw [List.length_append, List.flatten_cons, List.flatten_cons, List.flatten_nil,
        List.append_nil, List.length_append]
      omega
    have hparcels : List.Forall₂ (fun m x => m.length ≤ MAX_ENCRYPT_SIZE ∧ Encrypts m x)
        [[1, 2], [3, 4, 5]] [sampleParcel [1, 2], sampleParcel [3, 4, 5]] :=
      .cons ⟨by decide, hencrypts hone⟩ (.cons ⟨by decide, hencrypts htwo⟩ .nil)
    exact decrypt_encrypt.1 sampleCipher hparcels (hencrypts hthree) (List.take_prefix 4 _) hcut hsize
  · obtain ⟨_, _, _, -, hparcel⟩ := hencrypts hlong
    exact decrypt_encrypt.2 sampleCipher sampleCipher hparcel (hencrypts hlong).length_le

end Cipher

end NetCore
