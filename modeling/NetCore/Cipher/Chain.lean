import NetCore.Cipher

/-!
# Undoing the coders

`peel` undoes the coders of a parcel on the list of its bytes.  The coder loop of `decrypt` computes
it in the two scratch buffers, whatever they held before, unless a coder is handed fewer bytes than
its decoder reads.
-/

namespace NetCore

theorem cipherBufferSize_eq : CIPHER_BUFFER_SIZE = 8192 := rfl

-- What has been written is at the front.
theorem Scratch.write_front (buffer : Scratch) {bytes : Bytes}
    (h : bytes.length ≤ CIPHER_BUFFER_SIZE) :
    (buffer.write bytes).val.take bytes.length = bytes := by
  have hlen := buffer.property
  show ((bytes ++ buffer.val.drop bytes.length).take CIPHER_BUFFER_SIZE).take bytes.length = bytes
  rw [List.take_take, Nat.min_eq_left h, List.take_left]

theorem Scratch.write_cons (buffer : Scratch) (b : U8) {bytes : Bytes}
    (h : bytes.length < CIPHER_BUFFER_SIZE) :
    (buffer.write (b :: bytes)).val.take (bytes.length + 1) = b :: bytes := by
  have hfront := buffer.write_front (show (b :: bytes).length ≤ CIPHER_BUFFER_SIZE from h)
  rwa [List.length_cons] at hfront

namespace Coder

/-- Undo a coder: `none` when the bytes are too few to look at, nothing when it fails. -/
def undo : Coder → Bytes → Option Bytes
  | padding, hi :: lo :: data => some (data.drop (hi ++ lo : U16).toNat)
  | padding, _ => none
  | shift, k :: data => some (if 7 < k.toNat then [] else ShiftCoder.decodeLoop k.toNat data)
  | shift, [] => none

end Coder

theorem ShiftCoder.length_decodeLoop (shift : Nat) (data : Bytes) :
    (decodeLoop shift data).length = data.length := by
  induction data generalizing shift with
  | nil => rfl
  | cons b data ih => rw [decodeLoop, List.length_cons, ih, List.length_cons]

namespace Coder

-- A coder takes its header off, at least.
theorem length_undo {coder : Coder} {data data' : Bytes} (h : coder.undo data = some data') :
    coder.headerLen ≤ data.length ∧ data'.length < data.length := by
  cases coder with
  | padding =>
    match data with
    | hi :: lo :: data =>
      cases h
      simp only [headerLen, List.length_cons, List.length_drop]
      omega
  | shift =>
    match data with
    | k :: data =>
      rw [undo, Option.some.injEq] at h
      have hlen := ShiftCoder.length_decodeLoop k.toNat data
      constructor
      · exact Nat.succ_pos _
      · rw [← h, List.length_cons]
        split
        · exact Nat.succ_pos _
        · omega

theorem undo_eq_none {coder : Coder} {data : Bytes} (h : coder.undo data = none) :
    data.length < coder.headerLen := by
  cases coder with
  | padding =>
    match data with
    | [] => exact Nat.two_pos
    | [_] => exact Nat.one_lt_two
    | _ :: _ :: _ => cases h
  | shift =>
    match data with
    | [] => exact Nat.one_pos
    | _ :: _ => cases h

end Coder

-- The length `PaddingCoder::decode` computes in 32 bits, and looks at as an `int`.
theorem padding_length {len padding : Nat} (hlen : len ≤ CIPHER_BUFFER_SIZE)
    (hpadding : padding < 2 ^ 16) :
    (padding + 2 ≤ len → ((BitVec.ofNat 32 len - BitVec.ofNat 32 padding - 2).toNat =
        len - padding - 2 ∧ 0 ≤ (BitVec.ofNat 32 len - BitVec.ofNat 32 padding - 2).toInt)) ∧
      (len < padding + 2 → (BitVec.ofNat 32 len - BitVec.ofNat 32 padding - 2).toInt < 0) := by
  have htwo : (2 : U32).toNat = 2 := rfl
  rw [cipherBufferSize_eq] at hlen
  constructor
  · intro hle
    have hnat : (BitVec.ofNat 32 len - BitVec.ofNat 32 padding - 2).toNat = len - padding - 2 := by
      rw [BitVec.toNat_sub, BitVec.toNat_sub, BitVec.toNat_ofNat, BitVec.toNat_ofNat]
      omega
    refine ⟨hnat, ?_⟩
    rw [BitVec.toInt_eq_toNat_of_lt (by omega)]
    omega
  · intro hlt
    have hnat : (BitVec.ofNat 32 len - BitVec.ofNat 32 padding - 2).toNat =
        2 ^ 32 + len - padding - 2 := by
      rw [BitVec.toNat_sub, BitVec.toNat_sub, BitVec.toNat_ofNat, BitVec.toNat_ofNat]
      omega
    rw [BitVec.toInt_eq_toNat_cond, if_neg (by omega)]
    omega

theorem PaddingCoder.decode_eq (hi lo : U8) {data : Bytes} {n : Nat} (hn : n ≤ data.length)
    (hbuffer : n + 2 ≤ CIPHER_BUFFER_SIZE) :
    decode (hi :: lo :: data) (BitVec.ofNat 32 (n + 2)) CIPHER_BUFFER_SIZE =
      some (BitVec.ofNat 32 ((data.take n).drop (hi ++ lo : U16).toNat).length,
        (data.take n).drop (hi ++ lo : U16).toNat) := by
  have hsize := cipherBufferSize_eq
  obtain ⟨hfits, hshort⟩ := padding_length hbuffer (hi ++ lo : U16).isLt
  have hpad : (hi ++ lo : U16).setWidth 32 = BitVec.ofNat 32 (hi ++ lo : U16).toNat :=
    BitVec.eq_of_toNat_eq (by rw [BitVec.toNat_setWidth, BitVec.toNat_ofNat])
  have hlen : ((data.take n).drop (hi ++ lo : U16).toNat).length = n - (hi ++ lo : U16).toNat := by
    rw [List.length_drop, List.length_take, Nat.min_eq_left hn]
  unfold decode
  simp only
  rw [hpad]
  by_cases hle : (hi ++ lo : U16).toNat ≤ n
  · obtain ⟨hnat, hnonneg⟩ := hfits (by omega)
    rw [if_neg (by omega), hnat, if_pos (by simp only [List.length_cons]; omega)]
    refine congrArg some (Prod.ext ?_ ?_)
    · apply BitVec.eq_of_toNat_eq
      rw [hnat, hlen, BitVec.toNat_ofNat]
      omega
    · rw [List.drop_take]
      show List.take _ (data.drop _) = _
      congr 1
      omega
  · have hnil : (data.take n).drop (hi ++ lo : U16).toNat = [] :=
      List.length_eq_zero_iff.mp (by omega)
    rw [if_pos (hshort (by omega)), hnil]
    rfl

theorem ShiftCoder.decode_eq (k : U8) {data : Bytes} {n : Nat} (hn : n ≤ data.length)
    (hbuffer : n + 1 ≤ CIPHER_BUFFER_SIZE) :
    decode (k :: data) (BitVec.ofNat 32 (n + 1)) CIPHER_BUFFER_SIZE =
      if 7 < k.toNat then some (0, [])
      else some (BitVec.ofNat 32 n, decodeLoop k.toNat (data.take n)) := by
  have hsize := cipherBufferSize_eq
  have hnat : (BitVec.ofNat 32 (n + 1)).toNat = n + 1 := by
    rw [BitVec.toNat_ofNat]
    omega
  have hone : (1 : U32).toNat = 1 := rfl
  unfold decode
  simp only
  rw [hnat, Nat.add_sub_cancel]
  split
  · rfl
  · rw [if_pos (by omega)]
    refine congrArg some (Prod.ext ?_ rfl)
    apply BitVec.eq_of_toNat_eq
    rw [BitVec.toNat_sub, hnat, BitVec.toNat_ofNat]
    omega

namespace Coder

-- A decoder that is given enough bytes does what `undo` does, whatever lies behind them.
theorem decode_undo {coder : Coder} {data data' : Bytes} {n : Nat} (hn : n ≤ data.length)
    (hbuffer : n ≤ CIPHER_BUFFER_SIZE) (h : coder.undo (data.take n) = some data') :
    coder.decode data (BitVec.ofNat 32 n) CIPHER_BUFFER_SIZE =
      some (BitVec.ofNat 32 data'.length, data') := by
  have hheader := (length_undo h).1
  rw [List.length_take, Nat.min_eq_left hn] at hheader
  obtain ⟨m, rfl⟩ := Nat.exists_eq_add_of_le' hheader
  cases coder with
  | padding =>
    match data, hn, h with
    | hi :: lo :: data, hn, h =>
      have hn' : m ≤ data.length := by
        simp only [headerLen, List.length_cons] at hn
        omega
      rw [headerLen, List.take_succ_cons, List.take_succ_cons, undo, Option.some.injEq] at h
      rw [← h]
      exact PaddingCoder.decode_eq hi lo hn' hbuffer
  | shift =>
    match data, hn, h with
    | k :: data, hn, h =>
      have hn' : m ≤ data.length := by
        simp only [headerLen, List.length_cons] at hn
        omega
      rw [headerLen, List.take_succ_cons, undo, Option.some.injEq] at h
      have hlen : (ShiftCoder.decodeLoop k.toNat (data.take m)).length = m := by
        rw [ShiftCoder.length_decodeLoop, List.length_take, Nat.min_eq_left hn']
      rw [← h]
      refine (ShiftCoder.decode_eq k hn' hbuffer).trans ?_
      split
      · rfl
      · rw [hlen]

-- A decoder that is given too few bytes reads on in the buffer and returns something.
theorem decode_short {coder : Coder} {data : Bytes} {n : Nat} (hdata : 2 ≤ data.length)
    (hn : n ≤ data.length) (h : coder.undo (data.take n) = none) :
    ∃ l written, coder.decode data (BitVec.ofNat 32 n) CIPHER_BUFFER_SIZE = some (l, written) := by
  have hshort := undo_eq_none h
  rw [List.length_take, Nat.min_eq_left hn] at hshort
  have hsize := cipherBufferSize_eq
  match data, hdata with
  | a :: b :: data, _ =>
    cases coder with
    | padding =>
      rw [headerLen] at hshort
      have hbuffer : n ≤ CIPHER_BUFFER_SIZE := by omega
      have hneg := (padding_length hbuffer (a ++ b : U16).isLt).2 (by omega)
      have hpad : (a ++ b : U16).setWidth 32 = BitVec.ofNat 32 (a ++ b : U16).toNat :=
        BitVec.eq_of_toNat_eq (by rw [BitVec.toNat_setWidth, BitVec.toNat_ofNat])
      refine ⟨0, [], ?_⟩
      show PaddingCoder.decode (a :: b :: data) _ _ = _
      unfold PaddingCoder.decode
      simp only
      rw [hpad, if_pos hneg]
    | shift =>
      obtain rfl : n = 0 := by
        rw [headerLen] at hshort
        omega
      show ∃ l written, ShiftCoder.decode (a :: b :: data) _ _ = some (l, written)
      unfold ShiftCoder.decode
      simp only
      split
      · exact ⟨_, _, rfl⟩
      · rw [if_pos (by exact ⟨Nat.zero_le _, Nat.zero_le _⟩)]
        exact ⟨_, _, rfl⟩

end Coder

namespace CipherPoint

/-- `decode` is given its header and shortens what it is given; `memcpy` stays inside. -/
def Sound : CipherPoint → Prop
  | .parcel _ => True
  | .decode coder len l => coder.headerLen ≤ len.toNat ∧ l < len
  | .copy n room => n ≤ CIPHER_BUFFER_SIZE ∧ n ≤ room

end CipherPoint

namespace Cipher

/-- Each parcel allows for as many calls of `decode` as it has bytes; `b` calls are left of the
    parcel at hand. -/
def StepsWithin : Nat → List CipherPoint → Prop
  | _, [] => True
  | _, .parcel l :: points => StepsWithin l.toNat points
  | b, .decode _ _ _ :: points => 0 < b ∧ StepsWithin (b - 1) points
  | b, .copy _ _ :: points => StepsWithin b points

theorem StepsWithin.mono {b b' : Nat} {points : List CipherPoint} (h : StepsWithin b points)
    (hle : b ≤ b') : StepsWithin b' points := by
  induction points generalizing b b' with
  | nil => exact trivial
  | cons p points ih =>
    cases p with
    | parcel l => exact h
    | decode => exact ⟨Nat.lt_of_lt_of_le h.1 hle, ih h.2 (Nat.sub_le_sub_right hle 1)⟩
    | copy => exact ih h hle

theorem stepsWithin_decodePoints {b : Nat} {coder : Coder} {len l : U32} {written : Bytes}
    {points : List CipherPoint} (h : StepsWithin b points) :
    StepsWithin (b + 1) (decodePoints coder len l written ++ points) := by
  cases coder <;> exact ⟨Nat.succ_pos b, h⟩

inductive Peeled where
  | plain (data : Bytes)
  | failed
  /-- A coder is left with less than its header. -/
  | short
deriving DecidableEq

def peelLoop : Nat → Bytes → Peeled
  | 0, _ => .plain []
  | _ + 1, [] => .plain []
  | fuel + 1, id :: data =>
      match getCoder id with
      | none => .plain data
      | some coder =>
          match coder.undo data with
          | none => .short
          | some [] => .failed
          | some (b :: data) => peelLoop fuel (b :: data)

/-- Undo one coder after the other, as the bytes at the front name them. -/
def peel (content : Bytes) : Peeled := peelLoop content.length content

theorem peelLoop_fuel {fuel fuel' : Nat} {content : Bytes} (h : content.length ≤ fuel)
    (h' : content.length ≤ fuel') : peelLoop fuel content = peelLoop fuel' content := by
  induction fuel generalizing fuel' content with
  | zero =>
    rw [List.length_eq_zero_iff.mp (Nat.le_zero.mp h)]
    cases fuel' <;> rfl
  | succ fuel ih =>
    match content, fuel' with
    | [], 0 => rfl
    | [], _ + 1 => rfl
    | id :: data, fuel' + 1 =>
      simp only [List.length_cons] at h h'
      unfold peelLoop
      split
      · rfl
      · split
        · rfl
        · rfl
        next hundo =>
          have hlt := (Coder.length_undo hundo).2
          exact ih (by omega) (by omega)

theorem peel_nil : peel [] = .plain [] := rfl

theorem peel_bare {id : U8} (h : getCoder id = none) (data : Bytes) :
    peel (id :: data) = .plain data := by
  unfold peel
  rw [List.length_cons, peelLoop, h]

theorem peel_short {id : U8} {coder : Coder} {data : Bytes} (h : getCoder id = some coder)
    (hundo : coder.undo data = none) : peel (id :: data) = .short := by
  unfold peel
  rw [List.length_cons, peelLoop, h]
  simp only
  rw [hundo]

theorem peel_failed {id : U8} {coder : Coder} {data : Bytes} (h : getCoder id = some coder)
    (hundo : coder.undo data = some []) : peel (id :: data) = .failed := by
  unfold peel
  rw [List.length_cons, peelLoop, h]
  simp only
  rw [hundo]

theorem peel_coded {id : U8} {coder : Coder} {data data' : Bytes} (h : getCoder id = some coder)
    (hundo : coder.undo data = some data') (hne : data' ≠ []) :
    peel (id :: data) = peel data' := by
  have hlt := (Coder.length_undo hundo).2
  obtain ⟨b, rest, rfl⟩ := List.exists_cons_of_ne_nil hne
  unfold peel
  rw [List.length_cons, peelLoop, h]
  simp only
  rw [hundo]
  exact peelLoop_fuel (by omega) (by omega)

-- Each of the three ends takes at least the byte that names it.
theorem peel_length {content data : Bytes} (h : peel content = .plain data) (hne : content ≠ []) :
    data.length < content.length := by
  obtain ⟨n, hn⟩ : ∃ n, content.length ≤ n := ⟨_, Nat.le_refl _⟩
  induction n generalizing content with
  | zero => exact absurd (List.length_eq_zero_iff.mp (Nat.le_zero.mp hn)) hne
  | succ n ih =>
    match content with
    | id :: rest =>
      simp only [List.length_cons] at hn ⊢
      cases hid : getCoder id with
      | none =>
        rw [peel_bare hid] at h
        cases h
        omega
      | some coder =>
        cases hundo : coder.undo rest with
        | none =>
          rw [peel_short hid hundo] at h
          cases h
        | some data' =>
          have hlt := (Coder.length_undo hundo).2
          by_cases hempty : data' = []
          · rw [hempty] at hundo
            rw [peel_failed hid hundo] at h
            cases h
          · rw [peel_coded hid hundo hempty] at h
            have hdata := ih h hempty (by omega)
            omega

structure ChainSpec (content : Bytes) (r : ChainResult) : Prop where
  plain : ∀ data, peel content = .plain data →
    ∃ s, r.stop = .plain s (BitVec.ofNat 32 data.length) ∧ s.take data.length = data
  failed : peel content = .failed → r.stop = .failed
  sound : peel content ≠ .short → ∀ p ∈ r.points, p.Sound
  steps : peel content ≠ .short → ∀ points, StepsWithin 0 points →
    StepsWithin content.length (r.points ++ points)
  short : peel content = .short → ∃ p ∈ r.points, ¬ p.Sound

-- A loop that ends before it decodes anything.
theorem ChainSpec.of_plain {content data : Bytes} {s : Bytes} {r : ChainResult}
    (hpeel : peel content = .plain data) (hstop : r.stop = .plain s (BitVec.ofNat 32 data.length))
    (hfront : s.take data.length = data) (hpoints : r.points = []) : ChainSpec content r where
  plain data' h := by
    rw [hpeel, Peeled.plain.injEq] at h
    rw [← h]
    exact ⟨s, hstop, hfront⟩
  failed h := by
    rw [hpeel] at h
    cases h
  sound _ := by
    rw [hpoints]
    simp
  steps _ points h := by
    rw [hpoints]
    exact h.mono (Nat.zero_le _)
  short h := by
    rw [hpeel] at h
    cases h

theorem decodePoints_sound {coder : Coder} {len : Nat} {written : Bytes}
    (hheader : coder.headerLen ≤ len) (hlt : written.length < len)
    (hlen : len ≤ CIPHER_BUFFER_SIZE) :
    ∀ p ∈ decodePoints coder (BitVec.ofNat 32 len) (BitVec.ofNat 32 written.length) written,
      p.Sound := by
  rw [cipherBufferSize_eq] at hlen
  have hcall : (CipherPoint.decode coder (BitVec.ofNat 32 len)
      (BitVec.ofNat 32 written.length)).Sound := by
    refine ⟨?_, ?_⟩
    · rw [BitVec.toNat_ofNat, Nat.mod_eq_of_lt (by omega)]
      exact hheader
    · rw [BitVec.lt_def, BitVec.toNat_ofNat, BitVec.toNat_ofNat]
      omega
  have hcopy : (CipherPoint.copy written.length CIPHER_BUFFER_SIZE).Sound := by
    rw [cipherBufferSize_eq]
    exact ⟨by rw [cipherBufferSize_eq]; omega, by omega⟩
  unfold decodePoints
  cases coder
  · exact List.forall_mem_cons.mpr ⟨hcall, List.forall_mem_singleton.mpr hcopy⟩
  · exact List.forall_mem_singleton.mpr hcall

-- The first call of a `decode` that is short of bytes.
theorem decodePoints_short {coder : Coder} {len : Nat} (l : U32) (written : Bytes)
    (hshort : len < coder.headerLen) :
    ∃ p ∈ decodePoints coder (BitVec.ofNat 32 len) l written, ¬ p.Sound := by
  refine ⟨.decode coder (BitVec.ofNat 32 len) l, List.mem_cons_self, fun h => ?_⟩
  have hle : coder.headerLen ≤ len := Nat.le_trans h.1 (Nat.mod_le _ _)
  omega

-- A loop that begins with a decoder short of bytes.
theorem ChainSpec.of_short {content : Bytes} {r : ChainResult} (hpeel : peel content = .short)
    (hshort : ∃ p ∈ r.points, ¬ p.Sound) : ChainSpec content r where
  plain data h := by
    rw [hpeel] at h
    cases h
  failed h := by
    rw [hpeel] at h
    cases h
  sound h := absurd hpeel h
  steps h := absurd hpeel h
  short _ := hshort

-- A loop whose first decoder fails.
theorem ChainSpec.of_failed {content : Bytes} {r : ChainResult} {coder : Coder} {len l : U32}
    {written : Bytes} (hpeel : peel content = .failed) (hne : content ≠ [])
    (hstop : r.stop = .failed) (hpoints : r.points = decodePoints coder len l written)
    (hsound : ∀ p ∈ decodePoints coder len l written, p.Sound) : ChainSpec content r where
  plain data h := by
    rw [hpeel] at h
    cases h
  failed _ := hstop
  sound _ := by
    rw [hpoints]
    exact hsound
  steps _ points h := by
    rw [hpoints]
    exact (stepsWithin_decodePoints h).mono (List.length_pos_iff.mpr hne)
  short h := by
    rw [hpeel] at h
    cases h

-- A loop whose first decoder leaves something for the rest.
theorem ChainSpec.of_coded {content content' : Bytes} {r r' : ChainResult} {coder : Coder}
    {len l : U32} {written : Bytes} (h : ChainSpec content' r')
    (hpeel : peel content = peel content') (hlt : content'.length < content.length)
    (hstop : r.stop = r'.stop) (hpoints : r.points = decodePoints coder len l written ++ r'.points)
    (hsound : ∀ p ∈ decodePoints coder len l written, p.Sound) : ChainSpec content r where
  plain := by
    rw [hpeel, hstop]
    exact h.plain
  failed := by
    rw [hpeel, hstop]
    exact h.failed
  sound := by
    rw [hpeel, hpoints]
    exact fun hlong => List.forall_mem_append.mpr ⟨hsound, h.sound hlong⟩
  steps := by
    rw [hpeel, hpoints]
    intro hlong points hsteps
    rw [List.append_assoc]
    exact (stepsWithin_decodePoints (h.steps hlong points hsteps)).mono hlt
  short := by
    rw [hpeel, hpoints]
    intro hshort
    obtain ⟨p, hp, hbad⟩ := h.short hshort
    exact ⟨p, List.mem_append_right _ hp, hbad⟩

-- One round of the coder loop on a parcel that is not empty.
theorem chainLoop_cons {s : Scratch} {id : U8} {data : Bytes} {n : Nat} (hs : s.val = id :: data)
    (hn : n + 1 < 2 ^ 32) (fuel : Nat) (t : Scratch) :
    chainLoop (fuel + 1) s t (BitVec.ofNat 32 (n + 1)) =
      match getCoder id with
      | none => ⟨.plain data (BitVec.ofNat 32 n), s, t, []⟩
      | some coder =>
          match coder.decode data (BitVec.ofNat 32 n) CIPHER_BUFFER_SIZE with
          | none => ⟨.fault, s, t, []⟩
          | some (l', written) =>
              let points := decodePoints coder (BitVec.ofNat 32 n) l' written
              let t := t.write written
              if l' = 0 then ⟨.failed, s, t, points⟩
              else
                let r := chainLoop fuel t s l'
                ⟨r.stop, r.t, r.s, points ++ r.points⟩ := by
  have hone : (1 : U32).toNat = 1 := rfl
  have hpos : ¬ BitVec.ofNat 32 (n + 1) < 1 := by
    rw [BitVec.lt_def, BitVec.toNat_ofNat]
    omega
  have hl : BitVec.ofNat 32 (n + 1) - 1 = BitVec.ofNat 32 n := by
    apply BitVec.eq_of_toNat_eq
    rw [BitVec.toNat_sub, BitVec.toNat_ofNat, BitVec.toNat_ofNat]
    omega
  rw [chainLoop, if_neg hpos, hs]
  simp only
  rw [hl]
  by_cases hzero : id = 0
  · subst hzero
    exact (if_pos rfl).trans rfl
  · exact (if_neg hzero).trans rfl

theorem ofNat_length_ne_zero {data : Bytes} (hne : data ≠ []) (hlen : data.length < 2 ^ 32) :
    BitVec.ofNat 32 data.length ≠ 0 := by
  have hpos := List.length_pos_iff.mpr hne
  intro h
  have htoNat := congrArg BitVec.toNat h
  have hzero : (0 : U32).toNat = 0 := rfl
  rw [BitVec.toNat_ofNat] at htoNat
  omega

-- The coder loop computes `peel`, as long as no coder is short of bytes.
theorem chainLoop_spec {fuel : Nat} {s t : Scratch} {content : Bytes}
    (hfront : s.val.take content.length = content) (hfuel : content.length < fuel) :
    ChainSpec content (chainLoop fuel s t (BitVec.ofNat 32 content.length)) := by
  induction fuel generalizing content s t with
  | zero => omega
  | succ fuel ih =>
    match content with
    | [] => exact .of_plain peel_nil rfl rfl rfl
    | id :: rest =>
      simp only [List.length_cons] at hfront hfuel ⊢
      obtain ⟨data, hs⟩ : ∃ data, s.val = id :: data := by
        cases hs : s.val with
        | nil =>
          rw [hs] at hfront
          cases hfront
        | cons b data =>
          rw [hs, List.take_succ_cons, List.cons.injEq] at hfront
          exact ⟨data, by rw [hfront.1]⟩
      have hlength := s.property
      rw [hs, List.length_cons, cipherBufferSize_eq] at hlength
      rw [hs, List.take_succ_cons, List.cons.injEq] at hfront
      have hfits : rest.length ≤ data.length := by
        have hlen := congrArg List.length hfront.2
        rw [List.length_take] at hlen
        omega
      have hbuffer : rest.length ≤ CIPHER_BUFFER_SIZE := by
        rw [cipherBufferSize_eq]
        omega
      rw [chainLoop_cons hs (by omega)]
      cases hid : getCoder id with
      | none => exact .of_plain (peel_bare hid rest) rfl hfront.2 rfl
      | some coder =>
        simp only
        cases hundo : coder.undo rest with
        | none =>
          -- the decoder reads on in what the buffer held before
          have hpeel := peel_short hid hundo
          have hheader := Coder.undo_eq_none hundo
          rw [← hfront.2] at hundo
          obtain ⟨l, written, hdecode⟩ := Coder.decode_short (by omega) hfits hundo
          obtain ⟨p, hp, hbad⟩ := decodePoints_short l written hheader
          rw [hdecode]
          simp only
          refine .of_short hpeel ⟨p, ?_, hbad⟩
          split
          · exact hp
          · exact List.mem_append_left _ hp
        | some data' =>
          obtain ⟨hheader, hlt⟩ := Coder.length_undo hundo
          have hsound := decodePoints_sound hheader hlt hbuffer
          have hdecode := hundo
          rw [← hfront.2] at hdecode
          rw [Coder.decode_undo hfits hbuffer hdecode]
          simp only
          by_cases hempty : data' = []
          · rw [if_pos (by rw [hempty]; rfl)]
            rw [hempty] at hundo
            exact .of_failed (peel_failed hid hundo) (List.cons_ne_nil _ _) rfl rfl hsound
          · rw [if_neg (ofNat_length_ne_zero hempty (by omega))]
            have hwritten : data'.length ≤ CIPHER_BUFFER_SIZE := by omega
            have hspec : ChainSpec data'
                (chainLoop fuel (t.write data') s (BitVec.ofNat 32 data'.length)) :=
              ih (t.write_front hwritten) (by omega)
            refine hspec.of_coded (peel_coded hid hundo hempty) ?_ rfl rfl hsound
            rw [List.length_cons]
            omega

end Cipher

end NetCore
