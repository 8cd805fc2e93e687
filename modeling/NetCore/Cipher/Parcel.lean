import NetCore.Cipher.Chain
import NetCore.Lib.Frame

/-!
# Parcels as frames

`unpack` cuts self-delimiting frames, and `pack` makes one of them.  `readParcels` reads a stream
of parcels on lists, and `decrypt` computes it, as long as no coder is short of bytes.
-/

namespace NetCore
namespace Cipher

/-- The parcel at the front of a stream and what lies behind it. -/
def parcel (data : Bytes) : Option (Bytes × Bytes) :=
  (unpack data).rest.map fun rest => ((unpack data).out, rest)

theorem maxSectionSize_eq : MAX_SECTION_SIZE = 1024 := rfl

-- A complete parcel is unpacked alike with other bytes behind it.
theorem unpackLoop_extend {fuel fuel' : Nat} {s out rest : Bytes} (hfuel : fuel ≤ fuel')
    (h : (unpackLoop fuel s out).rest = some rest) (y : Bytes) :
    unpackLoop fuel' (s ++ y) out =
      { unpackLoop fuel s out with rest := some (rest ++ y) } := by
  induction fuel generalizing fuel' s out with
  | zero => cases h
  | succ fuel ih =>
    obtain ⟨fuel', rfl⟩ := Nat.exists_eq_add_of_le' (Nat.le_trans (Nat.succ_pos fuel) hfuel)
    match s with
    | [] => cases h
    | [_] => cases h
    | hi :: lo :: s =>
      have htake (hle : (hi ++ lo : U16).toNat ≤ s.length) :
          (s ++ y).take (hi ++ lo : U16).toNat = s.take (hi ++ lo : U16).toNat ∧
          (s ++ y).drop (hi ++ lo : U16).toNat = s.drop (hi ++ lo : U16).toNat ++ y :=
        ⟨List.take_append_of_le_length hle, List.drop_append_of_le_length hle⟩
      show unpackLoop (fuel' + 1) (hi :: lo :: (s ++ y)) out = _
      simp only [unpackLoop, List.length_append] at h ⊢
      split at h
      · cases h
      next hok =>
        obtain ⟨htake, hdrop⟩ := htake (by omega)
        rw [if_neg (by omega), if_neg hok, htake, hdrop]
        split at h
        next hlast =>
          cases h
          rw [if_pos hlast, if_pos hlast]
        next hlast =>
          rw [if_neg hlast, if_neg hlast, ih (by omega) h]

-- A parcel takes two bytes more than it holds, at least.
theorem unpackLoop_length {fuel : Nat} {s out rest : Bytes}
    (h : (unpackLoop fuel s out).rest = some rest) :
    (unpackLoop fuel s out).out.length + rest.length + 2 ≤ out.length + s.length := by
  induction fuel generalizing s out with
  | zero => cases h
  | succ fuel ih =>
    match s with
    | [] => cases h
    | [_] => cases h
    | hi :: lo :: s =>
      simp only [unpackLoop, List.length_cons] at h ⊢
      split at h
      · cases h
      next hok =>
        rw [if_neg hok]
        split at h
        next hlast =>
          cases h
          rw [if_pos hlast]
          simp only [List.length_append, List.length_take, List.length_drop]
          omega
        next hlast =>
          rw [if_neg hlast]
          have hrest := ih h
          simp only [List.length_append, List.length_take, List.length_drop] at hrest ⊢
          omega

-- `unpack` stays inside its buffer.
theorem unpackLoop_sound {fuel : Nat} {s out : Bytes} (h : out.length ≤ CIPHER_BUFFER_SIZE) :
    (unpackLoop fuel s out).out.length ≤ CIPHER_BUFFER_SIZE ∧
      (∀ p ∈ (unpackLoop fuel s out).points, p.Sound) ∧
      ∀ points, StepsWithin 0 points → StepsWithin 0 ((unpackLoop fuel s out).points ++ points) := by
  induction fuel generalizing s out with
  | zero => exact ⟨h, by simp [unpackLoop], fun _ hpoints => hpoints⟩
  | succ fuel ih =>
    match s with
    | [] => exact ⟨h, by simp [unpackLoop], fun _ hpoints => hpoints⟩
    | [_] => exact ⟨h, by simp [unpackLoop], fun _ hpoints => hpoints⟩
    | hi :: lo :: s =>
      simp only [unpackLoop]
      split
      · exact ⟨h, by simp, fun _ hpoints => hpoints⟩
      next hok =>
        have hsound : (CipherPoint.copy (hi ++ lo : U16).toNat
            (CIPHER_BUFFER_SIZE - out.length)).Sound :=
          ⟨by omega, by omega⟩
        have hout : (out ++ s.take (hi ++ lo : U16).toNat).length ≤ CIPHER_BUFFER_SIZE := by
          rw [List.length_append, List.length_take]
          omega
        split
        · exact ⟨hout, List.forall_mem_singleton.mpr hsound, fun _ hpoints => hpoints⟩
        · obtain ⟨hlen, hpoints, hsteps⟩ := ih (s := s.drop (hi ++ lo : U16).toNat) hout
          exact ⟨hlen, List.forall_mem_cons.mpr ⟨hsound, hpoints⟩, hsteps⟩

-- Parcels delimit themselves.
theorem parcel_framing : Lib.Framing parcel where
  extend {x y rest b} h := by
    obtain ⟨rest', hrest, heq⟩ := Option.map_eq_some_iff.mp h
    cases heq
    have hextend := unpackLoop_extend (Nat.le_add_right x.length y.length) hrest y
    rw [← List.length_append] at hextend
    unfold parcel
    rw [show unpack (x ++ y) = _ from hextend]
    rfl
  progress {x rest b} h := by
    obtain ⟨rest', hrest, heq⟩ := Option.map_eq_some_iff.mp h
    cases heq
    have hlength := unpackLoop_length hrest
    simp only [List.length_nil] at hlength
    omega

def endMark (l : Nat) : Bytes := if l = MAX_SECTION_SIZE then [0, 0] else []

theorem append_endMark (r : Bytes × Nat) :
    (if r.2 = MAX_SECTION_SIZE then r.1 ++ [0, 0] else r.1) = r.1 ++ endMark r.2 := by
  unfold endMark
  split
  · rfl
  · rw [List.append_nil]

theorem packLoop_nil (n l : Nat) : packLoop n [] l = ([], l) := by
  cases n with
  | zero => rfl
  | succ n => rw [packLoop, if_pos rfl]

theorem packLoop_last {n : Nat} {s : Bytes} {l : Nat} (hs : s ≠ []) (hn : s.length ≤ n)
    (hlt : s.length < MAX_SECTION_SIZE) :
    packLoop n s l = (beBytes16 (BitVec.ofNat 16 s.length) ++ s, s.length) := by
  obtain ⟨n, rfl⟩ := Nat.exists_eq_succ_of_ne_zero
    (Nat.ne_of_gt (Nat.lt_of_lt_of_le (List.length_pos_iff.mpr hs) hn))
  rw [packLoop, if_neg hs, if_pos hlt]
  simp only
  rw [List.drop_length, List.take_length, packLoop_nil, List.append_nil]

theorem unpackLoop_section {fuel : Nat} {s out : Bytes} {l : Nat} (hl : l ≤ MAX_SECTION_SIZE)
    (hle : l ≤ s.length) (hroom : out.length + l ≤ CIPHER_BUFFER_SIZE) :
    unpackLoop (fuel + 1) (beBytes16 (BitVec.ofNat 16 l) ++ s) out =
      if l ≠ MAX_SECTION_SIZE then
        ⟨out ++ s.take l, some (s.drop l), [.copy l (CIPHER_BUFFER_SIZE - out.length)]⟩
      else
        let r := unpackLoop fuel (s.drop l) (out ++ s.take l)
        { r with points := .copy l (CIPHER_BUFFER_SIZE - out.length) :: r.points } := by
  have hnat : (BitVec.ofNat 16 l).toNat = l := by
    rw [BitVec.toNat_ofNat]
    rw [maxSectionSize_eq] at hl
    omega
  have hword := beBytes16_append (BitVec.ofNat 16 l)
  show unpackLoop (fuel + 1) (_ :: _ :: s) out = _
  rw [unpackLoop]
  simp only
  rw [hword, hnat, if_neg (by omega)]

-- What `pack` writes is unpacked again.
theorem unpackLoop_packLoop {n fuel : Nat} {s out : Bytes} (l : Nat) (hs : s ≠ [])
    (hn : s.length ≤ n) (hfuel : s.length < fuel)
    (hroom : out.length + s.length ≤ CIPHER_BUFFER_SIZE) :
    (unpackLoop fuel ((packLoop n s l).1 ++ endMark (packLoop n s l).2) out).rest = some [] ∧
      (unpackLoop fuel ((packLoop n s l).1 ++ endMark (packLoop n s l).2) out).out = out ++ s := by
  induction n generalizing fuel s out l with
  | zero => exact absurd (List.length_eq_zero_iff.mp (Nat.le_zero.mp hn)) hs
  | succ n ih =>
    have hpos := List.length_pos_iff.mpr hs
    have hsection := maxSectionSize_eq
    obtain ⟨fuel, rfl⟩ := Nat.exists_eq_succ_of_ne_zero (Nat.ne_of_gt (Nat.zero_lt_of_lt hfuel))
    by_cases hlt : s.length < MAX_SECTION_SIZE
    · rw [packLoop_last hs hn hlt, endMark, if_neg (by omega), List.append_nil,
        unpackLoop_section (by omega) (Nat.le_refl _) hroom, if_pos (by omega), List.take_length,
        List.drop_length]
      exact ⟨rfl, rfl⟩
    · rw [packLoop, if_neg hs, if_neg hlt]
      simp only
      have htake : (s.take MAX_SECTION_SIZE).length = MAX_SECTION_SIZE := by
        rw [List.length_take]
        omega
      have hroom' : out.length + MAX_SECTION_SIZE ≤ CIPHER_BUFFER_SIZE := by omega
      have hrest : s.take MAX_SECTION_SIZE ++ s.drop MAX_SECTION_SIZE = s :=
        List.take_append_drop _ _
      rw [List.append_assoc, List.append_assoc, Nat.succ_eq_add_one,
        unpackLoop_section (Nat.le_refl _) (by rw [List.length_append]; omega) hroom',
        if_neg (by simp)]
      simp only
      rw [List.take_left' htake, List.drop_left' htake]
      by_cases hempty : s.drop MAX_SECTION_SIZE = []
      · -- the last section is full: the end mark follows
        have hnil : packLoop n [] MAX_SECTION_SIZE = ([], MAX_SECTION_SIZE) := by
          cases n <;> simp [packLoop]
        obtain ⟨fuel, rfl⟩ := Nat.exists_eq_succ_of_ne_zero (show fuel ≠ 0 by omega)
        rw [hempty, List.append_nil] at hrest
        have hmark : unpackLoop (fuel + 1) (beBytes16 (BitVec.ofNat 16 0) ++ []) (out ++ s) = _ :=
          unpackLoop_section (Nat.zero_le _) (Nat.zero_le _) (by rw [List.length_append]; omega)
        rw [if_pos (by omega), List.take_nil] at hmark
        have hzero : ([0, 0] : Bytes) = beBytes16 (BitVec.ofNat 16 0) ++ [] := rfl
        rw [hempty, hnil, endMark, if_pos rfl, hrest, List.nil_append, hzero,
          Nat.succ_eq_add_one, hmark]
        exact ⟨rfl, List.append_nil _⟩
      · have hlength : (s.drop MAX_SECTION_SIZE).length = s.length - MAX_SECTION_SIZE :=
          List.length_drop
        have hroom'' : (out ++ s.take MAX_SECTION_SIZE).length +
            (s.drop MAX_SECTION_SIZE).length ≤ CIPHER_BUFFER_SIZE := by
          rw [List.length_append]
          omega
        have hlater := ih MAX_SECTION_SIZE hempty (by omega) (show _ < fuel by omega) hroom''
        rw [List.append_assoc, hrest] at hlater
        exact hlater

-- Each section of a parcel has its two bytes of length.
theorem length_packLoop {n : Nat} {s : Bytes} (l : Nat) (hn : s.length ≤ n) :
    s.length ≤ (packLoop n s l).1.length ∧ (s ≠ [] → s.length < (packLoop n s l).1.length) := by
  induction n generalizing s l with
  | zero =>
    rw [List.length_eq_zero_iff.mp (Nat.le_zero.mp hn)]
    exact ⟨Nat.zero_le _, fun h => absurd rfl h⟩
  | succ n ih =>
    rw [packLoop]
    by_cases hs : s = []
    · rw [if_pos hs, hs]
      exact ⟨Nat.zero_le _, fun h => absurd rfl h⟩
    · have hpos := List.length_pos_iff.mpr hs
      have hsection := maxSectionSize_eq
      have hrest (l : Nat) (hl : 0 < l) := (ih (s := s.drop l) l (by rw [List.length_drop]; omega)).1
      rw [if_neg hs]
      simp only [List.length_append, List.length_take, length_beBytes16]
      split
      next hlt =>
        have hlast := hrest s.length hpos
        omega
      next hlt =>
        have hlater := hrest MAX_SECTION_SIZE (by omega)
        rw [List.length_drop] at hlater
        omega

theorem length_packLoop_le (n : Nat) (s : Bytes) (l : Nat) :
    (packLoop n s l).1.length ≤ s.length + s.length / 512 + 2 := by
  induction n generalizing s l with
  | zero => exact Nat.zero_le _
  | succ n ih =>
    have hsection := maxSectionSize_eq
    rw [packLoop]
    split
    · exact Nat.zero_le _
    · simp only [List.length_append, List.length_take, length_beBytes16]
      split
      next hlt =>
        rw [List.drop_length]
        cases n <;> simp [packLoop] <;> omega
      next hlt =>
        have hlater := ih (s.drop MAX_SECTION_SIZE) MAX_SECTION_SIZE
        rw [List.length_drop] at hlater
        omega

theorem length_pack_le (data : Bytes) (size : Nat) :
    (pack data size).length ≤ data.length + data.length / 512 + 4 := by
  have hloop := length_packLoop_le data.length data 0
  unfold pack
  split
  · exact Nat.zero_le _
  · split
    · exact Nat.zero_le _
    · simp only
      split
      · rw [List.length_append, List.length_cons, List.length_singleton]
        omega
      · omega

-- `pack` makes a frame.
theorem pack_isFrame {content : Bytes} {size : Nat} (hlen : content.length ≤ CIPHER_BUFFER_SIZE)
    (h : pack content size ≠ []) : Lib.IsFrame parcel content (pack content size) := by
  unfold pack at h ⊢
  split
  next hbad =>
    rw [if_pos hbad] at h
    exact absurd rfl h
  next hgood =>
    rw [if_neg hgood] at h
    split
    next hbad =>
      rw [if_pos hbad] at h
      exact absurd rfl h
    next =>
      have hne : content ≠ [] := fun hempty => hgood (.inl hempty)
      simp only
      rw [append_endMark]
      have hlength := (length_packLoop 0 (Nat.le_refl content.length)).2 hne
      obtain ⟨hrest, hout⟩ := unpackLoop_packLoop 0 hne (Nat.le_refl _)
        (show content.length < ((packLoop content.length content 0).1 ++
          endMark (packLoop content.length content 0).2).length by
            rw [List.length_append]
            omega)
        (show ([] : Bytes).length + content.length ≤ CIPHER_BUFFER_SIZE by
          rw [List.length_nil]
          omega)
      unfold Lib.IsFrame parcel unpack
      rw [hrest, hout]
      rfl

/-! ## Streams of parcels -/

inductive Reading where
  /-- The plain bytes, and what is left of the stream. -/
  | returned (out rest : Bytes)
  /-- A coder fails, and everything is given up. -/
  | failed
  /-- A coder is left with less than its header. -/
  | short
deriving DecidableEq

def readLoop : Nat → Bytes → Bytes → Reading
  | 0, data, out => .returned out data
  | fuel + 1, data, out =>
      match parcel data with
      | none => .returned out data
      | some (content, rest) =>
          match peel content with
          | .short => .short
          | .failed => .failed
          -- a parcel without plain bytes ends the loop
          | .plain [] => .returned out rest
          | .plain (b :: plain) => readLoop fuel rest (out ++ b :: plain)

/-- Read parcels, as long as one is complete and holds something. -/
def readParcels (data : Bytes) : Reading := readLoop (data.length + 1) data []

-- A parcel that holds something is taken over.
theorem readLoop_plain {fuel : Nat} {data content rest plain : Bytes}
    (hparcel : parcel data = some (content, rest)) (hpeel : peel content = .plain plain)
    (hne : plain ≠ []) (out : Bytes) :
    readLoop (fuel + 1) data out = readLoop fuel rest (out ++ plain) := by
  obtain ⟨b, plain, rfl⟩ := List.exists_cons_of_ne_nil hne
  rw [readLoop, hparcel]
  simp only
  rw [hpeel]

-- What a run of `decrypt` has to do with a reading of the stream.
structure DecryptSpec (data : Bytes) (u : Reading) (r : DecryptResult) : Prop where
  returned : ∀ out rest, u = .returned out rest →
    r.stop = .returned (BitVec.ofNat 32 out.length) ∧ r.out = out ∧ r.data = rest
  failed : u = .failed → r.stop = .returned 0 ∧ r.data = data
  sound : u ≠ .short → (∀ p ∈ r.points, p.Sound) ∧ StepsWithin 0 r.points
  short : u = .short → ∃ p ∈ r.points, ¬ p.Sound

theorem parcel_eq_none {data : Bytes} : parcel data = none ↔ (unpack data).rest = none :=
  Option.map_eq_none_iff

theorem parcel_eq_some {data content rest : Bytes} :
    parcel data = some (content, rest) ↔ (unpack data).rest = some rest ∧ (unpack data).out = content := by
  unfold parcel
  rw [Option.map_eq_some_iff]
  constructor
  · rintro ⟨rest', hrest, heq⟩
    cases heq
    exact ⟨hrest, rfl⟩
  · rintro ⟨hrest, rfl⟩
    exact ⟨rest, hrest, rfl⟩

-- What a reading returns is less than what was there.
theorem readLoop_length {fuel : Nat} {data out out' rest : Bytes}
    (h : readLoop fuel data out = .returned out' rest) :
    out'.length ≤ out.length + data.length ∧
      (data ≠ [] → 0 < fuel → out'.length < out.length + data.length) := by
  induction fuel generalizing data out with
  | zero =>
    cases h
    exact ⟨Nat.le_add_right _ _, fun _ hfuel => absurd hfuel (Nat.lt_irrefl 0)⟩
  | succ fuel ih =>
    have hstay : out'.length = out.length → out'.length ≤ out.length + data.length ∧
        (data ≠ [] → 0 < fuel + 1 → out'.length < out.length + data.length) := by
      intro heq
      refine ⟨by omega, fun hne _ => ?_⟩
      have hpos := List.length_pos_iff.mpr hne
      omega
    unfold readLoop at h
    cases hparcel : parcel data with
    | none =>
      rw [hparcel] at h
      cases h
      exact hstay rfl
    | some r =>
      obtain ⟨content, rest'⟩ := r
      obtain ⟨hrest, hout⟩ := parcel_eq_some.mp hparcel
      have hlength := unpackLoop_length hrest
      rw [show (unpackLoop data.length data []).out = content from hout, List.length_nil] at hlength
      rw [hparcel] at h
      simp only at h
      cases hpeel : peel content with
      | short =>
        rw [hpeel] at h
        cases h
      | failed =>
        rw [hpeel] at h
        cases h
      | plain plain =>
        rw [hpeel] at h
        match plain with
        | [] =>
          cases h
          exact hstay rfl
        | b :: plain =>
          have hne : content ≠ [] := by
            rintro rfl
            cases hpeel
          have hshorter := peel_length hpeel hne
          have hlater := (ih h).1
          rw [List.length_append] at hlater
          exact ⟨by omega, fun _ _ => by omega⟩

theorem unpack_sound (data : Bytes) : (unpack data).out.length ≤ CIPHER_BUFFER_SIZE ∧
    (∀ p ∈ (unpack data).points, p.Sound) ∧
    ∀ points, StepsWithin 0 points → StepsWithin 0 ((unpack data).points ++ points) :=
  unpackLoop_sound (Nat.zero_le _)

-- Plain bytes that fit are taken over.
theorem takePlain_fits {size : U32} {n : Nat} {s plain : Bytes} (hne : plain ≠ [])
    (hfits : n + plain.length < size.toNat) (hfront : s.take plain.length = plain) :
    takePlain size (BitVec.ofNat 32 n) (BitVec.ofNat 32 plain.length) s = some plain := by
  have hsize := size.isLt
  have hpos := List.length_pos_iff.mpr hne
  have hzero : (0 : U32).toNat = 0 := rfl
  have hl : (BitVec.ofNat 32 plain.length).toNat = plain.length := by
    rw [BitVec.toNat_ofNat]
    omega
  unfold takePlain
  rw [if_pos, if_pos, hl, hfront]
  · rw [BitVec.lt_def, BitVec.toNat_add, BitVec.toNat_ofNat, BitVec.toNat_ofNat]
    omega
  · rw [BitVec.lt_def, hl, hzero]
    exact hpos

theorem takePlain_nil (size i : U32) (s : Bytes) :
    takePlain size i (BitVec.ofNat 32 ([] : Bytes).length) s = none :=
  if_neg (by decide)

-- A run that ends with what it has.
theorem DecryptSpec.of_returned {data out rest : Bytes} {c : Cipher} {points : List CipherPoint}
    (hsound : ∀ p ∈ points, p.Sound) (hsteps : StepsWithin 0 points) :
    DecryptSpec data (.returned out rest)
      ⟨.returned (BitVec.ofNat 32 out.length), out, rest, c, points⟩ where
  returned out' rest' h := by
    rw [Reading.returned.injEq] at h
    rw [← h.1, ← h.2]
    exact ⟨rfl, rfl, rfl⟩
  failed h := by cases h
  sound _ := ⟨hsound, hsteps⟩
  short h := by cases h

-- One round before the rest of the run.
theorem DecryptSpec.of_round {data : Bytes} {u : Reading} {r : DecryptResult}
    {points : List CipherPoint} (h : DecryptSpec data u r) (hsound : ∀ p ∈ points, p.Sound)
    (hsteps : ∀ later, StepsWithin 0 later → StepsWithin 0 (points ++ later)) :
    DecryptSpec data u { r with points := points ++ r.points } where
  returned := h.returned
  failed := h.failed
  sound hlong := ⟨List.forall_mem_append.mpr ⟨hsound, (h.sound hlong).1⟩, hsteps _ (h.sound hlong).2⟩
  short hshort := by
    obtain ⟨p, hp, hbad⟩ := h.short hshort
    exact ⟨p, List.mem_append_right _ hp, hbad⟩

-- The points of a parcel and its coders.
theorem roundPoints {content : Bytes} {copies : List CipherPoint} {r : ChainResult}
    (hlen : content.length ≤ CIPHER_BUFFER_SIZE) (hcopies : ∀ p ∈ copies, p.Sound)
    (hsteps : ∀ points, StepsWithin 0 points → StepsWithin 0 (copies ++ points))
    (hspec : ChainSpec content r) (hlong : peel content ≠ .short) :
    (∀ p ∈ copies ++ .parcel (BitVec.ofNat 32 content.length) :: r.points, p.Sound) ∧
      ∀ later, StepsWithin 0 later → StepsWithin 0
        ((copies ++ .parcel (BitVec.ofNat 32 content.length) :: r.points) ++ later) := by
  constructor
  · refine List.forall_mem_append.mpr ⟨hcopies, List.forall_mem_cons.mpr ⟨trivial, ?_⟩⟩
    exact hspec.sound hlong
  · intro later hlater
    rw [List.append_assoc]
    refine hsteps _ ?_
    show StepsWithin (BitVec.ofNat 32 content.length).toNat (r.points ++ later)
    rw [BitVec.toNat_ofNat, Nat.mod_eq_of_lt (by rw [cipherBufferSize_eq] at hlen; omega)]
    exact hspec.steps hlong later hlater

-- However a run with a decoder short of bytes goes on, the short call is recorded.
theorem settle_short {size : U32} {data rest out content : Bytes} {points : List CipherPoint}
    {r : ChainResult} {next : Bytes → Cipher → DecryptResult} (hspec : ChainSpec content r)
    (hpeel : peel content = .short) (hpoints : ∀ p ∈ r.points, p ∈ points) :
    DecryptSpec data .short (settle size data rest out points r next) := by
  obtain ⟨p, hp, hbad⟩ := hspec.short hpeel
  have hmem := hpoints p hp
  have hkept : p ∈ (settle size data rest out points r next).points := by
    unfold settle
    simp only
    split
    · exact hmem
    · exact hmem
    · exact hmem
    · split
      · exact hmem
      · split
        · exact List.mem_append_left _ hmem
        · exact List.mem_append_left _ (List.mem_append_left _ hmem)
  constructor
  · intro out rest h
    cases h
  · intro h
    cases h
  · exact fun h => absurd rfl h
  · exact fun _ => ⟨p, hkept, hbad⟩

theorem settle_failed {size : U32} {data rest out content : Bytes} {points : List CipherPoint}
    {r : ChainResult} {next : Bytes → Cipher → DecryptResult} (hspec : ChainSpec content r)
    (hpeel : peel content = .failed) (hsound : ∀ p ∈ points, p.Sound)
    (hsteps : StepsWithin 0 points) :
    DecryptSpec data .failed (settle size data rest out points r next) := by
  unfold settle
  rw [hspec.failed hpeel]
  constructor
  · intro out rest h
    cases h
  · exact fun _ => ⟨rfl, rfl⟩
  · exact fun _ => ⟨hsound, hsteps⟩
  · intro h
    cases h

-- A parcel without plain bytes ends the run.
theorem settle_empty {size : U32} {data rest out content : Bytes} {points : List CipherPoint}
    {r : ChainResult} {next : Bytes → Cipher → DecryptResult} (hspec : ChainSpec content r)
    (hpeel : peel content = .plain []) (hsound : ∀ p ∈ points, p.Sound)
    (hsteps : StepsWithin 0 points) :
    DecryptSpec data (.returned out rest) (settle size data rest out points r next) := by
  obtain ⟨s, hstop, -⟩ := hspec.plain [] hpeel
  unfold settle
  rw [hstop]
  simp only
  rw [takePlain_nil]
  exact .of_returned hsound hsteps

-- Plain bytes are taken over, and the run goes on.
theorem settle_plain {size : U32} {data rest out content plain : Bytes}
    {points : List CipherPoint} {r : ChainResult} {next : Bytes → Cipher → DecryptResult}
    {u : Reading} (hspec : ChainSpec content r) (hpeel : peel content = .plain plain)
    (hne : plain ≠ []) (hlen : plain.length ≤ CIPHER_BUFFER_SIZE)
    (hfits : out.length + plain.length < size.toNat) (hsound : ∀ p ∈ points, p.Sound)
    (hsteps : ∀ later, StepsWithin 0 later → StepsWithin 0 (points ++ later))
    (hnext : DecryptSpec data u (next (out ++ plain) ⟨r.s, r.t⟩)) :
    DecryptSpec data u (settle size data rest out points r next) := by
  obtain ⟨s, hstop, hfront⟩ := hspec.plain plain hpeel
  have hsize := size.isLt
  have hl : (BitVec.ofNat 32 plain.length).toNat = plain.length := by
    rw [BitVec.toNat_ofNat]
    omega
  have hcopy : (CipherPoint.copy plain.length (size.toNat - out.length)).Sound := ⟨hlen, by omega⟩
  unfold settle
  rw [hstop]
  simp only
  rw [takePlain_fits hne hfits hfront]
  simp only
  rw [hl, if_neg (by omega)]
  refine hnext.of_round ?_ fun later hlater => ?_
  · exact List.forall_mem_append.mpr ⟨hsound, List.forall_mem_singleton.mpr hcopy⟩
  · rw [List.append_assoc]
    exact hsteps _ hlater

-- The parcel loop of `decrypt` computes the reading.
theorem decryptLoop_spec {size : U32} {data : Bytes} {fuel : Nat} {p1 out : Bytes} {c : Cipher}
    (hfuel : p1.length < fuel) (hsize : out.length + p1.length ≤ size.toNat) :
    DecryptSpec data (readLoop fuel p1 out) (decryptLoop size data fuel p1 out c) := by
  induction fuel generalizing p1 out c with
  | zero => omega
  | succ fuel ih =>
    obtain ⟨hlen, hcopies, hsteps⟩ := unpack_sound p1
    have hdone : StepsWithin 0 (unpack p1).points := by
      rw [← List.append_nil (unpack p1).points]
      exact hsteps [] trivial
    unfold decryptLoop readLoop
    by_cases hempty : p1 = []
    · rw [if_pos hempty, hempty]
      exact .of_returned (by simp) trivial
    · rw [if_neg hempty]
      simp only
      cases hparcel : parcel p1 with
      | none =>
        rw [parcel_eq_none.mp hparcel]
        exact .of_returned hcopies hdone
      | some r =>
        obtain ⟨content, rest⟩ := r
        obtain ⟨hrest, hout⟩ := parcel_eq_some.mp hparcel
        have hlength := unpackLoop_length hrest
        rw [show (unpackLoop p1.length p1 []).out = content from hout, List.length_nil] at hlength
        rw [hout] at hlen
        rw [hrest, hout]
        simp only
        by_cases hnil : content = []
        · rw [if_pos (by rw [hnil]; rfl), hnil, peel_nil]
          exact .of_returned hcopies hdone
        · rw [if_neg (ofNat_length_ne_zero hnil (by rw [cipherBufferSize_eq] at hlen; omega))]
          have hspec : ChainSpec content (chainLoop (content.length + 2)
              (c.mBuffer.write content) c.mBuffer1 (BitVec.ofNat 32 content.length)) :=
            chainLoop_spec (c.mBuffer.write_front hlen) (by omega)
          have hround := roundPoints hlen hcopies hsteps hspec
          cases hpeel : peel content with
          | short =>
            refine settle_short hspec hpeel fun p hp => ?_
            exact List.mem_append_right _ (List.mem_cons_of_mem _ hp)
          | failed =>
            obtain ⟨hsound, hlater⟩ := hround (by rw [hpeel]; simp)
            have hend := hlater [] trivial
            rw [List.append_nil] at hend
            exact settle_failed hspec hpeel hsound hend
          | plain plain =>
            obtain ⟨hsound, hlater⟩ := hround (by rw [hpeel]; simp)
            have hend := hlater [] trivial
            rw [List.append_nil] at hend
            have hshorter := peel_length hpeel hnil
            match plain with
            | [] => exact settle_empty hspec hpeel hsound hend
            | b :: plain =>
              refine settle_plain hspec hpeel (List.cons_ne_nil b plain) (by omega) (by omega)
                hsound hlater ?_
              exact ih (by omega) (by rw [List.length_append]; omega)

-- `decrypt` computes the reading of its data.
theorem decrypt_spec {data : Bytes} {size : U32} (h : data.length ≤ size.toNat) (c : Cipher) :
    DecryptSpec data (readParcels data) (decrypt data size c) := by
  unfold decrypt
  by_cases hempty : data = []
  · rw [if_pos (.inl hempty), hempty]
    exact .of_returned (by simp) trivial
  · have hpos := List.length_pos_iff.mpr hempty
    have hne : size ≠ 0 := by
      rintro rfl
      exact absurd h (by rw [show (0 : U32).toNat = 0 from rfl]; omega)
    rw [if_neg (fun hbad => hbad.elim hempty hne), if_neg (by omega)]
    exact decryptLoop_spec (Nat.lt_succ_self _) (by rw [List.length_nil]; omega)

def sampleCipher : Cipher where
  mBuffer := ⟨List.replicate CIPHER_BUFFER_SIZE 0, List.length_replicate⟩
  mBuffer1 := ⟨List.replicate CIPHER_BUFFER_SIZE 0, List.length_replicate⟩

end Cipher

end NetCore
