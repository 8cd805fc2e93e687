import NetCore.Cipher.Parcel

/-!
# Corrupt parcels

A well-formed parcel is a frame of its own, so a stream has a longest prefix of them.  `decrypt` reads
exactly that prefix if no complete parcel stands behind it.  It delivers what follows an unknown coder
id, moves the cursor over a parcel without plain bytes, and gives up everything it has read when a
decode fails.
-/

namespace NetCore
namespace Cipher

/-- The plain bytes of a well-formed content: known coders that succeed, then id 0 and something. -/
def openLoop : Nat → Bytes → Option Bytes
  | 0, _ => none
  | _ + 1, [] => none
  | fuel + 1, id :: data =>
      if id = 0 then if data = [] then none else some data
      else
        match getCoder id with
        | none => none
        | some coder =>
            match coder.undo data with
            | none => none
            | some [] => none
            | some (b :: data) => openLoop fuel (b :: data)

def opened (content : Bytes) : Option Bytes := openLoop content.length content

/-- The well-formed parcel at the front of a stream: its plain bytes, and what lies behind it. -/
def wellFormed (data : Bytes) : Option (Bytes × Bytes) :=
  (parcel data).bind fun r => (opened r.1).map fun plain => (plain, r.2)

/-- The longest prefix of well-formed parcels: what they hold, and what lies behind it. -/
def intact (data : Bytes) : List Bytes × Bytes := Lib.frames wellFormed data

theorem wellFormed_eq_some {data plain rest : Bytes} :
    wellFormed data = some (plain, rest) ↔
      ∃ content, parcel data = some (content, rest) ∧ opened content = some plain := by
  unfold wellFormed
  rw [Option.bind_eq_some_iff]
  constructor
  · rintro ⟨⟨content, rest'⟩, hparcel, hopened⟩
    obtain ⟨plain', hplain, heq⟩ := Option.map_eq_some_iff.mp hopened
    cases heq
    exact ⟨content, hparcel, hplain⟩
  · rintro ⟨content, hparcel, hopened⟩
    refine ⟨(content, rest), hparcel, ?_⟩
    simp only
    rw [hopened]
    rfl

-- Well-formed parcels delimit themselves.
theorem wellFormed_framing : Lib.Framing wellFormed where
  extend {x y rest plain} h := by
    obtain ⟨content, hparcel, hopened⟩ := wellFormed_eq_some.mp h
    exact wellFormed_eq_some.mpr ⟨content, parcel_framing.extend hparcel, hopened⟩
  progress h := by
    obtain ⟨content, hparcel, -⟩ := wellFormed_eq_some.mp h
    exact parcel_framing.progress hparcel

-- The coders of a well-formed content peel off to its plain bytes.
theorem peelLoop_of_openLoop {fuel : Nat} {content plain : Bytes}
    (h : openLoop fuel content = some plain) :
    peelLoop fuel content = .plain plain ∧ plain ≠ [] := by
  induction fuel generalizing content with
  | zero => cases h
  | succ fuel ih =>
    match content with
    | [] => cases h
    | id :: data =>
      rw [openLoop] at h
      by_cases hzero : id = 0
      · rw [if_pos hzero] at h
        split at h
        · cases h
        next hne =>
          cases h
          rw [hzero]
          exact ⟨rfl, hne⟩
      · rw [if_neg hzero] at h
        cases hcoder : getCoder id with
        | none =>
          rw [hcoder] at h
          cases h
        | some coder =>
          rw [hcoder] at h
          rw [peelLoop, hcoder]
          dsimp only at h ⊢
          cases hundo : coder.undo data with
          | none =>
            rw [hundo] at h
            cases h
          | some rest =>
            rw [hundo] at h
            cases rest with
            | nil => cases h
            | cons b rest => exact ih h

theorem peel_of_opened {content plain : Bytes} (h : opened content = some plain) :
    peel content = .plain plain ∧ plain ≠ [] :=
  peelLoop_of_openLoop h

/-! ## Reading on behind the intact part -/

theorem readLoop_fuel {fuel fuel' : Nat} {data : Bytes} (h : data.length < fuel)
    (h' : data.length < fuel') (out : Bytes) :
    readLoop fuel data out = readLoop fuel' data out := by
  induction fuel generalizing fuel' data out with
  | zero => omega
  | succ fuel ih =>
    obtain ⟨fuel', rfl⟩ := Nat.exists_eq_succ_of_ne_zero (Nat.ne_of_gt (Nat.zero_lt_of_lt h'))
    unfold readLoop
    cases hparcel : parcel data with
    | none => rfl
    | some r =>
      obtain ⟨content, rest⟩ := r
      have hlt := parcel_framing.progress hparcel
      simp only
      split
      · rfl
      · rfl
      · rfl
      · exact ih (by omega) (by omega) _

-- The intact parcels are read one after the other.
theorem readLoop_intact (data : Bytes) {fuel : Nat} (hfuel : data.length < fuel) (out : Bytes) :
    readLoop fuel data out =
      readLoop ((intact data).2.length + 1) (intact data).2 (out ++ (intact data).1.flatten) := by
  induction data using wellFormed_framing.induction generalizing fuel out with
  | none data hnone =>
    have hintact : intact data = ([], data) := Lib.Framing.frames_none hnone
    rw [hintact, List.flatten_nil, List.append_nil]
    exact readLoop_fuel hfuel (Nat.lt_succ_self _) out
  | some data plain rest hsome ih =>
    obtain ⟨content, hparcel, hopened⟩ := wellFormed_eq_some.mp hsome
    obtain ⟨hpeel, hne⟩ := peel_of_opened hopened
    have hintact : intact data = (plain :: (intact rest).1, (intact rest).2) :=
      wellFormed_framing.frames_some hsome
    have hlt := wellFormed_framing.progress hsome
    obtain ⟨fuel, rfl⟩ := Nat.exists_eq_succ_of_ne_zero (Nat.ne_of_gt (Nat.zero_lt_of_lt hfuel))
    rw [Nat.succ_eq_add_one, readLoop_plain hparcel hpeel hne,
      ih (show rest.length < fuel by omega), hintact, List.flatten_cons, List.append_assoc]

theorem readParcels_intact (data : Bytes) : readParcels data =
    readLoop ((intact data).2.length + 1) (intact data).2 (intact data).1.flatten := by
  rw [readParcels, readLoop_intact data (Nat.lt_succ_self _), List.nil_append]

-- Reading goes forward, over the first parcel at least.
theorem readLoop_forward {fuel : Nat} {data out out' rest : Bytes}
    (h : readLoop fuel data out = .returned out' rest) :
    rest.length ≤ data.length ∧
      (0 < fuel → parcel data ≠ none → rest.length < data.length) := by
  induction fuel generalizing data out with
  | zero =>
    cases h
    exact ⟨Nat.le_refl _, fun hpos => absurd hpos (Nat.lt_irrefl 0)⟩
  | succ fuel ih =>
    unfold readLoop at h
    cases hparcel : parcel data with
    | none =>
      rw [hparcel] at h
      cases h
      exact ⟨Nat.le_refl _, fun _ hsome => absurd rfl hsome⟩
    | some r =>
      obtain ⟨content, rest'⟩ := r
      have hlt := parcel_framing.progress hparcel
      rw [hparcel] at h
      simp only at h
      split at h
      · cases h
      · cases h
      · cases h
        exact ⟨Nat.le_of_lt hlt, fun _ _ => hlt⟩
      · have hlater := (ih h).1
        exact ⟨by omega, fun _ _ => by omega⟩

/-! ## What `decrypt` leaves -/

/-- The plain bytes of the intact parcels are returned, and the cursor stands behind them. -/
structure DecryptExact (data : Bytes) (size : U32) (c : Cipher) : Prop where
  returned : (decrypt data size c).stop =
    .returned (BitVec.ofNat 32 (intact data).1.flatten.length)
  delivered : (decrypt data size c).out.take (intact data).1.flatten.length =
    (intact data).1.flatten
  cursor : (decrypt data size c).data = (intact data).2

/-- Behind the intact parcels there is no complete one, or there are none, and reading on runs into
    a decode that fails. -/
def Resolved (data : Bytes) : Prop :=
  parcel (intact data).2 = none ∨ ((intact data).2 = data ∧ readParcels data = .failed)

theorem intact_eq_nil {data : Bytes} (h : (intact data).2 = data) : (intact data).1 = [] := by
  have hlen : (intact data).1.length + (intact data).2.length ≤ data.length :=
    wellFormed_framing.length_frames data
  rw [h] at hlen
  exact List.length_eq_zero_iff.mp (by omega)

/-- `decrypt` reads exactly the intact parcels of a resolved stream, and of no other one in which no
    decoder is short of bytes. -/
theorem decrypt_exact_iff {data : Bytes} {size : U32} (h : data.length ≤ size.toNat) (c : Cipher) :
    (Resolved data → DecryptExact data size c) ∧
      (readParcels data ≠ .short → DecryptExact data size c → Resolved data) := by
  have hspec := decrypt_spec h c
  constructor
  · rintro (hnone | ⟨hnothing, hfailed⟩)
    · have hread : readParcels data = .returned (intact data).1.flatten (intact data).2 := by
        rw [readParcels_intact, readLoop, hnone]
      obtain ⟨hstop, hout, hdata⟩ := hspec.returned _ _ hread
      exact ⟨hstop, by rw [hout, List.take_length], hdata⟩
    · obtain ⟨hstop, hdata⟩ := hspec.failed hfailed
      have hnil := intact_eq_nil hnothing
      refine ⟨?_, ?_, hdata.trans hnothing.symm⟩
      · rw [hnil]
        exact hstop
      · rw [hnil]
        rfl
  · intro hlong hexact
    cases hread : readParcels data with
    | short => exact absurd hread hlong
    | failed => exact .inr ⟨hexact.cursor.symm.trans (hspec.failed hread).2, hread⟩
    | returned out rest =>
      have hcursor := hexact.cursor
      rw [(hspec.returned out rest hread).2.2] at hcursor
      rw [readParcels_intact, hcursor] at hread
      refine .inl (Classical.byContradiction fun hsome => ?_)
      exact Nat.lt_irrefl _ ((readLoop_forward hread).2 (Nat.succ_pos _) hsome)

/-- Two parcels, one of them with the shift coder, and the start of a third. -/
theorem decrypt_exact_sample :
    DecryptExact [0, 2, 0, 0x61, 0, 4, codeSHIFT, 0, 0, 0xC4, 0, 9, codePADDING] 13 sampleCipher ∧
      intact [0, 2, 0, 0x61, 0, 4, codeSHIFT, 0, 0, 0xC4, 0, 9, codePADDING] =
        ([[0x61], [0x62]], [0, 9, codePADDING]) :=
  ⟨(decrypt_exact_iff (by decide) sampleCipher).1 (.inl (by decide)), by decide⟩

/-- The byte behind an unknown coder id is delivered, and an empty parcel is passed over. -/
theorem decrypt_delivers_corrupt :
    (decrypt [0, 2, 7, 0x61, 0, 1, 0, 0, 2, 0, 0x62] 11 sampleCipher).out = [0x61] ∧
      (decrypt [0, 2, 7, 0x61, 0, 1, 0, 0, 2, 0, 0x62] 11 sampleCipher).data = [0, 2, 0, 0x62] ∧
      ¬ DecryptExact [0, 2, 7, 0x61, 0, 1, 0, 0, 2, 0, 0x62] 11 sampleCipher := by
  have hsize : ([0, 2, 7, 0x61, 0, 1, 0, 0, 2, 0, 0x62] : Bytes).length ≤ (11 : U32).toNat := by
    decide
  have hread : readParcels [0, 2, 7, 0x61, 0, 1, 0, 0, 2, 0, 0x62] =
      .returned [0x61] [0, 2, 0, 0x62] := by decide
  have hcorrupt : wellFormed [0, 2, 7, 0x61, 0, 1, 0, 0, 2, 0, 0x62] = none := by decide
  obtain ⟨-, hout, hdata⟩ := (decrypt_spec hsize sampleCipher).returned _ _ hread
  refine ⟨hout, hdata, fun hexact => ?_⟩
  have hcursor := hexact.cursor
  rw [hdata, intact, Lib.Framing.frames_none hcorrupt] at hcursor
  exact absurd hcursor (by decide)

end Cipher

end NetCore
