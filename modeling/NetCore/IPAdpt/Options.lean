import Mathlib.Data.List.Forall2
import NetCore.IPAdpt
import NetCore.Lib.Frame

/-!
# The option area

An option is a NOP, or a kind, a length and what the length counts; an END ends the list.  Options
delimit themselves, so the well-formed list at the front of an area is what `Lib.frames` cuts off.
`getOptionAddr` steps over an option of length 1 as well, reads a length byte wherever it stands, and
never looks whether what it returns is complete.
-/

namespace NetCore

open Lib (Framing frames)

/-- The length of the option area; below 5 the `int` is negative, and no round is made. -/
def optionAreaLen (dataoff : BitVec 4) : Nat := (dataoff.toNat - 5) * 4

theorem optionLoop_of_nonpos {option : U8} {optlen : Int} (h : optlen ≤ 0) (fuel : Nat)
    (mem : Bytes) : optionLoop option (fuel + 1) optlen mem = .notFound := by
  rw [optionLoop, if_pos h]

/-- Where `optionLoop` reads, counted from the start of the area; `off` is where the cursor is. -/
def optionReads (option : U8) : Nat → Int → Nat → Bytes → List Nat
  | 0, _, _, _ => []
  | fuel + 1, optlen, off, mem =>
      if optlen ≤ 0 then []
      else
        let kind := byteAt mem 0
        if option = kind then [off]
        else if kind = 0 then [off]
        -- the length byte is read for a NOP, too
        else if kind = 1 then
          off :: (off + 1) :: optionReads option fuel (optlen - 1) (off + 1) (mem.drop 1)
        else
          let len := (byteAt mem 1).toNat
          if len = 0 then [off, off + 1]
          else off :: (off + 1) :: optionReads option fuel (optlen - len) (off + len) (mem.drop len)

theorem optionReads_of_nonpos {option : U8} {optlen : Int} (h : optlen ≤ 0) (fuel off : Nat)
    (mem : Bytes) : optionReads option (fuel + 1) optlen off mem = [] := by
  rw [optionReads, if_pos h]

/-! ## Options as frames -/

/-- The option at the front of an area, of `least` bytes at least unless it is a NOP. -/
def optionAt (least : Nat) : Bytes → Option (Bytes × Bytes)
  | [] => none
  | kind :: rest =>
      if kind = 0 then none
      else if kind = 1 then some ([kind], rest)
      else
        match rest with
        | [] => none
        | len :: _ =>
            if least ≤ len.toNat ∧ len.toNat ≤ rest.length + 1 then
              some ((kind :: rest).take len.toNat, (kind :: rest).drop len.toNat)
            else none

def optionKind (option : Bytes) : U8 := byteAt option 0

inductive OptionFront (least : Nat) : Bytes → Option (Bytes × Bytes) → Prop where
  | empty : OptionFront least [] none
  | ending (rest : Bytes) : OptionFront least (0 :: rest) none
  | nop (rest : Bytes) : OptionFront least (1 :: rest) (some ([1], rest))
  | bare {kind : U8} : kind ≠ 0 → kind ≠ 1 → OptionFront least [kind] none
  | malformed {kind len : U8} {body : Bytes} : kind ≠ 0 → kind ≠ 1 →
      (len.toNat < least ∨ body.length + 2 < len.toNat) →
      OptionFront least (kind :: len :: body) none
  | whole {kind len : U8} {body : Bytes} : kind ≠ 0 → kind ≠ 1 → least ≤ len.toNat →
      len.toNat ≤ body.length + 2 → OptionFront least (kind :: len :: body)
        (some ((kind :: len :: body).take len.toNat, (kind :: len :: body).drop len.toNat))

theorem optionAt_front (least : Nat) (area : Bytes) :
    OptionFront least area (optionAt least area) := by
  match area with
  | [] => exact .empty
  | kind :: rest =>
    unfold optionAt
    dsimp only
    by_cases hzero : kind = 0
    · rw [if_pos hzero, hzero]
      exact .ending rest
    · rw [if_neg hzero]
      by_cases hone : kind = 1
      · rw [if_pos hone, hone]
        exact .nop rest
      · rw [if_neg hone]
        match rest with
        | [] => exact .bare hzero hone
        | len :: body =>
          simp only [List.length_cons]
          split
          next h => exact .whole hzero hone h.1 h.2
          next h => exact .malformed hzero hone (by omega)

-- An option and what follows it make up the area.
theorem optionAt_eq {least : Nat} {area o rest : Bytes} (h : optionAt least area = some (o, rest)) :
    area = o ++ rest := by
  have hfront := optionAt_front least area
  rw [h] at hfront
  cases hfront with
  | nop => rfl
  | whole => exact (List.take_append_drop _ _).symm

theorem optionAt_extend {least : Nat} {area o rest : Bytes}
    (h : optionAt least area = some (o, rest)) (y : Bytes) :
    optionAt least (area ++ y) = some (o, rest ++ y) := by
  have hfront := optionAt_front least area
  rw [h] at hfront
  cases hfront with
  | nop => rfl
  | @whole kind len body hzero hone hleast hle =>
    have hlen : len.toNat ≤ (kind :: len :: body).length := hle
    show optionAt least (kind :: len :: (body ++ y)) = _
    unfold optionAt
    dsimp only
    rw [if_neg hzero, if_neg hone]
    simp only [List.length_cons, List.length_append]
    rw [if_pos ⟨hleast, by omega⟩, ← List.cons_append, ← List.cons_append,
      List.take_append_of_le_length hlen, List.drop_append_of_le_length hlen]

theorem optionAt_length {least : Nat} (hleast : 0 < least) {area o rest : Bytes}
    (h : optionAt least area = some (o, rest)) : 0 < o.length := by
  have hfront := optionAt_front least area
  rw [h] at hfront
  cases hfront with
  | nop => exact Nat.one_pos
  | whole _ _ hlen hle =>
    rw [List.length_take, List.length_cons, List.length_cons]
    omega

-- Options delimit themselves.
theorem option_framing {least : Nat} (hleast : 0 < least) : Framing (optionAt least) where
  extend h := optionAt_extend h _
  progress h := by
    have hpos := optionAt_length hleast h
    rw [optionAt_eq h, List.length_append]
    omega

/-- The well-formed list that prefixes an option area. -/
def tcpOptions (area : Bytes) : List Bytes := (frames (optionAt 2) area).1

/-- What `getOptionAddr` steps over, and what it cannot step over. -/
def scanned (area : Bytes) : List Bytes × Bytes := frames (optionAt 1) area

/-! ## The rounds of the scan -/

variable {option : U8} {area o rest : Bytes}

theorem optionKind_of_optionAt {least : Nat} (hleast : 0 < least)
    (h : optionAt least area = some (o, rest)) :
    ∃ tail, area = optionKind o :: tail ∧ optionKind o ≠ 0 := by
  have hfront := optionAt_front least area
  rw [h] at hfront
  cases hfront with
  | nop => exact ⟨rest, rfl, by decide⟩
  | @whole kind len body hzero _ hlen _ =>
    obtain ⟨n, hn⟩ := Nat.exists_eq_succ_of_ne_zero (show len.toNat ≠ 0 by omega)
    have hkind : optionKind ((kind :: len :: body).take len.toNat) = kind := by
      rw [hn]
      rfl
    exact ⟨len :: body, by rw [hkind], by rw [hkind]; exact hzero⟩

theorem optionLoop_hit (kind : U8) (fuel : Nat) (tail behind : Bytes) (off : Nat) :
    optionLoop kind (fuel + 1) (kind :: tail).length (kind :: tail ++ behind) =
        .found (kind :: tail ++ behind) ∧
      optionReads kind (fuel + 1) (kind :: tail).length off (kind :: tail ++ behind) = [off] := by
  have hpos : ¬ ((kind :: tail).length : Int) ≤ 0 := by
    rw [List.length_cons]
    omega
  constructor
  · rw [optionLoop, if_neg hpos]
    exact if_pos rfl
  · rw [optionReads, if_neg hpos]
    exact if_pos rfl

-- A round on an option with a length byte.
theorem optionLoop_long {kind : U8} (hother : kind ≠ option) (hzero : kind ≠ 0) (hone : kind ≠ 1)
    (fuel : Nat) (tail behind : Bytes) (off : Nat) :
    (optionLoop option (fuel + 1) (kind :: tail).length (kind :: tail ++ behind) =
      if (byteAt (tail ++ behind) 0).toNat = 0 then .spins
      else optionLoop option fuel ((kind :: tail).length - (byteAt (tail ++ behind) 0).toNat)
        ((kind :: tail ++ behind).drop (byteAt (tail ++ behind) 0).toNat)) ∧
    optionReads option (fuel + 1) (kind :: tail).length off (kind :: tail ++ behind) =
      if (byteAt (tail ++ behind) 0).toNat = 0 then [off, off + 1]
      else off :: (off + 1) :: optionReads option fuel
        ((kind :: tail).length - (byteAt (tail ++ behind) 0).toNat)
        (off + (byteAt (tail ++ behind) 0).toNat)
        ((kind :: tail ++ behind).drop (byteAt (tail ++ behind) 0).toNat) := by
  have hpos : ¬ ((kind :: tail).length : Int) ≤ 0 := by
    rw [List.length_cons]
    omega
  have hother' : ¬ option = byteAt (kind :: tail ++ behind) 0 := fun heq => hother heq.symm
  have hzero' : ¬ byteAt (kind :: tail ++ behind) 0 = 0 := hzero
  have hone' : ¬ byteAt (kind :: tail ++ behind) 0 = 1 := hone
  rw [optionLoop, optionReads, if_neg hpos, if_neg hpos]
  simp only
  rw [if_neg hother', if_neg hother', if_neg hzero', if_neg hzero', if_neg hone', if_neg hone']
  exact ⟨rfl, rfl⟩

-- An option of another kind is stepped over.
theorem optionLoop_step (h : optionAt 1 area = some (o, rest)) (hkind : optionKind o ≠ option)
    (fuel : Nat) (behind : Bytes) (off : Nat) :
    optionLoop option (fuel + 1) area.length (area ++ behind) =
        optionLoop option fuel rest.length (rest ++ behind) ∧
      optionReads option (fuel + 1) area.length off (area ++ behind) =
        off :: (off + 1) :: optionReads option fuel rest.length (off + o.length) (rest ++ behind) := by
  have hfront := optionAt_front 1 area
  rw [h] at hfront
  cases hfront with
  | nop =>
    have hpos : ¬ ((1 :: rest : Bytes).length : Int) ≤ 0 := by
      rw [List.length_cons]
      omega
    have hlen : ((1 :: rest : Bytes).length : Int) - 1 = rest.length := by
      rw [List.length_cons]
      omega
    have hother : ¬ option = byteAt (1 :: rest ++ behind) 0 := fun heq => hkind heq.symm
    have hzero : ¬ byteAt (1 :: rest ++ behind) 0 = 0 := by
      show ¬ (1 : U8) = 0
      decide
    have hone : byteAt (1 :: rest ++ behind) 0 = 1 := rfl
    rw [optionLoop, optionReads, if_neg hpos, if_neg hpos]
    simp only
    rw [if_neg hother, if_neg hother, if_neg hzero, if_neg hzero, if_pos hone, if_pos hone, hlen]
    exact ⟨rfl, rfl⟩
  | @whole kind len body hzero hone hleast hle =>
    obtain ⟨n, hn⟩ := Nat.exists_eq_succ_of_ne_zero (Nat.ne_of_gt hleast)
    have hfirst : optionKind ((kind :: len :: body).take len.toNat) = kind := by
      rw [hn]
      rfl
    have hlen : ((kind :: len :: body : Bytes).length : Int) - len.toNat =
        ((kind :: len :: body).drop len.toNat).length := by
      rw [List.length_drop, List.length_cons, List.length_cons]
      omega
    have hdrop : (kind :: len :: body ++ behind).drop len.toNat =
        (kind :: len :: body).drop len.toNat ++ behind :=
      List.drop_append_of_le_length hle
    have htake : ((kind :: len :: body).take len.toNat).length = len.toNat := by
      rw [List.length_take, List.length_cons, List.length_cons]
      omega
    have hsecond : byteAt (len :: body ++ behind) 0 = len := rfl
    obtain ⟨hloop, hreads⟩ :=
      optionLoop_long (hfirst ▸ hkind) hzero hone fuel (len :: body) behind off
    rw [hsecond, if_neg (by omega), hlen, hdrop] at hloop hreads
    rw [htake]
    exact ⟨hloop, hreads⟩

/-! What the scan does where no whole option is left. -/

theorem optionLoop_empty (fuel : Nat) (behind : Bytes) (off : Nat) :
    optionLoop option (fuel + 1) ([] : Bytes).length ([] ++ behind) = .notFound ∧
      optionReads option (fuel + 1) ([] : Bytes).length off ([] ++ behind) = [] :=
  ⟨optionLoop_of_nonpos (Int.le_refl 0) fuel _, optionReads_of_nonpos (Int.le_refl 0) fuel off _⟩

theorem optionLoop_ending (hother : (0 : U8) ≠ option) (fuel : Nat) (rest behind : Bytes)
    (off : Nat) :
    optionLoop option (fuel + 1) (0 :: rest : Bytes).length (0 :: rest ++ behind) = .notFound ∧
      optionReads option (fuel + 1) (0 :: rest : Bytes).length off (0 :: rest ++ behind) = [off] := by
  have hpos : ¬ ((0 :: rest : Bytes).length : Int) ≤ 0 := by
    rw [List.length_cons]
    omega
  have hread : ¬ option = byteAt (0 :: rest ++ behind) 0 := hother.symm
  have hend : byteAt (0 :: rest ++ behind) 0 = 0 := rfl
  rw [optionLoop, optionReads, if_neg hpos, if_neg hpos]
  simp only
  rw [if_neg hread, if_neg hread, if_pos hend, if_pos hend]
  exact ⟨rfl, rfl⟩

-- The length of a kind that stands alone is looked for behind the area.
theorem mem_optionReads_bare {kind : U8} (hother : kind ≠ option) (hzero : kind ≠ 0)
    (hone : kind ≠ 1) (fuel : Nat) (behind : Bytes) (off : Nat) :
    off + 1 ∈ optionReads option (fuel + 1) [kind].length off ([kind] ++ behind) := by
  show off + 1 ∈ optionReads option (fuel + 1) [kind].length off (kind :: [] ++ behind)
  rw [(optionLoop_long hother hzero hone fuel [] behind off).2]
  split <;> simp

-- A length that no option there can have: the scan does not get on, or leaves the area.
theorem optionLoop_malformed {kind len : U8} {body : Bytes} (hother : kind ≠ option)
    (hzero : kind ≠ 0) (hone : kind ≠ 1) (hlen : len.toNat < 1 ∨ body.length + 2 < len.toNat)
    {fuel : Nat} (hfuel : (kind :: len :: body).length < fuel + 1) (behind : Bytes) (off : Nat) :
    (optionLoop option (fuel + 1) (kind :: len :: body).length (kind :: len :: body ++ behind) =
      if len.toNat = 0 then .spins else .notFound) ∧
    optionReads option (fuel + 1) (kind :: len :: body).length off (kind :: len :: body ++ behind) =
      [off, off + 1] := by
  obtain ⟨hloop, hreads⟩ := optionLoop_long hother hzero hone fuel (len :: body) behind off
  have hsecond : byteAt (len :: body ++ behind) 0 = len := rfl
  rw [hsecond] at hloop hreads
  rw [List.cons_append] at hloop hreads
  by_cases hspins : len.toNat = 0
  · rw [if_pos hspins] at hloop hreads ⊢
    exact ⟨hloop, hreads⟩
  · have hlength : (kind :: len :: body).length = body.length + 2 := rfl
    have hbehind : ((kind :: len :: body).length : Int) - len.toNat ≤ 0 := by omega
    obtain ⟨fuel, rfl⟩ := Nat.exists_eq_succ_of_ne_zero (show fuel ≠ 0 by omega)
    rw [if_neg hspins] at hloop hreads ⊢
    rw [optionLoop_of_nonpos hbehind] at hloop
    rw [optionReads_of_nonpos hbehind] at hreads
    exact ⟨hloop, hreads⟩

-- What stops the scan, when it is not the kind looked for: how it ends, and whether it has read
-- inside the area.
theorem optionLoop_stop (h : optionAt 1 area = none)
    (hkind : ∀ kind tail, area = kind :: tail → kind ≠ option) {fuel : Nat}
    (hfuel : area.length < fuel) (behind : Bytes) (off : Nat) :
    (optionLoop option fuel area.length (area ++ behind) = .notFound ∧
      ∀ i ∈ optionReads option fuel area.length off (area ++ behind), i < off + area.length) ↔
      (∀ kind tail, area = kind :: tail →
        kind = 0 ∨ ∃ len body, tail = len :: body ∧ area.length < len.toNat) := by
  obtain ⟨fuel, rfl⟩ := Nat.exists_eq_succ_of_ne_zero (Nat.ne_of_gt (Nat.zero_lt_of_lt hfuel))
  have hfront := optionAt_front 1 area
  rw [h] at hfront
  cases hfront with
  | empty =>
    obtain ⟨hloop, hreads⟩ := @optionLoop_empty option fuel behind off
    refine ⟨fun _ kind tail hcons => (List.cons_ne_nil _ _ hcons.symm).elim, fun _ => ⟨hloop, ?_⟩⟩
    rw [hreads]
    exact List.forall_mem_nil _
  | ending rest =>
    obtain ⟨hloop, hreads⟩ := optionLoop_ending (hkind 0 rest rfl) fuel rest behind off
    refine ⟨fun _ kind tail hcons => .inl (List.cons.inj hcons).1.symm, fun _ => ⟨hloop, ?_⟩⟩
    rw [hreads, List.forall_mem_singleton, List.length_cons]
    omega
  | @bare kind hzero hone =>
    constructor
    · rintro ⟨-, hbounds⟩
      have hlt := hbounds _ (mem_optionReads_bare (hkind kind [] rfl) hzero hone fuel behind off)
      rw [List.length_singleton] at hlt
      omega
    · intro hclean
      rcases hclean kind [] rfl with hend | ⟨len, body, hcons, -⟩
      · exact absurd hend hzero
      · cases hcons
  | @malformed kind len body hzero hone hlen =>
    obtain ⟨hloop, hreads⟩ := optionLoop_malformed (hkind kind (len :: body) rfl) hzero hone hlen hfuel
      behind off
    have hlength : (kind :: len :: body).length = body.length + 2 := rfl
    rw [hloop, hreads]
    rcases hlen with hshort | hlong
    · rw [if_pos (by omega)]
      constructor
      · rintro ⟨hend, -⟩
        cases hend
      · intro hclean
        rcases hclean kind (len :: body) rfl with hend | ⟨len', body', hcons, hlt⟩
        · exact absurd hend hzero
        · rw [← (List.cons.inj hcons).1] at hlt
          omega
    · rw [if_neg (by omega)]
      refine ⟨fun _ kind' tail hcons => ?_, fun _ => ⟨rfl, ?_⟩⟩
      · exact .inr ⟨len, body, (List.cons.inj hcons).2.symm, hlong⟩
      · intro i hi
        simp only [List.mem_cons, List.not_mem_nil, or_false] at hi
        omega

/-- The way of the scan through an area that does not hold the kind: nothing of that kind on it, and
    at its end the area, but no NOP before it, an END, or a length beyond the area. -/
def Passes (option : U8) (area : Bytes) : Prop :=
  (∀ o ∈ (scanned area).1, optionKind o ≠ option) ∧
    ((scanned area).2 = [] → (scanned area).1.getLast? ≠ some [1]) ∧
    ∀ kind tail, (scanned area).2 = kind :: tail → kind ≠ option ∧
      (kind = 0 ∨ ∃ len body, tail = len :: body ∧ (scanned area).2.length < len.toNat)

theorem scanned_of_none (h : optionAt 1 area = none) : scanned area = ([], area) :=
  Framing.frames_none h

theorem scanned_of_some (h : optionAt 1 area = some (o, rest)) :
    scanned area = (o :: (scanned rest).1, (scanned rest).2) :=
  (option_framing Nat.one_pos).frames_some h

theorem passes_of_none (h : optionAt 1 area = none) :
    Passes option area ↔ ∀ kind tail, area = kind :: tail → kind ≠ option ∧
      (kind = 0 ∨ ∃ len body, tail = len :: body ∧ area.length < len.toNat) := by
  unfold Passes
  rw [scanned_of_none h]
  simp

-- Only a NOP is an option alone in an area of one byte.
theorem eq_nop_of_length {least : Nat} (h : optionAt least area = some (o, rest))
    (hlen : area.length ≤ 1) : o = [1] ∧ rest = [] := by
  have hfront := optionAt_front least area
  rw [h] at hfront
  cases hfront with
  | nop =>
    rw [List.length_cons] at hlen
    exact ⟨rfl, List.length_eq_zero_iff.mp (by omega)⟩
  | whole =>
    rw [List.length_cons, List.length_cons] at hlen
    omega

-- What the options behind the first one end with, all of them end with.
theorem getLast_scanned (h : optionAt 1 area = some (o, rest)) (hlong : 1 < area.length)
    (hleft : (scanned rest).2 = []) :
    (o :: (scanned rest).1).getLast? ≠ some [1] ↔ (scanned rest).1.getLast? ≠ some [1] := by
  cases hnext : optionAt 1 rest with
  | none =>
    rw [scanned_of_none hnext] at hleft ⊢
    have hall := optionAt_eq h
    rw [show rest = [] from hleft, List.append_nil] at hall
    have hne : o ≠ [1] := by
      rintro rfl
      rw [hall] at hlong
      exact Nat.lt_irrefl 1 hlong
    exact ⟨fun _ => nofun, fun _ hlast => hne (Option.some.inj hlast)⟩
  | some r =>
    rw [scanned_of_some hnext, List.getLast?_cons_cons]

theorem passes_of_some (h : optionAt 1 area = some (o, rest)) (hkind : optionKind o ≠ option) :
    Passes option area ↔ Passes option rest ∧ 1 < area.length := by
  unfold Passes
  rw [scanned_of_some h, List.forall_mem_cons]
  by_cases hshort : area.length ≤ 1
  · -- a NOP that fills the area
    obtain ⟨rfl, rfl⟩ := eq_nop_of_length h hshort
    have hempty : scanned [] = ([], []) := rfl
    rw [hempty]
    constructor
    · rintro ⟨-, hlast, -⟩
      exact absurd rfl (hlast rfl)
    · rintro ⟨-, hlong⟩
      omega
  · have hlast := getLast_scanned h (Nat.lt_of_not_le hshort)
    constructor
    · rintro ⟨⟨-, hothers⟩, hend, hleft⟩
      exact ⟨⟨hothers, fun hempty => (hlast hempty).mp (hend hempty), hleft⟩, by omega⟩
    · rintro ⟨⟨hothers, hend, hleft⟩, -⟩
      exact ⟨⟨hkind, hothers⟩, fun hempty => (hlast hempty).mpr (hend hempty), hleft⟩

-- The scan finds nothing and stays in the area exactly if it passes.
theorem optionLoop_passes_iff (area behind : Bytes) {fuel : Nat} (hfuel : area.length < fuel)
    (off : Nat) :
    (optionLoop option fuel area.length (area ++ behind) = .notFound ∧
      ∀ i ∈ optionReads option fuel area.length off (area ++ behind), i < off + area.length) ↔
      Passes option area := by
  induction area using (option_framing Nat.one_pos).induction generalizing fuel off with
  | none area hnone =>
    by_cases hkind : ∀ kind tail, area = kind :: tail → kind ≠ option
    · rw [optionLoop_stop hnone hkind hfuel, passes_of_none hnone]
      exact ⟨fun h kind tail hcons => ⟨hkind kind tail hcons, h kind tail hcons⟩,
        fun h kind tail hcons => (h kind tail hcons).2⟩
    · simp only [not_forall, not_not] at hkind
      obtain ⟨kind, tail, rfl, rfl⟩ := hkind
      obtain ⟨fuel, rfl⟩ := Nat.exists_eq_succ_of_ne_zero (Nat.ne_of_gt (Nat.zero_lt_of_lt hfuel))
      rw [(optionLoop_hit _ fuel tail behind off).1, passes_of_none hnone]
      constructor
      · rintro ⟨hfound, -⟩
        cases hfound
      · exact fun h => absurd rfl (h kind tail rfl).1
  | some area o rest hsome ih =>
    obtain ⟨fuel, rfl⟩ := Nat.exists_eq_succ_of_ne_zero (Nat.ne_of_gt (Nat.zero_lt_of_lt hfuel))
    have hlen := congrArg List.length (optionAt_eq hsome)
    have hpos := optionAt_length Nat.one_pos hsome
    rw [List.length_append] at hlen
    by_cases hkind : optionKind o = option
    · obtain ⟨tail, htail, -⟩ := optionKind_of_optionAt Nat.one_pos hsome
      constructor
      · rintro ⟨hnone, -⟩
        rw [htail, hkind, (optionLoop_hit _ fuel tail behind off).1] at hnone
        cases hnone
      · intro hpasses
        have hall := hpasses.1
        rw [scanned_of_some hsome] at hall
        exact absurd hkind (hall o List.mem_cons_self)
    · obtain ⟨hloop, hreads⟩ := optionLoop_step hsome hkind fuel behind off
      rw [hloop, hreads, passes_of_some hsome hkind,
        ← ih (show rest.length < fuel by omega) (off + o.length), List.forall_mem_cons,
        List.forall_mem_cons]
      constructor
      · rintro ⟨hnone, -, hsecond, hlater⟩
        exact ⟨⟨hnone, fun i hi => by have hlt := hlater i hi; omega⟩, by omega⟩
      · rintro ⟨⟨hnone, hlater⟩, hlong⟩
        exact ⟨hnone, by omega, by omega, fun i hi => by have hlt := hlater i hi; omega⟩

/-! ## The byte behind the area -/

-- The scan reads one byte behind the area, at most.
theorem optionReads_le {fuel : Nat} {optlen : Int} {off : Nat} {mem : Bytes} {i : Nat}
    (h : i ∈ optionReads option fuel optlen off mem) : (i : Int) ≤ off + optlen := by
  induction fuel generalizing optlen off mem with
  | zero => cases h
  | succ fuel ih =>
    rw [optionReads] at h
    split at h
    · cases h
    next hpos =>
      simp only at h
      split at h
      · rw [List.mem_singleton.mp h]
        omega
      · split at h
        · rw [List.mem_singleton.mp h]
          omega
        · split at h
          · rcases List.mem_cons.mp h with rfl | h
            · omega
            rcases List.mem_cons.mp h with rfl | h
            · omega
            have hle := ih h
            omega
          · split at h
            · rcases List.mem_pair.mp h with rfl | rfl <;> omega
            · rcases List.mem_cons.mp h with rfl | h
              · omega
              rcases List.mem_cons.mp h with rfl | h
              · omega
              have hle := ih h
              omega

/-- The scan comes across the kind, or nothing but that kind or an END stands alone at the end of the
    area on its way. -/
def EndsInside (option : U8) (area : Bytes) : Prop :=
  (∃ o ∈ (scanned area).1, optionKind o = option) ∨
    ((scanned area).2 = [] → (scanned area).1.getLast? ≠ some [1]) ∧
      ∀ kind, (scanned area).2 = [kind] → kind = option ∨ kind = 0

theorem endsInside_of_none (h : optionAt 1 area = none) :
    EndsInside option area ↔ ∀ kind, area = [kind] → kind = option ∨ kind = 0 := by
  unfold EndsInside
  rw [scanned_of_none h]
  simp

theorem endsInside_of_some (h : optionAt 1 area = some (o, rest)) (hkind : optionKind o ≠ option) :
    EndsInside option area ↔ EndsInside option rest ∧ 1 < area.length := by
  unfold EndsInside
  rw [scanned_of_some h]
  have hothers : (∃ o' ∈ o :: (scanned rest).1, optionKind o' = option) ↔
      ∃ o' ∈ (scanned rest).1, optionKind o' = option := by
    rw [List.exists_mem_cons_iff]
    exact or_iff_right hkind
  rw [hothers]
  by_cases hshort : area.length ≤ 1
  · obtain ⟨rfl, rfl⟩ := eq_nop_of_length h hshort
    have hempty : scanned [] = ([], []) := rfl
    rw [hempty]
    simpa using hshort
  · rw [and_iff_left (Nat.lt_of_not_le hshort)]
    refine or_congr_right (and_congr_left' ?_)
    exact forall_congr' (getLast_scanned h (Nat.lt_of_not_le hshort))

-- The last reads of a scan.
theorem optionReads_stop (h : optionAt 1 area = none) {fuel : Nat} (hfuel : area.length < fuel)
    (behind : Bytes) (off : Nat) :
    (∀ i ∈ optionReads option fuel area.length off (area ++ behind), i < off + area.length) ↔
      ∀ kind, area = [kind] → kind = option ∨ kind = 0 := by
  obtain ⟨fuel, rfl⟩ := Nat.exists_eq_succ_of_ne_zero (Nat.ne_of_gt (Nat.zero_lt_of_lt hfuel))
  by_cases hkind : ∀ kind tail, area = kind :: tail → kind ≠ option
  · have hfront := optionAt_front 1 area
    rw [h] at hfront
    cases hfront with
    | empty =>
      refine iff_of_true ?_ (by simp)
      rw [(optionLoop_empty fuel behind off).2]
      exact List.forall_mem_nil _
    | ending rest =>
      refine iff_of_true ?_ fun kind heq => .inr (List.cons.inj heq).1.symm
      rw [(optionLoop_ending (hkind 0 rest rfl) fuel rest behind off).2, List.forall_mem_singleton,
        List.length_cons]
      omega
    | @bare kind hzero hone =>
      have hother := hkind kind [] rfl
      refine iff_of_false (fun hbounds => ?_) fun hclean => ?_
      · have hlt := hbounds _ (mem_optionReads_bare hother hzero hone fuel behind off)
        rw [List.length_singleton] at hlt
        omega
      · exact (hclean kind rfl).elim hother hzero
    | @malformed kind len body hzero hone hlen =>
      have hlength : (kind :: len :: body).length = body.length + 2 := rfl
      refine iff_of_true ?_ (by simp)
      rw [(optionLoop_malformed (hkind kind (len :: body) rfl) hzero hone hlen hfuel behind off).2]
      intro i hi
      simp only [List.mem_cons, List.not_mem_nil, or_false] at hi
      omega
  · simp only [not_forall, not_not] at hkind
    obtain ⟨kind, tail, rfl, rfl⟩ := hkind
    rw [(optionLoop_hit _ fuel tail behind off).2, List.forall_mem_singleton, List.length_cons]
    refine iff_of_true (by omega) fun kind' heq => ?_
    exact .inl (List.cons.inj heq).1.symm

-- The scan stays in the area exactly if it ends inside.
theorem optionReads_inside_iff (area behind : Bytes) {fuel : Nat} (hfuel : area.length < fuel)
    (off : Nat) :
    (∀ i ∈ optionReads option fuel area.length off (area ++ behind), i < off + area.length) ↔
      EndsInside option area := by
  induction area using (option_framing Nat.one_pos).induction generalizing fuel off with
  | none area hnone => rw [optionReads_stop hnone hfuel, endsInside_of_none hnone]
  | some area o rest hsome ih =>
    obtain ⟨fuel, rfl⟩ := Nat.exists_eq_succ_of_ne_zero (Nat.ne_of_gt (Nat.zero_lt_of_lt hfuel))
    have hlen := congrArg List.length (optionAt_eq hsome)
    have hpos := optionAt_length Nat.one_pos hsome
    rw [List.length_append] at hlen
    by_cases hkind : optionKind o = option
    · obtain ⟨tail, htail, -⟩ := optionKind_of_optionAt Nat.one_pos hsome
      have hfound : EndsInside option area := by
        refine .inl ⟨o, ?_, hkind⟩
        rw [scanned_of_some hsome]
        exact List.mem_cons_self
      refine iff_of_true ?_ hfound
      have hreads := (optionLoop_hit (optionKind o) fuel tail behind off).2
      rw [← htail, hkind] at hreads
      rw [hreads, List.forall_mem_singleton]
      omega
    · rw [(optionLoop_step hsome hkind fuel behind off).2, endsInside_of_some hsome hkind,
        ← ih (show rest.length < fuel by omega) (off + o.length), List.forall_mem_cons,
        List.forall_mem_cons]
      constructor
      · rintro ⟨-, hsecond, hlater⟩
        exact ⟨fun i hi => by have hlt := hlater i hi; omega, by omega⟩
      · rintro ⟨hlater, hlong⟩
        exact ⟨by omega, by omega, fun i hi => by have hlt := hlater i hi; omega⟩

/-! ## The address returned -/

/-- `addr` is the memory from the first option of a kind on: it stands in the well-formed list that
    prefixes the area, so before any END, and lies inside the area as a whole. -/
def FirstOption (option : U8) (area behind addr : Bytes) : Prop :=
  ∃ before o after, tcpOptions area = before ++ o :: after ∧ optionKind o = option ∧
    (∀ p ∈ before, optionKind p ≠ option) ∧ addr = (area ++ behind).drop before.flatten.length ∧
    o <+: addr ∧ before.flatten.length + o.length ≤ area.length

theorem tcpOptions_of_some (h : optionAt 2 area = some (o, rest)) :
    tcpOptions area = o :: tcpOptions rest :=
  congrArg Prod.fst ((option_framing Nat.two_pos).frames_some h)

theorem tcpOptions_of_none (h : optionAt 2 area = none) : tcpOptions area = [] :=
  congrArg Prod.fst (Framing.frames_none h)

theorem optionAt_weaken (h : optionAt 2 area = some (o, rest)) :
    optionAt 1 area = some (o, rest) := by
  have hfront := optionAt_front 2 area
  rw [h] at hfront
  cases hfront with
  | nop => rfl
  | @whole kind len body hzero hone hleast hle =>
    unfold optionAt
    dsimp only
    rw [if_neg hzero, if_neg hone]
    simp only [List.length_cons]
    rw [if_pos ⟨by omega, hle⟩]

-- A kind that is in the list is found, and the scan has not left the area.
theorem optionLoop_finds (area behind : Bytes) (h : ∃ o ∈ tcpOptions area, optionKind o = option)
    {fuel : Nat} (hfuel : area.length < fuel) (off : Nat) :
    ∃ addr, optionLoop option fuel area.length (area ++ behind) = .found addr ∧
      FirstOption option area behind addr ∧
      ∀ i ∈ optionReads option fuel area.length off (area ++ behind), i < off + area.length := by
  induction area using (option_framing Nat.two_pos).induction generalizing fuel off with
  | none area hnone =>
    rw [tcpOptions_of_none hnone] at h
    obtain ⟨o, ho, -⟩ := h
    cases ho
  | some area o rest hsome ih =>
    obtain ⟨fuel, rfl⟩ := Nat.exists_eq_succ_of_ne_zero (Nat.ne_of_gt (Nat.zero_lt_of_lt hfuel))
    have harea := optionAt_eq hsome
    have hlen := congrArg List.length harea
    have hpos := optionAt_length Nat.two_pos hsome
    rw [List.length_append] at hlen
    rw [tcpOptions_of_some hsome] at h
    by_cases hkind : optionKind o = option
    · obtain ⟨tail, htail, -⟩ := optionKind_of_optionAt Nat.two_pos hsome
      obtain ⟨hloop, hreads⟩ := optionLoop_hit (optionKind o) fuel tail behind off
      rw [← htail, hkind] at hloop hreads
      refine ⟨area ++ behind, hloop, ⟨[], o, tcpOptions rest, ?_, hkind, by simp, rfl, ?_, ?_⟩, ?_⟩
      · rw [tcpOptions_of_some hsome]
        rfl
      · rw [harea, List.append_assoc]
        exact List.prefix_append o _
      · rw [List.flatten_nil, List.length_nil]
        omega
      · rw [hreads, List.forall_mem_singleton]
        omega
    · obtain ⟨o', ho', hkind'⟩ := h
      rcases List.mem_cons.mp ho' with rfl | hlater
      · exact absurd hkind' hkind
      obtain ⟨addr, hfound, ⟨before, q, after, hsplit, hq, hbefore, haddr, hprefix, hinside⟩, hbounds⟩ :=
        ih ⟨o', hlater, hkind'⟩ (show rest.length < fuel by omega) (off + o.length)
      obtain ⟨hloop, hreads⟩ := optionLoop_step (optionAt_weaken hsome) hkind fuel behind off
      have hne : rest ≠ [] := by
        rintro rfl
        rw [tcpOptions_of_none rfl] at hlater
        cases hlater
      have hrest := List.length_pos_iff.mpr hne
      refine ⟨addr, hloop.trans hfound, ⟨o :: before, q, after, ?_, hq, ?_, ?_, hprefix, ?_⟩, ?_⟩
      · rw [tcpOptions_of_some hsome, hsplit]
        rfl
      · exact List.forall_mem_cons.mpr ⟨hkind, hbefore⟩
      · rw [haddr, harea, List.flatten_cons, List.length_append, List.append_assoc,
          ← List.drop_drop, List.drop_left]
      · rw [List.flatten_cons, List.length_append]
        omega
      · rw [hreads, List.forall_mem_cons, List.forall_mem_cons]
        refine ⟨by omega, by omega, fun i hi => ?_⟩
        have hlt := hbounds i hi
        omega

theorem FirstOption.mem {behind addr : Bytes} (h : FirstOption option area behind addr) :
    ∃ o ∈ tcpOptions area, optionKind o = option := by
  obtain ⟨before, o, after, hsplit, hkind, -⟩ := h
  exact ⟨o, hsplit ▸ List.mem_append_right before List.mem_cons_self, hkind⟩

-- There is one first option at most.
theorem FirstOption.unique {behind addr addr' : Bytes} (h : FirstOption option area behind addr)
    (h' : FirstOption option area behind addr') : addr = addr' := by
  have htake {before : List Bytes} (after : List Bytes) {o : Bytes} (hkind : optionKind o = option)
      (hbefore : ∀ p ∈ before, optionKind p ≠ option) :
      (before ++ o :: after).takeWhile (fun p => decide (optionKind p ≠ option)) = before := by
    rw [List.takeWhile_append_of_pos (fun p hp => decide_eq_true (hbefore p hp)),
      List.takeWhile_cons_of_neg (by simp [hkind]), List.append_nil]
  obtain ⟨before, o, after, hsplit, hkind, hbefore, haddr, -⟩ := h
  obtain ⟨before', o', after', hsplit', hkind', hbefore', haddr', -⟩ := h'
  have hsame : before = before' := by
    rw [← htake after hkind hbefore, ← hsplit, hsplit', htake after' hkind' hbefore']
  rw [haddr, haddr', hsame]

structure ScanSound (option : U8) (mem : Bytes) (optlen : Nat) : Prop where
  terminates : getOptionAddr mem optlen option ≠ .spins
  /-- It reads in the area only. -/
  bounds : ∀ i ∈ optionReads option (optlen + 1) optlen 0 mem, i < optlen
  found (addr : Bytes) : getOptionAddr mem optlen option = .found addr ↔
    FirstOption option (mem.take optlen) (mem.drop optlen) addr

theorem scanSound_iff (option : U8) (area behind : Bytes) :
    ScanSound option (area ++ behind) area.length ↔
      (∃ o ∈ tcpOptions area, optionKind o = option) ∨ Passes option area := by
  have hpasses := @optionLoop_passes_iff option area behind _ (Nat.lt_succ_self _) 0
  rw [Nat.zero_add] at hpasses
  have htake : (area ++ behind).take area.length = area := List.take_left
  have hdrop : (area ++ behind).drop area.length = behind := List.drop_left
  constructor
  · intro h
    by_cases hmem : ∃ o ∈ tcpOptions area, optionKind o = option
    · exact .inl hmem
    · refine .inr (hpasses.mp ⟨?_, h.bounds⟩)
      cases hscan : getOptionAddr (area ++ behind) area.length option with
      | found addr =>
        have hfirst := (h.found addr).mp hscan
        rw [htake] at hfirst
        exact absurd hfirst.mem hmem
      | notFound => exact hscan
      | spins => exact absurd hscan h.terminates
  · intro h
    by_cases hmem : ∃ o ∈ tcpOptions area, optionKind o = option
    · obtain ⟨addr, hfound, hfirst, hbounds⟩ :=
        optionLoop_finds area behind hmem (Nat.lt_succ_self _) 0
      have hscan : getOptionAddr (area ++ behind) area.length option = .found addr := hfound
      rw [Nat.zero_add] at hbounds
      refine ⟨by rw [hscan]; nofun, hbounds, fun addr' => ?_⟩
      rw [hscan, OptionScan.found.injEq, htake, hdrop]
      exact ⟨fun heq => heq ▸ hfirst, fun hfirst' => hfirst.unique hfirst'⟩
    · obtain ⟨hnone, hbounds⟩ := hpasses.mpr (h.resolve_left hmem)
      have hscan : getOptionAddr (area ++ behind) area.length option = .notFound := hnone
      refine ⟨by rw [hscan]; nofun, hbounds, fun addr => ?_⟩
      rw [hscan, htake]
      exact ⟨nofun, fun hfirst => absurd hfirst.mem hmem⟩

/-- `getOptionAddr` keeps to the well-formed list of the area that `dataoff` declares exactly if the
    list holds the kind, or nothing leads the scan astray. -/
theorem getOptionAddr_sound_iff (dataoff : BitVec 4) {mem : Bytes} (option : U8)
    (h : optionAreaLen dataoff ≤ mem.length) :
    ScanSound option mem (optionAreaLen dataoff) ↔
      (∃ o ∈ tcpOptions (mem.take (optionAreaLen dataoff)), optionKind o = option) ∨
        Passes option (mem.take (optionAreaLen dataoff)) := by
  have hlen : (mem.take (optionAreaLen dataoff)).length = optionAreaLen dataoff :=
    List.length_take_of_le h
  have hscan := scanSound_iff option (mem.take (optionAreaLen dataoff))
    (mem.drop (optionAreaLen dataoff))
  rw [hlen, List.take_append_drop] at hscan
  exact hscan

/-- An MSS option, and nothing else. -/
theorem getOptionAddr_sound_sample :
    ScanSound optMSS [2, 4, 5, 0xB4] (optionAreaLen 6) ↔
      (∃ o ∈ tcpOptions ([2, 4, 5, 0xB4].take (optionAreaLen 6)), optionKind o = optMSS) ∨
        Passes optMSS ([2, 4, 5, 0xB4].take (optionAreaLen 6)) :=
  getOptionAddr_sound_iff 6 optMSS (by decide)

/-- A length byte of 0. -/
theorem getOptionAddr_unsound :
    optionAreaLen 6 ≤ ([2, 0, 0, 0] : Bytes).length ∧
      ¬ ScanSound optSACK [2, 0, 0, 0] (optionAreaLen 6) := by
  refine ⟨by decide, fun h => h.terminates ?_⟩
  decide

/-! ## Areas that differ within the options of one kind -/

/-- Two areas that are the same but for what the options of one kind hold. -/
def SameBut (option : U8) (area area' : Bytes) : Prop :=
  List.Forall₂ (fun o o' => o.length = o'.length ∧
    (o = o' ∨ optionKind o = option ∧ optionKind o' = option)) (scanned area).1 (scanned area').1 ∧
  (scanned area).2 = (scanned area').2

theorem SameBut.refl (option : U8) (area : Bytes) : SameBut option area area :=
  ⟨List.forall₂_same.mpr fun _ _ => ⟨rfl, .inl rfl⟩, rfl⟩

theorem SameBut.of_none {area' : Bytes} (h : SameBut option area area')
    (hnone : optionAt 1 area = none) : area' = area := by
  have hrow := h.1
  have hend := h.2
  rw [scanned_of_none hnone] at hrow hend
  cases hnone' : optionAt 1 area' with
  | none =>
    rw [scanned_of_none hnone'] at hend
    exact hend.symm
  | some r =>
    rw [scanned_of_some hnone'] at hrow
    cases hrow

theorem SameBut.of_some {area' : Bytes} (h : SameBut option area area')
    (hsome : optionAt 1 area = some (o, rest)) :
    ∃ o' rest', optionAt 1 area' = some (o', rest') ∧ o.length = o'.length ∧
      (o = o' ∨ optionKind o = option ∧ optionKind o' = option) ∧ SameBut option rest rest' := by
  have hrow := h.1
  have hend := h.2
  rw [scanned_of_some hsome] at hrow hend
  cases hsome' : optionAt 1 area' with
  | none =>
    rw [scanned_of_none hsome'] at hrow
    cases hrow
  | some r =>
    rw [scanned_of_some hsome'] at hrow hend
    cases hrow with
    | cons ho hrest => exact ⟨r.1, r.2, rfl, ho.1, ho.2, hrest, hend⟩

theorem SameBut.length {area' : Bytes} (h : SameBut option area area') :
    area'.length = area.length := by
  induction area using (option_framing Nat.one_pos).induction generalizing area' with
  | none area hnone => rw [h.of_none hnone]
  | some area o rest hsome ih =>
    obtain ⟨o', rest', hsome', hlength, -, hrest⟩ := h.of_some hsome
    rw [optionAt_eq hsome, optionAt_eq hsome', List.length_append, List.length_append, ← hlength,
      ih hrest]

-- A scan for the kind ends in both areas or in none.
theorem SameBut.spins_iff {area' : Bytes} (h : SameBut option area area') {fuel : Nat}
    (hfuel : area.length < fuel) (behind : Bytes) :
    optionLoop option fuel area'.length (area' ++ behind) = .spins ↔
      optionLoop option fuel area.length (area ++ behind) = .spins := by
  induction area using (option_framing Nat.one_pos).induction generalizing area' fuel with
  | none area hnone => rw [h.of_none hnone]
  | some area o rest hsome ih =>
    obtain ⟨o', rest', hsome', -, hkinds, hrest⟩ := h.of_some hsome
    obtain ⟨fuel, rfl⟩ := Nat.exists_eq_succ_of_ne_zero (Nat.ne_of_gt (Nat.zero_lt_of_lt hfuel))
    have hlen := congrArg List.length (optionAt_eq hsome)
    have hpos := optionAt_length Nat.one_pos hsome
    rw [List.length_append] at hlen
    by_cases hkind : optionKind o = option
    · have hkind' : optionKind o' = option := by
        rcases hkinds with rfl | ⟨-, hkind'⟩
        · exact hkind
        · exact hkind'
      obtain ⟨tail, htail, -⟩ := optionKind_of_optionAt Nat.one_pos hsome
      obtain ⟨tail', htail', -⟩ := optionKind_of_optionAt Nat.one_pos hsome'
      rw [htail, htail', hkind, hkind', (optionLoop_hit option fuel tail behind 0).1,
        (optionLoop_hit option fuel tail' behind 0).1]
      exact iff_of_false nofun nofun
    · obtain rfl : o = o' := hkinds.resolve_right fun hboth => hkind hboth.1
      rw [(optionLoop_step hsome hkind fuel behind 0).1,
        (optionLoop_step hsome' hkind fuel behind 0).1]
      exact ih hrest (by omega)

end NetCore
