import NetCore.Socks5Proxy.Wedge

/-!
# Which method is agreed on

`getS5VerifyMethods` leaves the filler 0xFF out of the greeting, and `containS5Verify` does not:
a reply with the filler, or with a method of the setting that is not implemented, is accepted, and
nothing follows.
-/

namespace NetCore

namespace Served

open Socks5Proxy

/-- The reply agrees on a method of the greeting. -/
def Agrees (settings : Settings) (data : Bytes) (m : U8) : Prop :=
  data = [5, m] ∧ m ∈ getS5VerifyMethods settings 4

/-- Where a reply to the greeting has to lead. -/
structure Negotiated (settings : Settings) (data : Bytes) (state : S5State) : Prop where
  connect : state = .connect ↔ Agrees settings data VERIFY_NONE
  verify : state = .verify ↔ Agrees settings data VERIFY_ACCOUNT
  failed : state = .failed ↔
    ¬ (Agrees settings data VERIFY_NONE ∨ Agrees settings data VERIFY_ACCOUNT)

/-- The reply is in the setting, but not implemented. -/
def Unimplemented (settings : Settings) (data : Bytes) : Prop :=
  ∃ m, data = [5, m] ∧ containS5Verify settings.verifyMethod m ∧ m ≠ VERIFY_NONE ∧
    m ≠ VERIFY_ACCOUNT

-- What the greeting offers: the setting without its fillers.
theorem mem_getS5VerifyMethods {settings : Settings} {m : U8} :
    m ∈ getS5VerifyMethods settings 4 ↔
      containS5Verify settings.verifyMethod m ∧ m ≠ 0xFF#8 := by
  have hlength : ((verifyBytes settings.verifyMethod).filter fun m => m != 0xFF#8).length ≤ 4 :=
    List.length_filter_le _ _
  unfold getS5VerifyMethods containS5Verify
  rw [List.take_of_length_le hlength, List.mem_filter, List.contains_iff_mem, bne_iff_ne]

-- Both loops agree on the methods that are implemented.
theorem agrees_iff {settings : Settings} {data : Bytes} {m : U8} (h : m ≠ 0xFF#8) :
    Agrees settings data m ↔ data = [5, m] ∧ containS5Verify settings.verifyMethod m := by
  unfold Agrees
  rw [mem_getS5VerifyMethods]
  simp [h]

theorem Agrees.unique {settings : Settings} {data : Bytes} {m m' : U8} (h : Agrees settings data m)
    (h' : Agrees settings data m') : m = m' := by
  have heq := h.1.symm.trans h'.1
  cases heq
  rfl

theorem Unimplemented.not_agrees {settings : Settings} {data : Bytes}
    (h : Unimplemented settings data) :
    ¬ (Agrees settings data VERIFY_NONE ∨ Agrees settings data VERIFY_ACCOUNT) := by
  obtain ⟨m, hdata, -, hnone, haccount⟩ := h
  rintro (⟨hagrees, -⟩ | ⟨hagrees, -⟩)
  · rw [hdata] at hagrees
    cases hagrees
    exact hnone rfl
  · rw [hdata] at hagrees
    cases hagrees
    exact haccount rfl

-- Two bytes.
theorem eq_pair {data : Bytes} (h : data.length = 2) : data = [byteAt data 0, byteAt data 1] := by
  match data with
  | [_, _] => rfl

variable {γ : Type} {w : Served γ}

-- An account is sent, or 1 returned for none.
theorem sendS5Account_ne_zero (w : Served γ) : w.sendS5Account.1 ≠ 0 := by
  unfold sendS5Account
  split
  next user password _ _ => exact (w.sendS5_queued .account (account_ne_nil user password)).1
  next => exact Nat.one_ne_zero

variable [ITunnelClient γ Socks5Proxy]

theorem switchS5State_from_greet {state : S5State} (h : w.proxy.mS5State = .greet) :
    (w.switchS5State state).proxy.mS5State = state := by
  apply (switchS5State_onward _).2
  rw [h]
  exact nofun

-- Everything `handleS5GreetBack` can do.
theorem handleS5GreetBack_cases (data : Bytes) (h : w.proxy.mS5State = .greet) :
    Unimplemented w.proxy.settings data ∧ w.handleS5GreetBack data = w ∨
      Agrees w.proxy.settings data VERIFY_NONE ∧
        (w.handleS5GreetBack data).proxy.mS5State = .connect ∨
      Agrees w.proxy.settings data VERIFY_ACCOUNT ∧
        (w.handleS5GreetBack data).proxy.mS5State = .verify ∨
      (∀ m, data = [5, m] → containS5Verify w.proxy.settings.verifyMethod m = false) ∧
        (w.handleS5GreetBack data).proxy.mS5State = .failed := by
  have hnone : VERIFY_NONE ≠ 0xFF#8 := by decide
  have haccount : VERIFY_ACCOUNT ≠ 0xFF#8 := by decide
  rw [agrees_iff hnone, agrees_iff haccount]
  unfold handleS5GreetBack
  split
  next hlength =>
    refine .inr (.inr (.inr ⟨fun m hdata => ?_, switchS5State_from_greet h⟩))
    rw [hdata] at hlength
    exact absurd rfl hlength
  next hlength =>
    have hpair := eq_pair (not_not.mp hlength)
    split
    next haccepted =>
      obtain ⟨hversion, hcontains⟩ := haccepted
      rw [hversion] at hpair
      split
      next hm =>
        rw [hm] at hpair hcontains
        refine .inr (.inl ⟨⟨hpair, hcontains⟩, ?_⟩)
        apply switchS5State_from_greet
        rw [← h]
        exact (sendS5_onward _ _ w).2
      next hnotNone =>
        split
        next hm =>
          rw [hm] at hpair hcontains
          have hsent := sendS5Account_ne_zero w
          have hstate := (sendS5Account_onward w).2
          refine .inr (.inr (.inl ⟨⟨hpair, hcontains⟩, ?_⟩))
          split
          next heq =>
            rw [heq] at hsent
            exact absurd rfl hsent
          next heq =>
            rw [heq] at hstate
            exact switchS5State_from_greet (hstate.trans h)
        next hnotAccount =>
          exact .inl ⟨⟨byteAt data 1, hpair, hcontains, hnotNone, hnotAccount⟩, rfl⟩
    next hrefused =>
      refine .inr (.inr (.inr ⟨fun m hdata => ?_, switchS5State_from_greet h⟩))
      subst hdata
      exact Bool.eq_false_iff.mpr fun hcontains => hrefused ⟨rfl, hcontains⟩

/-- The reply is answered as it should be, unless it chooses what is not implemented. -/
theorem negotiated_iff (data : Bytes) (h : w.proxy.mS5State = .greet) :
    Negotiated w.proxy.settings data (w.handleS5GreetBack data).proxy.mS5State ↔
      ¬ Unimplemented w.proxy.settings data := by
  have hdiffer : VERIFY_NONE ≠ VERIFY_ACCOUNT := by decide
  rcases handleS5GreetBack_cases data h with
    ⟨hstuck, hsame⟩ | ⟨hagrees, hstate⟩ | ⟨hagrees, hstate⟩ | ⟨hrefused, hstate⟩
  · -- the state is still `S_GREET`, where nothing was agreed on
    rw [hsame, h]
    refine iff_of_false (fun hnegotiated => ?_) (not_not.mpr hstuck)
    exact nomatch hnegotiated.failed.mpr hstuck.not_agrees
  · have hother : ¬ Agrees w.proxy.settings data VERIFY_ACCOUNT := fun h' =>
      hdiffer (hagrees.unique h')
    rw [hstate]
    refine iff_of_true ⟨?_, ?_, ?_⟩ fun hstuck => hstuck.not_agrees (.inl hagrees)
    · simp [hagrees]
    · simp [hother]
    · simp [hagrees]
  · have hother : ¬ Agrees w.proxy.settings data VERIFY_NONE := fun h' =>
      hdiffer (h'.unique hagrees)
    rw [hstate]
    refine iff_of_true ⟨?_, ?_, ?_⟩ fun hstuck => hstuck.not_agrees (.inr hagrees)
    · simp [hother]
    · simp [hagrees]
    · simp [hagrees]
  · have hneither (m : U8) : ¬ Agrees w.proxy.settings data m := by
      rintro ⟨hdata, hoffered⟩
      have hcontains := (mem_getS5VerifyMethods.mp hoffered).1
      rw [hrefused m hdata] at hcontains
      cases hcontains
    rw [hstate]
    refine iff_of_true ⟨?_, ?_, ?_⟩ ?_
    · simp [hneither]
    · simp [hneither]
    · simp [hneither]
    · rintro ⟨m, hdata, hcontains, -⟩
      rw [hrefused m hdata] at hcontains
      cases hcontains

-- A proxy whose setting names the account method and three fillers.
def sampleFilled : Served Unit :=
  (sampleServed .greet).onProxy fun p => { p with settings := ⟨0xFFFFFF02, none, none⟩ }

/-- The account method is agreed on. -/
theorem negotiated_sample :
    Negotiated sampleFilled.proxy.settings [5, 2]
      (sampleFilled.handleS5GreetBack [5, 2]).proxy.mS5State := by
  refine (negotiated_iff (w := sampleFilled) [5, 2] rfl).mpr ?_
  rintro ⟨m, hdata, -, -, haccount⟩
  cases hdata
  exact haccount rfl

/-- "No acceptable method" is accepted, and nothing follows. -/
theorem sampleFilled_hangs :
    (sampleFilled.handleS5GreetBack [5, 0xFF]).proxy.mS5State = .greet ∧
      ¬ Negotiated sampleFilled.proxy.settings [5, 0xFF]
        (sampleFilled.handleS5GreetBack [5, 0xFF]).proxy.mS5State := by
  have hstate : (sampleFilled.handleS5GreetBack [5, 0xFF]).proxy.mS5State = .greet := rfl
  refine ⟨hstate, fun hnegotiated => ?_⟩
  have hneither : ¬ (Agrees sampleFilled.proxy.settings [5, 0xFF] VERIFY_NONE ∨
      Agrees sampleFilled.proxy.settings [5, 0xFF] VERIFY_ACCOUNT) := by
    rintro (⟨hdata, -⟩ | ⟨hdata, -⟩) <;> exact absurd hdata (by decide)
  have hfailed := hnegotiated.failed.mpr hneither
  rw [hstate] at hfailed
  cases hfailed

end Served

end NetCore
