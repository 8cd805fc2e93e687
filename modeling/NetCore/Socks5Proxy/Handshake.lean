import Mathlib.Data.List.Induction
import NetCore.Socks5Proxy.Outlet

/-!
# The order of the handshake

Greeting, account and connect request are queued once each, in this order, and every state is
entered behind its message.  The one hole is an account that is asked for and not configured.
-/

namespace NetCore

open Cipher

def ProxyPoint.kind : ProxyPoint → Option S5Message
  | .queued (.socks5 kind) _ => some kind
  | _ => none

def kinds (trace : List ProxyPoint) : List S5Message := trace.filterMap ProxyPoint.kind

def S5State.isEnd : S5State → Bool
  | .ended => true
  | .failed => true
  | _ => false

/-- What must be true before the state changes from `old` to `new`. -/
structure Entry (trace : List ProxyPoint) (old new : S5State) : Prop where
  greet : new = .greet → .greet ∈ kinds trace
  verify : new = .verify → .account ∈ kinds trace
  connect : new = .connect → .connect ∈ kinds trace
  /-- The message looked at last is the reply. -/
  trans : new = .trans → old = .connect ∧
    ∃ data, trace.getLast? = some (.handled data) ∧ byteAt data 0 = 5 ∧ byteAt data 1 = 0
  stays : old.isEnd → new.isEnd

def Allowed (trace : List ProxyPoint) : ProxyPoint → Prop
  | .switched old new => Entry trace old new
  | .queued (.socks5 kind) _ => (kinds trace ++ [kind]).Sublist [.greet, .account, .connect]
  | _ => True

def HandshakeOrder (trace : List ProxyPoint) : Prop :=
  ∀ before point after, trace = before ++ point :: after → Allowed before point

theorem HandshakeOrder.snoc {trace : List ProxyPoint} {point : ProxyPoint}
    (h : HandshakeOrder trace) (hpoint : Allowed trace point) :
    HandshakeOrder (trace ++ [point]) := by
  intro before point' after heq
  rcases List.eq_nil_or_concat after with rfl | ⟨after, last, rfl⟩
  · obtain ⟨rfl, hsame⟩ := List.append_inj' heq rfl
    cases hsame
    exact hpoint
  · rw [List.concat_eq_append, ← List.cons_append, ← List.append_assoc] at heq
    obtain ⟨rfl, -⟩ := List.append_inj' heq rfl
    exact h before point' after rfl

-- A point that says nothing about the handshake.
def Neutral : ProxyPoint → Prop
  | .switched _ _ => False
  | .queued (.socks5 _) _ => False
  | _ => True

theorem kinds_append_neutral {trace points : List ProxyPoint} (h : ∀ point ∈ points, Neutral point) :
    kinds (trace ++ points) = kinds trace := by
  have hnone : points.filterMap ProxyPoint.kind = [] := by
    rw [List.filterMap_eq_nil_iff]
    intro point hpoint
    have hneutral := h point hpoint
    match point with
    | .queued .out _ => rfl
    | .wrote _ => rfl
    | .handled _ => rfl
    | .dataBack _ => rfl
  unfold kinds
  rw [List.filterMap_append, hnone, List.append_nil]

theorem HandshakeOrder.append_neutral {trace points : List ProxyPoint} (h : HandshakeOrder trace)
    (hpoints : ∀ point ∈ points, Neutral point) : HandshakeOrder (trace ++ points) := by
  induction points using List.reverseRecOn with
  | nil =>
    rw [List.append_nil]
    exact h
  | append_singleton points point ih =>
    obtain ⟨hbefore, hlast⟩ := List.forall_mem_append.mp hpoints
    have hneutral := hlast point List.mem_cons_self
    rw [← List.append_assoc]
    refine (ih hbefore).snoc ?_
    match point with
    | .queued .out _ => trivial
    | .wrote _ => trivial
    | .handled _ => trivial
    | .dataBack _ => trivial

-- The messages queued, state by state.
def Phase : S5State → List S5Message → Prop
  | .init, sent => sent = []
  | .greet, sent => sent = [.greet]
  | .verify, sent => sent = [.greet, .account]
  | .connect, sent => sent = [.greet, .connect] ∨ sent = [.greet, .account, .connect]
  | _, _ => True

/-! ## Messages -/

namespace Served

open Socks5Proxy

-- A message that fits is what its pieces are.
theorem message_eq {size : Nat} {pieces : List Bytes} (hpos : 1 ≤ size) (hsize : size ≤ 2 ^ 19)
    (h : pieces.flatten.length ≤ size) : message size pieces = pieces.flatten := by
  have hremain : (Segment.new size).remain = size := by
    unfold Segment.remain Segment.capacity Segment.new
    simp only
    rw [if_neg (by omega), List.length_replicate]
    rfl
  unfold message
  rw [Segment.readable_writes (by rw [hremain]; exact h), Segment.readable_new, List.nil_append]

-- The proxy goes on in the same state, and its trace says nothing of the handshake.
structure Steady (p p' : Socks5Proxy) : Prop where
  state : p'.mS5State = p.mS5State
  trace : ∃ points, p'.trace = p.trace ++ points ∧ ∀ point ∈ points, Neutral point

theorem Steady.of_trace {p p' : Socks5Proxy} (state : p'.mS5State = p.mS5State)
    (trace : p'.trace = p.trace) : Steady p p' :=
  ⟨state, [], trace.trans (List.append_nil _).symm, by simp⟩

theorem Steady.of_emit {p : Socks5Proxy} {point : ProxyPoint} (h : Neutral point) :
    Steady p (p.emit point) :=
  ⟨rfl, [point], rfl, List.forall_mem_singleton.mpr h⟩

theorem Steady.of_kept {p p' : Socks5Proxy} (h : Kept p p') : Steady p p' := by
  obtain ⟨points, htrace, hpoints⟩ := h.trace
  refine ⟨h.state, points, htrace, fun point hpoint => ?_⟩
  have hclient := hpoints point hpoint
  match point with
  | .queued .out _ => trivial

theorem Steady.trans {p p' p'' : Socks5Proxy} (h : Steady p p') (h' : Steady p' p'') :
    Steady p p'' where
  state := h'.state.trans h.state
  trace := by
    obtain ⟨points, htrace, hpoints⟩ := h.trace
    obtain ⟨points', htrace', hpoints'⟩ := h'.trace
    refine ⟨points ++ points', ?_, List.forall_mem_append.mpr ⟨hpoints, hpoints'⟩⟩
    rw [htrace', htrace, List.append_assoc]

structure InOrder (p : Socks5Proxy) : Prop where
  order : HandshakeOrder p.trace
  phase : Phase p.mS5State (kinds p.trace)

theorem InOrder.steady {p p' : Socks5Proxy} (h : InOrder p) (hsteady : Steady p p') :
    InOrder p' := by
  obtain ⟨points, htrace, hpoints⟩ := hsteady.trace
  constructor
  · rw [htrace]
    exact h.order.append_neutral hpoints
  · rw [htrace, kinds_append_neutral hpoints, hsteady.state]
    exact h.phase

variable {γ : Type}

-- A message of the handshake is queued, whatever the coders draw.
theorem sendS5_queued (kind : S5Message) {data : Bytes} (w : Served γ) (hne : data ≠ []) :
    (w.sendS5 kind data).1 ≠ 0 ∧ (w.sendS5 kind data).2.mClient = w.mClient ∧
      ∃ p taken, Kept w.proxy p ∧
        (w.sendS5 kind data).2.proxy = p.emit (.queued (.socks5 kind) taken) := by
  have hshare : MAX_PARCEL_SIZE ≤ (BitVec.ofNat 32 SOCKS5_SHARE_BUFFER_SZ).toNat := by decide
  have hout := encrypt_succeeds (w.proxy.draws 0) w.proxy.cipher hne hshare
  have htaken := (encrypt_eq hout).2.2
  have hpos := List.length_pos_iff.mpr hne
  have hmax := maxEncryptSize_eq
  have hcount : (w.proxy.encryptAndQueue (.socks5 kind) data).1 ≠ 0 := by
    unfold encryptAndQueue
    simp only
    rw [if_neg hout]
    show data.length - (encrypt _ _ _ _).origin.length ≠ 0
    rw [htaken, List.length_drop]
    omega
  refine ⟨hcount, rfl, ?_⟩
  rcases encryptAndQueue_cases (.socks5 kind) data w.proxy with ⟨hzero, -⟩ | hqueued
  · exact absurd hzero hcount
  · exact hqueued

-- What queueing a message of the handshake makes of the order.
theorem sendS5_order {kind : S5Message} {data : Bytes} {w : Served γ} (hne : data ≠ [])
    (h : HandshakeOrder w.proxy.trace)
    (hkind : (kinds w.proxy.trace ++ [kind]).Sublist [.greet, .account, .connect]) :
    HandshakeOrder (w.sendS5 kind data).2.proxy.trace ∧
      kinds (w.sendS5 kind data).2.proxy.trace = kinds w.proxy.trace ++ [kind] ∧
      (w.sendS5 kind data).2.proxy.mS5State = w.proxy.mS5State := by
  obtain ⟨-, -, p, taken, hkept, heq⟩ := w.sendS5_queued kind hne
  have hsteady := Steady.of_kept hkept
  obtain ⟨points, htrace, hpoints⟩ := hsteady.trace
  have hkinds : kinds p.trace = kinds w.proxy.trace := by
    rw [htrace, kinds_append_neutral hpoints]
  have hbefore : HandshakeOrder p.trace := by
    rw [htrace]
    exact h.append_neutral hpoints
  rw [heq]
  refine ⟨hbefore.snoc ?_, ?_, hsteady.state⟩
  · show (kinds p.trace ++ [kind]).Sublist _
    rw [hkinds]
    exact hkind
  · show kinds (p.trace ++ [_]) = _
    unfold kinds at hkinds ⊢
    rw [List.filterMap_append, hkinds]
    rfl

theorem greet_ne_nil (methods : Bytes) (h : methods.length ≤ 4) :
    message 64 [[5, BitVec.ofNat 8 methods.length] ++ methods] ≠ [] := by
  rw [message_eq (by omega) (by omega)
    (by simp only [List.flatten_cons, List.flatten_nil, List.append_nil, List.length_append,
          List.length_cons, List.length_nil]
        omega)]
  simp

theorem sendS5Greet_order {w : Served γ} (h : HandshakeOrder w.proxy.trace)
    (hkinds : kinds w.proxy.trace = []) :
    HandshakeOrder w.sendS5Greet.2.proxy.trace ∧ kinds w.sendS5Greet.2.proxy.trace = [.greet] ∧
      w.sendS5Greet.2.proxy.mS5State = w.proxy.mS5State := by
  have hsublist : (kinds w.proxy.trace ++ [S5Message.greet]).Sublist [.greet, .account, .connect] := by
    rw [hkinds]
    decide
  have hmethods : (getS5VerifyMethods w.proxy.settings 4).length ≤ 4 := List.length_take_le _ _
  have horder := sendS5_order (greet_ne_nil _ hmethods) h hsublist
  rw [hkinds] at horder
  exact horder

theorem sendS5Connect_order {w : Served γ} (h : HandshakeOrder w.proxy.trace)
    (hkind : (kinds w.proxy.trace ++ [S5Message.connect]).Sublist [.greet, .account, .connect]) :
    HandshakeOrder w.sendS5Connect.2.proxy.trace ∧
      kinds w.sendS5Connect.2.proxy.trace = kinds w.proxy.trace ++ [.connect] ∧
      w.sendS5Connect.2.proxy.mS5State = w.proxy.mS5State := by
  refine sendS5_order ?_ h hkind
  have htake (n : Nat) : (w.proxy.mDestAddr.take n).length ≤ n := List.length_take_le _ _
  have hfour := htake 4
  have hsixteen := htake 16
  by_cases hver : w.proxy.mDestIPVer = 4
  · rw [if_pos hver, message_eq (by omega) (by omega)
      (by simp only [List.flatten_cons, List.flatten_nil, List.flatten_append, List.append_nil,
            List.length_append, List.length_cons, List.length_nil, length_leBytes16]
          omega)]
    simp
  · rw [if_neg hver, message_eq (by omega) (by omega)
      (by simp only [List.flatten_cons, List.flatten_nil, List.flatten_append, List.append_nil,
            List.length_append, List.length_cons, List.length_nil, length_leBytes16]
          omega)]
    simp

-- What `sendS5Account` writes is never empty.
theorem account_ne_nil (user password : Bytes) :
    message ((BitVec.ofNat 8 user.length).toNat + (BitVec.ofNat 8 password.length).toNat + 10)
      [[0x05], [BitVec.ofNat 8 user.length], user.take (BitVec.ofNat 8 user.length).toNat,
        [BitVec.ofNat 8 password.length],
        password.take (BitVec.ofNat 8 password.length).toNat] ≠ [] := by
  have huserLt := (BitVec.ofNat 8 user.length).isLt
  have hpasswordLt := (BitVec.ofNat 8 password.length).isLt
  have huserLe := List.length_take_le (BitVec.ofNat 8 user.length).toNat user
  have hpasswordLe := List.length_take_le (BitVec.ofNat 8 password.length).toNat password
  rw [message_eq (by omega) (by omega)
    (by simp only [List.flatten_cons, List.flatten_nil, List.append_nil, List.length_append,
          List.length_cons, List.length_nil]
        omega)]
  simp

theorem sendS5Account_order {w : Served γ} {user password : Bytes}
    (huser : w.proxy.settings.username = some user)
    (hpassword : w.proxy.settings.password = some password) (h : HandshakeOrder w.proxy.trace)
    (hkind : (kinds w.proxy.trace ++ [S5Message.account]).Sublist [.greet, .account, .connect]) :
    w.sendS5Account.1 ≠ 0 ∧ HandshakeOrder w.sendS5Account.2.proxy.trace ∧
      kinds w.sendS5Account.2.proxy.trace = kinds w.proxy.trace ++ [.account] ∧
      w.sendS5Account.2.proxy.mS5State = w.proxy.mS5State := by
  have hne := account_ne_nil user password
  unfold sendS5Account
  rw [huser, hpassword]
  exact ⟨(w.sendS5_queued .account hne).1, sendS5_order hne h hkind⟩

variable [ITunnelClient γ Socks5Proxy]

omit [ITunnelClient γ Socks5Proxy] in
theorem steady_callBack {w : Served γ} {f : γ → Socks5Proxy → γ × Socks5Proxy}
    (h : ∀ c p, ITunnel.Calls p (f c p).2) : Steady w.proxy (w.callBack f).proxy :=
  .of_kept (kept_of_calls (h w.mClient w.proxy))

theorem steady_passBack (data : Bytes) (w : Served γ) :
    Steady w.proxy (w.passBack data).proxy := by
  have hnoted : Steady w.proxy (w.onProxy fun p =>
      .emit (.dataBack data)
        { p with mPayloadDataBack := p.mPayloadDataBack + BitVec.ofNat 32 data.length }).proxy :=
    ⟨rfl, [.dataBack data], rfl, List.forall_mem_singleton.mpr trivial⟩
  exact hnoted.trans (steady_callBack (ITunnelClient.dataBack_calls data))

-- Entering a state behind its message.
theorem switchS5State_inOrder {w : Served γ} {state : S5State}
    (horder : HandshakeOrder w.proxy.trace)
    (hentry : w.proxy.mS5State ≠ state → Entry w.proxy.trace w.proxy.mS5State state)
    (hphase : Phase state (kinds w.proxy.trace)) : InOrder (w.switchS5State state).proxy := by
  unfold switchS5State
  split
  next hsame => exact ⟨horder, hsame ▸ hphase⟩
  next hnew =>
    have hswitched : InOrder (w.onProxy fun p =>
        .emit (.switched p.mS5State state) { p with mS5State := state }).proxy := by
      refine ⟨horder.snoc (hentry hnew), ?_⟩
      show Phase state (kinds (w.proxy.trace ++ [.switched w.proxy.mS5State state]))
      unfold kinds
      rw [List.filterMap_append]
      exact (List.append_nil (kinds w.proxy.trace)).symm ▸ hphase
    have hend : InOrder (((w.onProxy fun p =>
        .emit (.switched p.mS5State state) { p with mS5State := state }).callBack
          (ITunnelClient.onTunnelDisconnected 0)).onProxy .destroyTunnel).proxy :=
      hswitched.steady ((steady_callBack (ITunnelClient.disconnected_calls 0)).trans
        (.of_kept (kept_destroyTunnel _)))
    simp only
    cases state with
    | trans => exact hswitched.steady (steady_callBack ITunnelClient.writable_calls)
    | failed => exact hend
    | ended => exact hend
    | init => exact hswitched
    | greet => exact hswitched
    | verify => exact hswitched
    | connect => exact hswitched

theorem switchS5State_end {w : Served γ} {state : S5State} (h : InOrder w.proxy)
    (hend : state = .ended ∨ state = .failed) : InOrder (w.switchS5State state).proxy := by
  rcases hend with rfl | rfl
  all_goals
    refine switchS5State_inOrder h.order (fun _ => ?_) trivial
    exact ⟨by simp, by simp, by simp, by simp, fun _ => rfl⟩

-- Behind the connect request.
theorem sendS5Connect_inOrder {w : Served γ} (h : InOrder w.proxy)
    (hstate : w.proxy.mS5State = .greet ∨ w.proxy.mS5State = .verify) :
    InOrder (w.sendS5Connect.2.switchS5State .connect).proxy := by
  have hphase := h.phase
  have hkinds : kinds w.proxy.trace = [.greet] ∨ kinds w.proxy.trace = [.greet, .account] := by
    rcases hstate with hstate | hstate <;> rw [hstate] at hphase
    · exact .inl hphase
    · exact .inr hphase
  have hsublist : (kinds w.proxy.trace ++ [S5Message.connect]).Sublist
      [.greet, .account, .connect] := by
    rcases hkinds with hkinds | hkinds <;> rw [hkinds] <;> decide
  obtain ⟨horder, hsent, hsame⟩ := sendS5Connect_order h.order hsublist
  have hnotEnd : w.proxy.mS5State.isEnd = false := by
    rcases hstate with hstate | hstate <;> rw [hstate] <;> rfl
  refine switchS5State_inOrder horder (fun _ => ⟨by simp, by simp, fun _ => ?_, by simp, ?_⟩) ?_
  · rw [hsent]
    exact List.mem_append_right _ List.mem_cons_self
  · rw [hsame, hnotEnd]
    simp
  · rw [hsent]
    rcases hkinds with hkinds | hkinds <;> rw [hkinds]
    · exact .inl rfl
    · exact .inr rfl

def AsksAccount (settings : Settings) (data : Bytes) : Prop :=
  data.length = 2 ∧ byteAt data 0 = 5 ∧ byteAt data 1 = VERIFY_ACCOUNT ∧
    containS5Verify settings.verifyMethod VERIFY_ACCOUNT

/-- Who asks for the account when the greeting is answered gets it. -/
def AccountKnown (w : Served γ) (data : Bytes) : Prop :=
  w.proxy.mS5State = .greet → AsksAccount w.proxy.settings data →
    w.proxy.settings.username ≠ none ∧ w.proxy.settings.password ≠ none

theorem handleS5GreetBack_inOrder {w : Served γ} {data : Bytes} (h : InOrder w.proxy)
    (hstate : w.proxy.mS5State = .greet) (hknown : AccountKnown w data) :
    InOrder (w.handleS5GreetBack data).proxy := by
  have hkinds := h.phase
  rw [hstate] at hkinds
  unfold handleS5GreetBack
  split
  · exact switchS5State_end h (.inr rfl)
  next hlen =>
    split
    next hgood =>
      split
      · exact sendS5Connect_inOrder h (.inl hstate)
      · split
        next haccount =>
          obtain ⟨huser, hpassword⟩ := hknown hstate
            ⟨Decidable.of_not_not hlen, hgood.1, haccount, haccount ▸ hgood.2⟩
          obtain ⟨user, huser⟩ := Option.ne_none_iff_exists'.mp huser
          obtain ⟨password, hpassword⟩ := Option.ne_none_iff_exists'.mp hpassword
          have hsublist : (kinds w.proxy.trace ++ [S5Message.account]).Sublist
              [.greet, .account, .connect] := by
            rw [hkinds]
            decide
          obtain ⟨hsent, horder, hafter, hsame⟩ :=
            sendS5Account_order huser hpassword h.order hsublist
          rw [hkinds] at hafter
          split
          next w' hpair =>
            rw [hpair] at hsent
            exact absurd rfl hsent
          next r w' _ hpair =>
            rw [hpair] at horder hafter hsame
            refine switchS5State_inOrder horder
              (fun _ => ⟨by simp, fun _ => ?_, by simp, by simp, ?_⟩) hafter
            · rw [hafter]
              exact List.mem_cons_of_mem _ List.mem_cons_self
            · rw [hsame, hstate]
              simp [S5State.isEnd]
        next => exact h
    next => exact switchS5State_end h (.inr rfl)

theorem handleS5VerifyBack_inOrder {w : Served γ} (data : Bytes) (h : InOrder w.proxy)
    (hstate : w.proxy.mS5State = .verify) : InOrder (w.handleS5VerifyBack data).proxy := by
  unfold handleS5VerifyBack
  split
  · exact switchS5State_end h (.inr rfl)
  · split
    · exact switchS5State_end h (.inr rfl)
    · split
      · exact switchS5State_end h (.inr rfl)
      · exact sendS5Connect_inOrder h (.inr hstate)

theorem handleS5ConnBack_inOrder {w : Served γ} {data : Bytes} (h : InOrder w.proxy)
    (hstate : w.proxy.mS5State = .connect)
    (hlast : w.proxy.trace.getLast? = some (.handled data)) :
    InOrder (w.handleS5ConnBack data).proxy := by
  unfold handleS5ConnBack
  split
  · exact switchS5State_end h (.inr rfl)
  · split
    · exact switchS5State_end h (.inr rfl)
    next hversion =>
      split
      · exact switchS5State_end h (.inr rfl)
      next hstatus =>
        refine switchS5State_inOrder h.order (fun _ => ⟨by simp, by simp, by simp, fun _ => ?_, ?_⟩)
          trivial
        · exact ⟨hstate, data, hlast, Decidable.of_not_not hversion, Decidable.of_not_not hstatus⟩
        · rw [hstate]
          simp [S5State.isEnd]

-- One message.
theorem handle_inOrder {w : Served γ} {data : Bytes} (h : InOrder w.proxy)
    (hknown : AccountKnown w data) : InOrder (w.handle data).proxy := by
  have hhandled : InOrder (w.onProxy (.emit (.handled data))).proxy := h.steady (.of_emit trivial)
  have hlast : (w.onProxy (.emit (.handled data))).proxy.trace.getLast? = some (.handled data) :=
    List.getLast?_concat
  unfold handle
  simp only
  split
  next => exact hhandled
  next hstate => exact handleS5GreetBack_inOrder hhandled hstate hknown
  next hstate => exact handleS5VerifyBack_inOrder data hhandled hstate
  next hstate => exact handleS5ConnBack_inOrder hhandled hstate hlast
  next => exact hhandled.steady (steady_passBack data _)
  next => exact switchS5State_end hhandled (.inr rfl)
  next => exact switchS5State_end hhandled (.inr rfl)

/-! ## Runs -/

/-- Every message the loop of `onReadable` looks at meets `cond`, judged on the state before. -/
def Handling (cond : Served γ → Bytes → Prop) : Nat → Served γ → Prop
  | 0, _ => True
  | fuel + 1, w =>
      match w.decryptBuffered with
      | .next data w => cond w data ∧ Handling cond fuel (w.handle data)
      | _ => True

def ReadHandling (cond : Served γ → Bytes → Prop) (w : Served γ) : ReadOutcome → Prop
  | .error _ => True
  | .received data =>
      let w := (w.noteConnected.onProxy (makeRoom data.length)).buffer data
      Handling cond (w.proxy.mDecryptBuffer.val.size + 1) w

omit [ITunnelClient γ Socks5Proxy] in
theorem steady_decryptBuffered (w : Served γ) :
    match w.decryptBuffered with
    | .fault => True
    | .done w' => Steady w.proxy w'.proxy
    | .next _ w' => Steady w.proxy w'.proxy := by
  have hcipher (c : Cipher) : Steady w.proxy (w.onProxy fun p => { p with cipher := c }).proxy :=
    .of_trace rfl rfl
  have hconsumed (w : Served γ) (n : Nat) : Steady w.proxy
      (w.onProxy fun p => { p with mDecryptBuffer := p.mDecryptBuffer.consume n }).proxy :=
    .of_trace rfl rfl
  unfold decryptBuffered
  simp only
  split
  next h =>
    trivial
  next w' h =>
    split at h
    · split at h
      · cases h
        exact hcipher _
      · cases h
    · cases h
  next data w' h =>
    split at h
    · split at h
      · cases h
      · cases h
        exact (hcipher _).trans (hconsumed _ _)
    · cases h

theorem receiveLoop_inOrder {fuel : Nat} {w w' : Served γ} (h : InOrder w.proxy)
    (hknown : Handling AccountKnown fuel w) (hloop : receiveLoop fuel w = some w') :
    InOrder w'.proxy := by
  induction fuel generalizing w with
  | zero => cases hloop
  | succ fuel ih =>
    have hround := steady_decryptBuffered w
    unfold receiveLoop at hloop
    unfold Handling at hknown
    cases hdecrypt : w.decryptBuffered with
    | fault =>
      rw [hdecrypt] at hloop
      cases hloop
    | done next =>
      rw [hdecrypt] at hloop hround
      cases hloop
      exact h.steady hround
    | next data next =>
      rw [hdecrypt] at hloop hround hknown
      exact ih (handle_inOrder (h.steady hround) hknown.1) hknown.2 hloop

omit [ITunnelClient γ Socks5Proxy] in
theorem steady_makeRoom (length : Nat) (p : Socks5Proxy) : Steady p (makeRoom length p) := by
  unfold makeRoom
  split
  · exact .of_trace rfl rfl
  · exact .of_trace rfl rfl

theorem steady_noteConnected (w : Served γ) : Steady w.proxy w.noteConnected.proxy := by
  unfold noteConnected
  split <;> exact .of_trace rfl rfl

theorem onReadable_inOrder {outcome : ReadOutcome} {w w' : Served γ} (h : InOrder w.proxy)
    (hknown : ReadHandling AccountKnown w outcome) (hread : w.onReadable outcome = some w') :
    InOrder w'.proxy := by
  cases outcome with
  | error errno =>
    rw [onReadable] at hread
    split at hread <;> cases hread
    · exact switchS5State_end h (.inr rfl)
    · exact h
  | received data =>
    have hroom : InOrder (w.noteConnected.onProxy (makeRoom data.length)).proxy :=
      h.steady ((steady_noteConnected w).trans (steady_makeRoom _ _))
    have hbuffered : InOrder ((w.noteConnected.onProxy (makeRoom data.length)).buffer data).proxy :=
      hroom.steady (.of_trace rfl rfl)
    rw [onReadable] at hread
    split at hread
    · cases hread
      exact switchS5State_end h (.inl rfl)
    · simp only at hread
      split at hread
      · cases hread
        exact switchS5State_end hroom (.inr rfl)
      · exact receiveLoop_inOrder hbuffered hknown hread

omit [ITunnelClient γ Socks5Proxy] in
theorem steady_countSent (sent : Bytes) (p : Socks5Proxy) : Steady p (countSent sent p) := by
  unfold countSent closeWrite
  split
  · exact .of_trace rfl rfl
  · exact .of_kept (kept_withReactor _ _)

omit [ITunnelClient γ Socks5Proxy] in
theorem steady_sendOut (p : Socks5Proxy) : Steady p p.sendOut := by
  obtain ⟨sends, heq⟩ := sendLoop_proxy (sendFuel p.mOutQueue) p.mOutQueue p
  have hwrote (sent : Bytes) (queue : List Segment) :
      Steady p (.emit (.wrote sent) { p with sends := sends, mOutQueue := queue }) :=
    ⟨rfl, [.wrote sent], rfl, List.forall_mem_singleton.mpr trivial⟩
  unfold sendOut
  simp only [heq]
  exact (hwrote _ _).trans (steady_countSent _ _)

omit [ITunnelClient γ Socks5Proxy] in
theorem steady_sendSocks5 (p : Socks5Proxy) : Steady p p.sendSocks5 := by
  obtain ⟨sends, heq⟩ := sendLoop_proxy (sendFuel p.mSocks5) p.mSocks5 p
  have hwrote (sent : Bytes) (queue : List Segment) :
      Steady p (.emit (.wrote sent) { p with sends := sends, mSocks5 := queue }) :=
    ⟨rfl, [.wrote sent], rfl, List.forall_mem_singleton.mpr trivial⟩
  unfold sendSocks5
  simp only [heq]
  exact (hwrote _ _).trans (steady_countSent _ _)

theorem onWritable_inOrder {w : Served γ} (h : InOrder w.proxy) : InOrder w.onWritable.proxy := by
  have hconnected : InOrder w.noteConnected.proxy := h.steady (steady_noteConnected w)
  have hclose (p : Socks5Proxy) : Steady p p.closeWrite := .of_kept (kept_withReactor _ _)
  have hidle : InOrder (if w.noteConnected.proxy.mSocks5 = [] then
      w.noteConnected.onProxy .closeWrite else w.noteConnected.onProxy .sendSocks5).proxy := by
    split
    · exact hconnected.steady (hclose _)
    · exact hconnected.steady (steady_sendSocks5 _)
  unfold onWritable
  simp only
  split
  next =>
    split
    · exact hconnected.steady (steady_sendOut _)
    · have hcalled := hconnected.steady (.of_kept (kept_of_calls
        (ITunnelClient.writable_calls w.noteConnected.mClient w.noteConnected.proxy)))
      rcases hpair : ITunnelClient.onTunnelWritable w.noteConnected.mClient w.noteConnected.proxy
        with ⟨s, c, p⟩
      rw [hpair] at hcalled
      simp only
      split
      · exact hcalled.steady (hclose _)
      · exact hcalled
  next hstate =>
    have hkinds := hconnected.phase
    rw [hstate] at hkinds
    obtain ⟨horder, hsent, hsame⟩ := sendS5Greet_order hconnected.order hkinds
    refine switchS5State_inOrder horder
      (fun _ => ⟨fun _ => ?_, by simp, by simp, by simp, ?_⟩) hsent
    · rw [hsent]
      exact List.mem_cons_self
    · rw [hsame, hstate]
      simp [S5State.isEnd]
  next => exact hidle

def Credentials (w : Served γ) : Event γ → Prop
  | .readable outcome => ReadHandling AccountKnown w outcome
  | _ => True

theorem step_inOrder {w w' : Served γ} {e : Event γ} (h : InOrder w.proxy) (hcond : Credentials w e)
    (hstep : w.step e = some w') : InOrder w'.proxy := by
  cases e with
  | readable outcome => exact onReadable_inOrder h hcond hstep
  | writable =>
    cases hstep
    exact onWritable_inOrder h
  | exception error =>
    cases hstep
    exact switchS5State_end h (.inl rfl)
  | client c =>
    cases hstep
    exact h.steady (steady_callBack c.calls)
  | environment settings cipher =>
    cases hstep
    exact h.steady (.of_trace rfl rfl)

structure Born (p : Socks5Proxy) : Prop where
  state : p.mS5State = .init
  trace : p.trace = []

theorem Born.inOrder {p : Socks5Proxy} (h : Born p) : InOrder p := by
  constructor
  · intro before point after heq
    rw [h.trace] at heq
    exact absurd heq.symm (by simp)
  · rw [h.trace, h.state]
    rfl

/-- The messages of the handshake are queued once each and in order, and every state is entered
    behind its message, as long as an account that is asked for is configured. -/
theorem handshake_inOrder {w w' : Served γ} {events : List (Event γ)} (hborn : Born w.proxy)
    (hcond : Lib.Along step Credentials w events) (hrun : Lib.run step w events = some w') :
    HandshakeOrder w'.proxy.trace :=
  (hcond.invariant (fun w => InOrder w.proxy) (fun _ _ _ h hstep hnext => step_inOrder h hstep hnext)
    hborn.inOrder hrun).order

instance (settings : Settings) (data : Bytes) : Decidable (AsksAccount settings data) :=
  inferInstanceAs (Decidable (_ ∧ _ ∧ _ ∧ _ = true))

instance (w : Served γ) (data : Bytes) : Decidable (AccountKnown w data) :=
  inferInstanceAs (Decidable (_ → _ → _))

instance Handling.decidable (cond : Served γ → Bytes → Prop) [∀ w data, Decidable (cond w data)] :
    ∀ fuel w, Decidable (Handling cond fuel w)
  | 0, _ => inferInstanceAs (Decidable True)
  | fuel + 1, w =>
      haveI : Decidable (match w.decryptBuffered with
          | .next data w => cond w data ∧ Handling cond fuel (w.handle data)
          | _ => True) :=
        match w.decryptBuffered with
        | .next data w =>
            haveI := Handling.decidable cond fuel (w.handle data)
            inferInstanceAs (Decidable (_ ∧ _))
        | .fault => inferInstanceAs (Decidable True)
        | .done _ => inferInstanceAs (Decidable True)
      this

instance (w : Served γ) : ∀ e : Event γ, Decidable (Credentials w e)
  | .readable (.error _) => inferInstanceAs (Decidable True)
  | .readable (.received _) => inferInstanceAs (Decidable (Handling _ _ _))
  | .writable | .exception _ | .client _ | .environment _ _ => inferInstanceAs (Decidable True)

-- The greeting offers the account, and there is one.
def sampleNamed : Served Unit :=
  ⟨(), { sampleProxy .init with settings := ⟨2, some [0x75], some [0x70]⟩ }⟩

def sampleSend (data : Bytes) : ClientCall Unit where
  call c p :=
    match ITunnel.sendData p data false with
    | .sent _ p' => (c, p')
    | .failed _ p' => (c, p')
  calls c p := by
    split
    next heq => exact .sent .refl heq
    next heq => exact .failed .refl heq

-- The server asks for the account, takes it and connects; a payload of two bytes is queued and
-- written.
def sampleReplies : List (Event Unit) :=
  [.writable, .readable (.received (sampleParcel [5, 2])),
    .readable (.received (sampleParcel [5, 0])),
    .readable (.received (sampleParcel [5, 0, 0, 1])), .client (sampleSend [0x61, 0x62]), .writable]

theorem sampleReplies_run :
    Lib.Along step Credentials sampleNamed sampleReplies ∧
      ∃ w', Lib.run step sampleNamed sampleReplies = some w' ∧ w'.proxy.mS5State = .trans ∧
        kinds w'.proxy.trace = [.greet, .account, .connect] ∧ w'.proxy.mBufferedSize = 48 := by
  have hcomputed : Lib.Along step Credentials sampleNamed sampleReplies ∧
      (Lib.run step sampleNamed sampleReplies).any fun w' =>
        decide (w'.proxy.mS5State = .trans ∧
          kinds w'.proxy.trace = [.greet, .account, .connect] ∧ w'.proxy.mBufferedSize = 48) := by
    decide +kernel
  exact ⟨hcomputed.1, Lib.run_reaches hcomputed.2⟩

theorem handshake_inOrder_sample :
    ∃ w', Lib.run step sampleNamed sampleReplies = some w' ∧ w'.proxy.mS5State = .trans ∧
      kinds w'.proxy.trace = [.greet, .account, .connect] ∧ HandshakeOrder w'.proxy.trace := by
  obtain ⟨hcond, w', hrun, hstate, hkinds, -⟩ := sampleReplies_run
  exact ⟨w', hrun, hstate, hkinds, handshake_inOrder ⟨rfl, rfl⟩ hcond hrun⟩

-- The greeting offers the account, but there is none.
def sampleNameless : Served Unit :=
  ⟨(), { sampleProxy .init with settings := ⟨2, none, none⟩ }⟩

def sampleAsk : Sealed := sampleSealed [5, 2] (by decide) (by decide)

-- Behind the greeting.
theorem sampleNameless_greets :
    (∃ d, sampleNameless.onWritable.Stands .greet [] d) ∧
      kinds sampleNameless.onWritable.proxy.trace = [.greet] ∧
      sampleNameless.onWritable.proxy.settings = ⟨2, none, none⟩ := by
  have hborn : Born sampleNameless.proxy := ⟨rfl, rfl⟩
  have hmethods : (getS5VerifyMethods sampleNameless.proxy.settings 4).length ≤ 4 :=
    List.length_take_le _ _
  obtain ⟨-, -, p, taken, hkept, heq⟩ :=
    sampleNameless.sendS5_queued .greet (greet_ne_nil _ hmethods)
  have hgreet : sampleNameless.sendS5Greet.2.proxy = p.emit (.queued (.socks5 .greet) taken) := heq
  have hstate : sampleNameless.sendS5Greet.2.proxy.mS5State = .init := by
    rw [hgreet]
    exact hkept.state
  have hwritable : sampleNameless.onWritable.proxy =
      .emit (.switched .init .greet)
        { p.emit (.queued (.socks5 .greet) taken) with mS5State := .greet } := by
    show (sampleNameless.sendS5Greet.2.switchS5State .greet).proxy = _
    unfold switchS5State
    rw [if_neg (by rw [hstate]; simp)]
    show Socks5Proxy.emit _ _ = _
    rw [hstate, hgreet]
  have hphase := (onWritable_inOrder hborn.inOrder).phase
  rw [hwritable] at hphase ⊢
  have hbuffer := congrArg (fun buffer => buffer.val.readable) hkept.buffer
  refine ⟨⟨_, ?_, ?_, rfl⟩, hphase, hkept.settings⟩
  · rw [hwritable]
    rfl
  · rw [hwritable]
    exact hbuffer.trans (Segment.readable_new _)

-- Behind the reply.
theorem sampleNameless_asked {w : Served Unit} {b d : Bytes} (h : w.Stands .greet b d)
    (hsettings : w.proxy.settings = ⟨2, none, none⟩) :
    (w.handle [5, 2]).Stands .verify b d ∧
      (w.handle [5, 2]).proxy.trace =
        w.proxy.trace ++ [.handled [5, 2]] ++ [.switched .greet .verify] := by
  have hhandled := h.handled [5, 2]
  have haccount : (w.onProxy (.emit (.handled [5, 2]))).sendS5Account =
      (1, w.onProxy (.emit (.handled [5, 2]))) := by
    have husername : (w.onProxy (.emit (.handled [5, 2]))).proxy.settings = ⟨2, none, none⟩ :=
      hsettings
    simp only [sendS5Account, husername]
  have hhandle : w.handle [5, 2] = (w.onProxy (.emit (.handled [5, 2]))).switchS5State .verify := by
    unfold handle
    simp only
    rw [hhandled.state]
    simp only
    unfold handleS5GreetBack
    have hmask : byteAt [5, 2] 0 = 0x05 ∧ containS5Verify
        (w.onProxy (.emit (.handled [5, 2]))).proxy.settings.verifyMethod (byteAt [5, 2] 1) := by
      show byteAt [5, 2] 0 = 0x05 ∧ containS5Verify w.proxy.settings.verifyMethod (byteAt [5, 2] 1)
      rw [hsettings]
      decide
    rw [if_neg (by decide), if_pos hmask, if_neg (by decide), if_pos (by decide), haccount]
    rfl
  obtain ⟨hentered, hswitch⟩ := hhandled.enter (Or.inr (Or.inl rfl)) (by decide)
  rw [hhandle]
  refine ⟨hentered, ?_⟩
  rw [hswitch]
  rfl

/-- The account is asked for, and no account is sent. -/
theorem handshake_outOfOrder :
    ∃ (w w' : Served Unit) (events : List (Event Unit)), Born w.proxy ∧
      Lib.run step w events = some w' ∧ ¬ HandshakeOrder w'.proxy.trace := by
  obtain ⟨⟨d, hgreet⟩, hkinds, hsettings⟩ := sampleNameless_greets
  have hkept := noteConnected_kept sampleNameless.onWritable
  have hsettings' {w : Served Unit} (h : Unmoved sampleNameless.onWritable.noteConnected w) :
      w.proxy.settings = ⟨2, none, none⟩ := h.settings.trans (hkept.settings.trans hsettings)
  obtain ⟨w₁, w₂, hunmoved, hfront, hunmoved', -, hread⟩ := onReadable_sealed sampleAsk hgreet
    fun w h hstands => ⟨.verify, d, (sampleNameless_asked hstands (hsettings' h)).1⟩
  obtain ⟨-, htrace⟩ := sampleNameless_asked hfront (hsettings' hunmoved)
  refine ⟨sampleNameless, w₂, [.writable, .readable (.received sampleAsk.wire)], ⟨rfl, rfl⟩, ?_, ?_⟩
  · have hsecond : sampleNameless.onWritable.step (.readable (.received sampleAsk.wire)) = some w₂ :=
      hread
    exact (Lib.run_cons _ (show sampleNameless.step .writable = some _ from rfl)).trans
      ((Lib.run_cons [] hsecond).trans rfl)
  · intro horder
    have hentry : Entry _ S5State.greet S5State.verify :=
      horder _ (.switched .greet .verify) [] (hunmoved'.trace.trans htrace)
    have haccount := hentry.verify rfl
    have hneutral : ∀ point ∈ [ProxyPoint.handled [5, 2]], Neutral point :=
      List.forall_mem_singleton.mpr trivial
    have hbefore : sampleNameless.onWritable.noteConnected.proxy.trace =
        sampleNameless.onWritable.proxy.trace := by
      unfold noteConnected
      split <;> rfl
    rw [kinds_append_neutral hneutral, hunmoved.trace, hbefore, hkinds] at haccount
    exact absurd haccount (by decide)

end Served

end NetCore
