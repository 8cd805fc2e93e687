import NetCore.Lib.LengthPrefix
import NetCore.Socks5Proxy.Handshake
import NetCore.Socks5Proxy.Stock

/-!
# What the messages of the handshake carry

The grammar of the three messages as their reader takes it, and what the senders put into it.  A user
name and a password stand behind one byte with their length.
-/

namespace NetCore

open Lib

/-! ## The grammar -/

/-- `{ver, n, n methods}` -/
def decodeGreet : Bytes → Option (U8 × Bytes)
  | [] => none
  | ver :: rest =>
      match takeField rest with
      | some (methods, []) => some (ver, methods)
      | _ => none

/-- `{ver, ulen, user, plen, password}` -/
def decodeAccount : Bytes → Option (U8 × Bytes × Bytes)
  | [] => none
  | ver :: rest =>
      match takeField rest with
      | none => none
      | some (user, rest) =>
          match takeField rest with
          | some (password, []) => some (ver, user, password)
          | _ => none

/-- The port is the number the session keeps, its bytes in the order of the network. -/
structure ConnectRequest where
  cmd : U8
  type : U8
  address : Bytes
  port : U16
deriving DecidableEq

def addressLength (type : U8) : Option Nat :=
  if type = 0x01 then some 4 else if type = 0x04 then some 16 else none

/-- `{5, cmd, 0, type, address, port}` -/
def decodeConnect : Bytes → Option ConnectRequest
  | ver :: cmd :: reserved :: type :: rest =>
      if ver = 0x05 ∧ reserved = 0x00 then
        match addressLength type with
        | none => none
        | some n =>
            match rest.drop n with
            | [low, high] => some ⟨cmd, type, rest.take n, high ++ low⟩
            | _ => none
      else none
  | _ => none

variable {user password : Bytes}

theorem decodeGreet_eq (ver : U8) (methods : Bytes) :
    decodeGreet (ver :: lengthPrefixed methods) =
      some (ver, methods.take (lengthByte methods).toNat) := by
  rw [decodeGreet, takeField_lengthPrefixed]

theorem decodeAccount_eq (ver : U8) (user password : Bytes) :
    decodeAccount (ver :: (lengthPrefixed user ++ lengthPrefixed password)) =
      some (ver, user.take (lengthByte user).toNat, password.take (lengthByte password).toNat) := by
  rw [decodeAccount, takeField_append]
  simp only
  rw [takeField_lengthPrefixed]

-- The reader gets both texts exactly if both fit behind their byte.
theorem decodeAccount_iff (ver : U8) :
    decodeAccount (ver :: (lengthPrefixed user ++ lengthPrefixed password)) =
        some (ver, user, password) ↔
      user.length ≤ 255 ∧ password.length ≤ 255 := by
  rw [decodeAccount_eq, ← take_lengthByte_eq_iff, ← take_lengthByte_eq_iff]
  simp only [Option.some.injEq, Prod.mk.injEq, true_and]

theorem leBytes16_eq (x : U16) : leBytes16 x = [x.setWidth 8, (x >>> 8).setWidth 8] := rfl

theorem decodeConnect_eq (cmd : U8) {type : U8} {address : Bytes} {n : Nat} (port : U16)
    (htype : addressLength type = some n) (hlength : address.length = n) :
    decodeConnect ([0x05, cmd, 0x00, type] ++ address ++ leBytes16 port) =
      some ⟨cmd, type, address, port⟩ := by
  have hrest : (address ++ leBytes16 port).drop n = [port.setWidth 8, (port >>> 8).setWidth 8] := by
    rw [List.drop_left' hlength, leBytes16_eq]
  have htake : (address ++ leBytes16 port).take n = address := List.take_left' hlength
  simp only [List.cons_append, List.nil_append, decodeConnect]
  rw [if_pos ⟨trivial, trivial⟩, htype]
  simp only [hrest, htake]
  rw [beBytes16_append]

/-! ## The senders -/

/-- The methods of the setting; a byte 0xFF of it stands for no method. -/
def Settings.methods (settings : Settings) : Bytes :=
  (Served.verifyBytes settings.verifyMethod).filter fun m => m != 0xFF#8

inductive Destination where
  | ip4 (addr : U32)
  | ip6 (addr : { bytes : Bytes // bytes.length = 16 })

namespace Destination

def ipver : Destination → U8
  | .ip4 _ => 4
  | .ip6 _ => 6

/-- The address as it lies in memory, in the order of the network. -/
def address : Destination → Bytes
  | .ip4 addr => leBytes32 addr
  | .ip6 addr => addr.val

def type : Destination → U8
  | .ip4 _ => 0x01
  | .ip6 _ => 0x04

end Destination

theorem Destination.addressLength_type (d : Destination) :
    ∃ n, addressLength d.type = some n ∧ d.address.length = n ∧ n ≤ 16 := by
  cases d with
  | ip4 addr => exact ⟨4, rfl, rfl, by omega⟩
  | ip6 addr => exact ⟨16, rfl, addr.property, Nat.le_refl 16⟩

namespace Socks5Proxy

/-- The union keeps what an address of four bytes does not write. -/
def setDestAddr (ipver : U8) (addr : Bytes) (port : U16) (p : Socks5Proxy) : Socks5Proxy :=
  { p with
    mDestAddr :=
      if ipver = 4 then addr.take 4 ++ p.mDestAddr.drop 4 else addr.take 16 ++ p.mDestAddr.drop 16
    mDestPort := port
    mDestIPVer := ipver }

def setProtocol (protocol : U8) (p : Socks5Proxy) : Socks5Proxy := { p with mProtocol := protocol }

/-- What is set before a tunnel is established. -/
def towards (d : Destination) (port : U16) (protocol : U8) (p : Socks5Proxy) : Socks5Proxy :=
  (p.setDestAddr d.ipver d.address port).setProtocol protocol

-- A short message is queued as it is.
theorem encryptAndQueue_trace (queue : ProxyQueue) {data : Bytes} (p : Socks5Proxy)
    (hne : data ≠ []) (hle : data.length ≤ MAX_ENCRYPT_SIZE) :
    (p.encryptAndQueue queue data).2.trace = p.trace ++ [.queued queue data] := by
  have hwith (f : EpollReactor → EpollReactor) (p : Socks5Proxy) :
      (p.withReactor f).trace = p.trace := by
    unfold withReactor
    split <;> rfl
  have hshare : MAX_PARCEL_SIZE ≤ (BitVec.ofNat 32 SOCKS5_SHARE_BUFFER_SZ).toNat := by decide
  have hout := Cipher.encrypt_succeeds (p.draws 0) p.cipher hne hshare
  have horigin := (Cipher.encrypt_eq hout).2.2
  rw [List.drop_of_length_le hle] at horigin
  unfold encryptAndQueue
  generalize Cipher.encrypt (p.draws 0) data (BitVec.ofNat 32 SOCKS5_SHARE_BUFFER_SZ) p.cipher = r
    at hout horigin ⊢
  simp only [if_neg hout]
  rw [horigin, List.length_nil, Nat.sub_zero, List.take_length]
  cases queue <;> exact congrArg (· ++ _) (hwith _ (push _ _ _))

end Socks5Proxy

namespace Served

variable {γ : Type} {w : Served γ}

/-- The sender `r` has succeeded, and `data` is the message it has queued. -/
structure Sends (kind : S5Message) (data : Bytes) (w : Served γ) (r : Nat × Served γ) : Prop where
  succeeds : 0 < r.1
  queued : r.2.proxy.trace = w.proxy.trace ++ [.queued (.socks5 kind) data]

structure EncodesExactly (w : Served γ) : Prop where
  greet : ∃ data, Sends .greet data w w.sendS5Greet ∧
    decodeGreet data = some (0x05, w.proxy.settings.methods)
  account {user password : Bytes} : w.proxy.settings.username = some user →
    w.proxy.settings.password = some password →
      if user.length ≤ 255 ∧ password.length ≤ 255 then
        ∃ data, Sends .account data w w.sendS5Account ∧
          decodeAccount data = some (0x05, user, password)
      else w.sendS5Account.1 = 0
  connect (d : Destination) (port : U16) (protocol : U8) :
    ∃ data, Sends .connect data (w.onProxy (.towards d port protocol))
        (w.onProxy (.towards d port protocol)).sendS5Connect ∧
      decodeConnect data =
        some ⟨if protocol = protoTCP then 0x01 else 0x03, d.type, d.address, port⟩

theorem EncodesExactly.account_fails {user password : Bytes} (h : w.EncodesExactly)
    (huser : w.proxy.settings.username = some user)
    (hpassword : w.proxy.settings.password = some password)
    (hlong : ¬ (user.length ≤ 255 ∧ password.length ≤ 255)) : w.sendS5Account.1 = 0 := by
  have haccount := h.account huser hpassword
  rw [if_neg hlong] at haccount
  exact haccount

theorem sendS5_sends (kind : S5Message) {data : Bytes} (w : Served γ) (hne : data ≠ [])
    (hle : data.length ≤ MAX_ENCRYPT_SIZE) : Sends kind data w (w.sendS5 kind data) where
  succeeds := Nat.pos_of_ne_zero (w.sendS5_queued kind hne).1
  queued := w.proxy.encryptAndQueue_trace (.socks5 kind) hne hle

/-! ### `sendS5Greet` -/

theorem getS5VerifyMethods_eq (settings : Settings) :
    getS5VerifyMethods settings 4 = settings.methods := by
  have hle : settings.methods.length ≤ 4 := List.length_filter_le _ _
  exact List.take_of_length_le hle

theorem sendS5Greet_sends (w : Served γ) :
    ∃ data, Sends .greet data w w.sendS5Greet ∧
      decodeGreet data = some (0x05, w.proxy.settings.methods) := by
  have hle : w.proxy.settings.methods.length ≤ 4 := List.length_filter_le _ _
  have hfits := (@take_lengthByte_eq_iff w.proxy.settings.methods).mpr (by omega)
  have hmessage : message 64 [[5, BitVec.ofNat 8 w.proxy.settings.methods.length] ++
      w.proxy.settings.methods] = 5 :: lengthPrefixed w.proxy.settings.methods := by
    rw [message_eq (by omega) (by omega), lengthPrefixed, hfits]
    · exact List.flatten_singleton
    · simp only [List.flatten_cons, List.flatten_nil, List.append_nil, List.length_append,
        List.length_cons, List.length_nil]
      omega
  have hlength := length_lengthPrefixed_le w.proxy.settings.methods
  have hmax := Cipher.maxEncryptSize_eq
  refine ⟨5 :: lengthPrefixed w.proxy.settings.methods, ?_, ?_⟩
  · unfold sendS5Greet
    dsimp only
    rw [getS5VerifyMethods_eq, hmessage]
    apply sendS5_sends .greet w (List.cons_ne_nil _ _)
    rw [List.length_cons]
    omega
  · rw [decodeGreet_eq, hfits]

/-! ### `sendS5Account` -/

-- Two texts behind their lengths, whatever the lengths count.
theorem sendS5Account_sends {user password : Bytes} (huser : w.proxy.settings.username = some user)
    (hpassword : w.proxy.settings.password = some password) :
    Sends .account (0x05 :: (lengthPrefixed user ++ lengthPrefixed password)) w
      w.sendS5Account := by
  have huserLt := (lengthByte user).isLt
  have hpasswordLt := (lengthByte password).isLt
  have huserLength := length_take_lengthByte user
  have hpasswordLength := length_take_lengthByte password
  have huserLe := length_lengthPrefixed_le user
  have hpasswordLe := length_lengthPrefixed_le password
  have hmax := Cipher.maxEncryptSize_eq
  have hmessage : message ((lengthByte user).toNat + (lengthByte password).toNat + 10)
      [[0x05], [lengthByte user], user.take (lengthByte user).toNat, [lengthByte password],
        password.take (lengthByte password).toNat] =
      0x05 :: (lengthPrefixed user ++ lengthPrefixed password) := by
    rw [message_eq (by omega) (by omega)]
    · simp only [lengthPrefixed, List.flatten_cons, List.flatten_nil, List.append_nil,
        List.cons_append, List.nil_append]
    · simp only [List.flatten_cons, List.flatten_nil, List.append_nil, List.length_append,
        List.length_cons, List.length_nil]
      omega
  unfold sendS5Account
  rw [huser, hpassword]
  show Sends .account _ w (w.sendS5 .account (message _ _))
  rw [← hmessage]
  apply sendS5_sends .account w
  · rw [hmessage]
    exact List.cons_ne_nil _ _
  · rw [hmessage, List.length_cons, List.length_append]
    omega

/-! ### `sendS5Connect` -/

-- The pieces of the address that has been set.
theorem towards_address (d : Destination) (port : U16) (protocol : U8) (p : Socks5Proxy) :
    (if (p.towards d port protocol).mDestIPVer = 4
      then [[0x01#8], (p.towards d port protocol).mDestAddr.take 4]
      else [[0x04#8], (p.towards d port protocol).mDestAddr.take 16]) = [[d.type], d.address] := by
  cases d with
  | ip4 addr => rfl
  | ip6 addr =>
    have htake : (addr.val.take 16 ++ p.mDestAddr.drop 16).take 16 = addr.val := by
      rw [List.take_of_length_le (Nat.le_of_eq addr.property), List.take_left' addr.property]
    exact congrArg (fun address => [[0x04#8], address]) htake

theorem sendS5Connect_sends (d : Destination) (port : U16) (protocol : U8) (w : Served γ) :
    ∃ data, Sends .connect data (w.onProxy (.towards d port protocol))
        (w.onProxy (.towards d port protocol)).sendS5Connect ∧
      decodeConnect data =
        some ⟨if protocol = protoTCP then 0x01 else 0x03, d.type, d.address, port⟩ := by
  obtain ⟨n, htype, hlength, hle⟩ := d.addressLength_type
  have hmax := Cipher.maxEncryptSize_eq
  generalize hcmd : (if protocol = protoTCP then 0x01#8 else 0x03#8) = cmd
  have hmessage : message 32 ([[0x05], [cmd], [0x00]] ++ [[d.type], d.address] ++
      [leBytes16 port]) = [0x05, cmd, 0x00, d.type] ++ d.address ++ leBytes16 port := by
    rw [message_eq (by omega) (by omega)]
    · simp only [List.flatten_cons, List.flatten_nil, List.append_nil, List.cons_append,
        List.nil_append]
    · simp only [List.flatten_cons, List.flatten_nil, List.append_nil, List.length_append,
        List.length_cons, List.cons_append, List.nil_append, length_leBytes16]
      omega
  refine ⟨[0x05, cmd, 0x00, d.type] ++ d.address ++ leBytes16 port, ?_,
    decodeConnect_eq cmd port htype hlength⟩
  rw [← hmessage, ← hcmd, ← towards_address d port protocol w.proxy]
  apply sendS5_sends .connect
  · rw [towards_address, hcmd, hmessage]
    exact List.cons_ne_nil _ _
  · rw [towards_address, hcmd, hmessage]
    simp only [List.length_append, List.length_cons, List.length_nil, length_leBytes16]
    omega

/-- The messages carry what they are to carry exactly if both texts fit behind their length. -/
theorem encodesExactly_iff (w : Served γ) :
    w.EncodesExactly ↔
      ∀ user password, w.proxy.settings.username = some user →
        w.proxy.settings.password = some password → user.length ≤ 255 ∧ password.length ≤ 255 := by
  constructor
  · intro h user password huser hpassword
    have hsends := sendS5Account_sends huser hpassword
    by_contra hlong
    have hfails := h.account_fails huser hpassword hlong
    have hpos := hsends.succeeds
    omega
  · intro h
    refine ⟨w.sendS5Greet_sends, ?_, fun d port protocol => w.sendS5Connect_sends d port protocol⟩
    intro user password huser hpassword
    have hfits := h user password huser hpassword
    rw [if_pos hfits]
    exact ⟨_, sendS5Account_sends huser hpassword, (decodeAccount_iff 0x05).mpr hfits⟩

def longName : Bytes := List.replicate 256 0x61

theorem length_longName : longName.length = 256 := List.length_replicate

def longNameServed : Served Unit :=
  ⟨(), { sampleProxy .greet with settings := ⟨0x02, some longName, some [0x70]⟩ }⟩

/-- The name is cut down to nothing, and the sender succeeds. -/
theorem long_name_sent : ¬ longNameServed.EncodesExactly ∧
    ∃ data, Sends .account data longNameServed longNameServed.sendS5Account ∧
      decodeAccount data = some (0x05, [], [0x70]) := by
  have hsends : Sends .account _ longNameServed longNameServed.sendS5Account :=
    sendS5Account_sends rfl rfl
  have hzero : (lengthByte longName).toNat = 0 := by
    rw [toNat_lengthByte, length_longName]
  refine ⟨?_, _, hsends, ?_⟩
  · intro h
    have hlong : ¬ (longName.length ≤ 255 ∧ ([0x70] : Bytes).length ≤ 255) := fun hboth => by
      have hle := hboth.1
      rw [length_longName] at hle
      omega
    have hfails := h.account_fails rfl rfl hlong
    have hpos := hsends.succeeds
    omega
  · rw [decodeAccount_eq, hzero]
    rfl

end Served

end NetCore
