import Mathlib.Data.List.GetD
import NetCore.Socks5Proxy.Receive

/-!
# Payload through the proxy

In `S_TRANS` every message reaches the client, however its parcels are read.  In `S_CONNECT` the
first message is the reply to the connect request, and what is decrypted together with it is lost.
-/

namespace NetCore
namespace Served

open Socks5Proxy Cipher

variable {γ : Type} [ITunnelClient γ Socks5Proxy]

/-- What is left of the stream in front of these parcels: the first of them, without its end. -/
def PartOfNext : List Sealed → Bytes → Prop
  | [], unfinished => unfinished = []
  | z :: _, unfinished => unfinished <+: z.wire ∧ unfinished.length < z.wire.length

/-- In `S_TRANS` the client has the messages of the parcels received completely, the buffer holds
    the parcel that is not complete, and it never overflows. -/
theorem readChunks_delivers {w : Served γ} {parcels : List Sealed} {chunks : List Bytes}
    {later : Bytes} (hstate : w.proxy.mS5State = .trans)
    (hempty : w.proxy.mDecryptBuffer.val.readable = [])
    (hchunks : ∀ chunk ∈ chunks, chunk ≠ [] ∧ chunk.length ≤ SOCKS5_SHARE_BUFFER_SZ)
    (hstream : chunks.flatten ++ later = Sealed.stream parcels) :
    ∃ complete rest unfinished w', parcels = complete ++ rest ∧
      chunks.flatten = Sealed.stream complete ++ unfinished ∧ PartOfNext rest unfinished ∧
      readChunks chunks w = some w' ∧
      Lib.Along readChunk (fun w chunk => ¬ w.Overflows chunk) w chunks ∧
      w'.proxy.mS5State = .trans ∧
      w'.proxy.delivered = w.proxy.delivered ++ Sealed.messages complete ∧
      w'.proxy.mDecryptBuffer.val.readable = unfinished := by
  have hfirst : ∀ z ∈ parcels.head?, ([] : Bytes).length < z.wire.length :=
    fun z _ => z.wire_pos
  obtain ⟨complete, rest, unfinished, w', rfl, hrun, halong, hstands, hrest, hshort⟩ :=
    readChunks_trans (b := []) ⟨hstate, hempty, rfl⟩ hstream hfirst hchunks
  refine ⟨complete, rest, unfinished, w', rfl, ?_, ?_, hrun, halong, hstands.state,
    hstands.passed, hstands.buffered⟩
  · rw [Sealed.stream_append, ← hrest, ← List.append_assoc] at hstream
    exact List.append_cancel_right hstream
  · cases rest with
    | nil => exact (List.append_eq_nil_iff.mp hrest).1
    | cons z rest =>
      have hz := hshort z rfl
      rw [Sealed.stream_cons] at hrest
      have hprefix : unfinished <+: z.wire ++ Sealed.stream rest := ⟨later, hrest⟩
      exact ⟨List.prefix_of_prefix_length_le hprefix (List.prefix_append z.wire _)
        (Nat.le_of_lt hz), hz⟩

/-- What a reply to the connect request must look like. -/
def ConnReply (data : Bytes) : Prop := 4 ≤ data.length ∧ byteAt data 0 = 5 ∧ byteAt data 1 = 0

/-- The number of bytes that have been read when the `r`-th has come in; `got` are there before. -/
def receivedOnReply (r : Nat) : Nat → List Bytes → Nat
  | got, [] => got
  | got, chunk :: chunks =>
      if r ≤ got + chunk.length then got + chunk.length
      else receivedOnReply r (got + chunk.length) chunks

/-- No parcel of payload ends in the window in which the reply is decrypted. -/
def ReplyAlone (reply : Sealed) (parcels : List Sealed) (chunks : List Bytes) : Prop :=
  ∀ z ∈ parcels.head?,
    min SOCKS5_SHARE_BUFFER_SZ (receivedOnReply reply.wire.length 0 chunks) <
      reply.wire.length + z.wire.length

-- A good reply is taken as a whole, whatever lies behind it.
theorem handle_reply {w : Served γ} {b d reply : Bytes} (lost : Bytes) (h : w.Stands .connect b d)
    (hreply : ConnReply reply) : (w.handle (reply ++ lost)).Stands .trans b d := by
  obtain ⟨hlen, hversion, hstatus⟩ := hreply
  have hbyte (i : Nat) (hi : i < 4) : byteAt (reply ++ lost) i = byteAt reply i :=
    List.getD_append _ _ _ _ (by omega)
  have hswitched (p : Socks5Proxy) :
      (emit (.switched p.mS5State .trans) { p with mS5State := .trans }).delivered = p.delivered :=
    (delivered_emit _ _).trans (List.append_nil _)
  have hhandled := h.handled (reply ++ lost)
  unfold handle
  simp only
  rw [hhandled.state]
  simp only
  unfold handleS5ConnBack
  rw [if_neg (by rw [List.length_append]; omega), hbyte 0 (by omega), hbyte 1 (by omega),
    if_neg (not_not_intro hversion), if_neg (not_not_intro hstatus), switchS5State,
    if_neg (by rw [hhandled.state]; simp)]
  simp only
  refine Stands.of_kept (w := (w.onProxy (.emit (.handled (reply ++ lost)))).onProxy fun p =>
    .emit (.switched p.mS5State .trans) { p with mS5State := .trans })
    ⟨rfl, hhandled.buffered, (hswitched _).trans hhandled.passed⟩ ?_
  exact kept_of_calls (ITunnelClient.writable_calls _ _)

-- The read with which the reply is complete, and the loop behind it.
theorem receiveLoop_connect {w : Served γ} {b d later : Bytes} {reply : Sealed}
    {parcels : List Sealed} (h : w.Stands .connect b d)
    (hstream : b ++ later = Sealed.stream (reply :: parcels)) (hreply : ConnReply reply.message)
    (hcomplete : reply.wire.length ≤ b.length) :
    ∃ lost ys zs b' w', parcels = lost ++ (ys ++ zs) ∧ receiveLoop (b.length + 1) w = some w' ∧
      w'.Stands .trans b' (d ++ Sealed.messages ys) ∧ b' ++ later = Sealed.stream zs ∧
      (∀ z ∈ zs.head?, b'.length < z.wire.length) ∧
      (lost = [] ↔ ∀ z ∈ parcels.head?,
        min SOCKS5_SHARE_BUFFER_SZ b.length < reply.wire.length + z.wire.length) := by
  obtain ⟨taken, left, hsplit, hle, hlt, w', hstands, -, hloop⟩ := receiveLoop_step b.length h hstream
  have hfits := reply.wire_le
  -- the reply is complete, so it is among the parcels taken
  cases taken with
  | nil =>
    cases hsplit
    have hnone : (Sealed.stream []).length = 0 := rfl
    have hreplyLt := hlt reply rfl
    omega
  | cons x lost =>
    cases hsplit
    rw [if_neg (List.cons_ne_nil _ _), Sealed.messages_cons] at hloop
    have htrans := handle_reply (Sealed.messages lost) hstands hreply
    have hrest : b.drop (Sealed.stream (reply :: lost)).length ++ later = Sealed.stream left :=
      drop_stream hstream (by omega)
    have hpos := Sealed.stream_pos (List.cons_ne_nil reply lost)
    obtain ⟨ys, zs, last, rfl, hlast, hle', hstands', hlt'⟩ :=
      receiveLoop_trans htrans hrest (show _ < b.length by rw [List.length_drop]; omega)
    refine ⟨lost, ys, zs, _, last, rfl, hloop.trans hlast, hstands', drop_stream hrest hle', ?_, ?_⟩
    · intro z hz
      have hz := hlt' z hz
      rw [List.length_drop]
      omega
    · rw [Sealed.stream_cons, List.length_append] at hle hlt
      constructor
      · rintro rfl z hz
        have hz := hlt z hz
        have hnone : (Sealed.stream []).length = 0 := rfl
        omega
      · intro halone
        cases lost with
        | nil => rfl
        | cons y lost =>
          have hy := halone y rfl
          rw [Sealed.stream_cons, List.length_append] at hle
          omega

-- What becomes of a stream that begins with the reply.
theorem readChunks_connect {w : Served γ} {b d : Bytes} {reply : Sealed} {parcels : List Sealed}
    {chunks : List Bytes} (h : w.Stands .connect b d)
    (hstream : b ++ chunks.flatten = Sealed.stream (reply :: parcels))
    (hb : b.length < reply.wire.length) (hreply : ConnReply reply.message)
    (hchunks : ∀ chunk ∈ chunks, chunk ≠ [] ∧ chunk.length ≤ SOCKS5_SHARE_BUFFER_SZ) :
    ∃ lost kept w', parcels = lost ++ kept ∧ readChunks chunks w = some w' ∧
      w'.proxy.delivered = d ++ Sealed.messages kept ∧
      (lost = [] ↔ ∀ z ∈ parcels.head?,
        min SOCKS5_SHARE_BUFFER_SZ (receivedOnReply reply.wire.length b.length chunks) <
          reply.wire.length + z.wire.length) := by
  induction chunks generalizing w b with
  | nil =>
    have hlen := congrArg List.length hstream
    rw [List.flatten_nil, List.append_nil, Sealed.stream_cons, List.length_append] at hlen
    omega
  | cons chunk chunks ih =>
    obtain ⟨⟨hne, hlen⟩, hlater⟩ := List.forall_mem_cons.mp hchunks
    have hfits := reply.wire_le
    obtain ⟨w', hstands, -, hread⟩ := onReadable_received h (show b.length ≤ _ by omega) hne hlen
    have hgot : (b ++ chunk).length = b.length + chunk.length := List.length_append
    rw [List.flatten_cons, ← List.append_assoc] at hstream
    rw [receivedOnReply, ← hgot]
    by_cases hcomplete : reply.wire.length ≤ (b ++ chunk).length
    · rw [if_pos hcomplete]
      obtain ⟨lost, ys, zs, b', next, rfl, hloop, hnext, hrest, hshort, hiff⟩ :=
        receiveLoop_connect hstands hstream hreply hcomplete
      obtain ⟨ys', zs', b'', last, rfl, hrun, -, hlast, hend, hshort'⟩ :=
        readChunks_trans hnext (by rw [List.append_nil]; exact hrest) hshort hlater
      -- nothing is to come, so nothing is left
      have hdone : zs' = [] := by
        cases zs' with
        | nil => rfl
        | cons z zs' =>
          have hz := hshort' z rfl
          have hlen := congrArg List.length hend
          rw [List.append_nil, Sealed.stream_cons, List.length_append] at hlen
          omega
      subst hdone
      refine ⟨lost, ys ++ (ys' ++ []), last, rfl,
        (Lib.run_cons chunks (hread.trans hloop)).trans hrun, ?_, hiff⟩
      rw [hlast.passed, List.append_nil, List.append_assoc, Sealed.messages_append]
    · rw [if_neg hcomplete]
      obtain ⟨taken, left, hsplit, hle, -, next, hnext, -, hloop⟩ :=
        receiveLoop_step (b ++ chunk).length hstands hstream
      have hnone : taken = [] := by
        cases taken with
        | nil => rfl
        | cons x taken =>
          cases hsplit
          rw [Sealed.stream_cons, List.length_append] at hle
          omega
      subst hnone
      rw [if_pos rfl] at hloop
      obtain ⟨lost, kept, last, hparcels, hrun, hlast, hiff⟩ :=
        ih hnext hstream (show (b ++ chunk).length < _ by omega) hlater
      exact ⟨lost, kept, last, hparcels, (Lib.run_cons chunks (hread.trans hloop)).trans hrun,
        hlast, hiff⟩

/-- The payload behind the reply arrives exactly when none of it is decrypted with the reply. -/
theorem readChunks_payload_iff {w : Served γ} {reply : Sealed} {parcels : List Sealed}
    {chunks : List Bytes} (hstate : w.proxy.mS5State = .connect)
    (hempty : w.proxy.mDecryptBuffer.val.readable = []) (hreply : ConnReply reply.message)
    (hchunks : ∀ chunk ∈ chunks, chunk ≠ [] ∧ chunk.length ≤ SOCKS5_SHARE_BUFFER_SZ)
    (hstream : chunks.flatten = Sealed.stream (reply :: parcels)) :
    ∃ w', readChunks chunks w = some w' ∧
      (w'.proxy.delivered = w.proxy.delivered ++ Sealed.messages parcels ↔
        ReplyAlone reply parcels chunks) := by
  obtain ⟨lost, kept, w', rfl, hrun, hdelivered, hiff⟩ :=
    readChunks_connect ⟨hstate, hempty, rfl⟩ hstream reply.wire_pos hreply hchunks
  refine ⟨w', hrun, Iff.trans ?_ hiff⟩
  rw [hdelivered, List.append_cancel_left_eq, Sealed.messages_append]
  constructor
  · intro heq
    have hlen := congrArg List.length heq
    rw [List.length_append] at hlen
    exact Sealed.messages_eq_nil (List.length_eq_zero_iff.mp (by omega))
  · rintro rfl
    rfl

def sampleReply : Sealed := sampleSealed [5, 0, 0, 1] (by decide) (by decide)

def samplePayload : Sealed := sampleSealed [1, 2] (by decide) (by decide)

theorem length_sampleReply : sampleReply.wire.length = 13 :=
  (length_sampleSealed _ _).trans (by decide)

theorem length_samplePayload : samplePayload.wire.length = 11 :=
  (length_sampleSealed _ _).trans (by decide)

theorem readChunks_payload_sample :
    ∃ w', readChunks [sampleReply.wire, samplePayload.wire] (sampleServed .connect) = some w' ∧
      (w'.proxy.delivered =
          (sampleServed .connect).proxy.delivered ++ Sealed.messages [samplePayload] ↔
        ReplyAlone sampleReply [samplePayload] [sampleReply.wire, samplePayload.wire]) := by
  refine readChunks_payload_iff rfl (Segment.readable_new _) (by unfold ConnReply; decide) ?_ rfl
  intro chunk hchunk
  rcases List.mem_pair.mp hchunk with rfl | rfl
  · exact ⟨List.ne_nil_of_length_pos sampleReply.wire_pos, sampleReply.wire_le⟩
  · exact ⟨List.ne_nil_of_length_pos samplePayload.wire_pos, samplePayload.wire_le⟩

-- Two parcels cut in the middle, the second one not complete yet.
def sampleChunks : List Bytes :=
  [samplePayload.wire.take 5, samplePayload.wire.drop 5 ++ sampleReply.wire.take 4]

theorem readChunks_delivers_sample :
    ∃ w', readChunks sampleChunks (sampleServed .trans) = some w' ∧
      Lib.Along readChunk (fun w chunk => ¬ w.Overflows chunk) (sampleServed .trans) sampleChunks ∧
      w'.proxy.delivered = (sampleServed .trans).proxy.delivered ++ [1, 2] ∧
      w'.proxy.mDecryptBuffer.val.readable = sampleReply.wire.take 4 := by
  have hpayload := length_samplePayload
  have hreply := length_sampleReply
  have hshare : SOCKS5_SHARE_BUFFER_SZ = 8192 := rfl
  have hflat : sampleChunks.flatten = samplePayload.wire ++ sampleReply.wire.take 4 := by
    unfold sampleChunks
    rw [List.flatten_cons, List.flatten_cons, List.flatten_nil, List.append_nil, ← List.append_assoc,
      List.take_append_drop]
  have hlen : sampleChunks.flatten.length = 15 := by
    rw [hflat, List.length_append, List.length_take]
    omega
  have hstream : sampleChunks.flatten ++ sampleReply.wire.drop 4 =
      Sealed.stream [samplePayload, sampleReply] := by
    rw [hflat, List.append_assoc, List.take_append_drop, Sealed.stream_cons, Sealed.stream_cons]
    exact congrArg _ (List.append_nil _).symm
  have hchunks : ∀ chunk ∈ sampleChunks, chunk ≠ [] ∧ chunk.length ≤ SOCKS5_SHARE_BUFFER_SZ := by
    intro chunk hchunk
    rcases List.mem_pair.mp hchunk with rfl | rfl
    · have htake : (samplePayload.wire.take 5).length = 5 := by
        rw [List.length_take]
        omega
      exact ⟨List.ne_nil_of_length_pos (by omega), by omega⟩
    · have hcut : (samplePayload.wire.drop 5 ++ sampleReply.wire.take 4).length = 10 := by
        rw [List.length_append, List.length_drop, List.length_take]
        omega
      exact ⟨List.ne_nil_of_length_pos (by omega), by omega⟩
  obtain ⟨complete, rest, unfinished, w', hparcels, hcomplete, hpart, hrun, halong, -, hdelivered,
    hbuffered⟩ := readChunks_delivers (w := sampleServed .trans) rfl (Segment.readable_new _) hchunks
      hstream
  have hread := congrArg List.length hcomplete
  rw [hlen, List.length_append] at hread
  -- one parcel is complete: none would be too few bytes read, two too many
  match complete, hparcels with
  | [], hparcels =>
    obtain rfl : [samplePayload, sampleReply] = rest := hparcels
    have hlt := hpart.2
    rw [show (Sealed.stream []).length = 0 from rfl] at hread
    omega
  | [x], hparcels =>
    obtain ⟨rfl, -⟩ := List.cons.inj hparcels
    rw [Sealed.stream_cons, hflat, show Sealed.stream [] = [] from rfl, List.append_nil] at hcomplete
    refine ⟨w', hrun, halong, hdelivered, ?_⟩
    rw [hbuffered]
    exact (List.append_cancel_left hcomplete).symm
  | x :: y :: complete, hparcels =>
    obtain ⟨rfl, htail⟩ := List.cons.inj hparcels
    obtain ⟨rfl, -⟩ := List.cons.inj htail
    rw [Sealed.stream_cons, Sealed.stream_cons, List.length_append, List.length_append] at hread
    omega

/-- The reply and the first payload in one read. -/
theorem readChunks_payload_lost :
    ∃ (w : Served Unit) (reply : Sealed) (parcels : List Sealed) (chunks : List Bytes)
      (w' : Served Unit),
      w.proxy.mS5State = .connect ∧ w.proxy.mDecryptBuffer.val.readable = [] ∧
        ConnReply reply.message ∧
        (∀ chunk ∈ chunks, chunk ≠ [] ∧ chunk.length ≤ SOCKS5_SHARE_BUFFER_SZ) ∧
        chunks.flatten = Sealed.stream (reply :: parcels) ∧ readChunks chunks w = some w' ∧
        w'.proxy.delivered ≠ w.proxy.delivered ++ Sealed.messages parcels := by
  have hreply := length_sampleReply
  have hpayload := length_samplePayload
  have hshare : SOCKS5_SHARE_BUFFER_SZ = 8192 := rfl
  have hlen : (sampleReply.wire ++ samplePayload.wire).length = 24 := by
    rw [List.length_append]
    omega
  have hchunks : ∀ chunk ∈ [sampleReply.wire ++ samplePayload.wire],
      chunk ≠ [] ∧ chunk.length ≤ SOCKS5_SHARE_BUFFER_SZ := by
    refine List.forall_mem_singleton.mpr ⟨List.ne_nil_of_length_pos (by omega), by omega⟩
  have hstream : [sampleReply.wire ++ samplePayload.wire].flatten =
      Sealed.stream [sampleReply, samplePayload] := by
    simp [Sealed.stream]
  have hwire : [] ++ [sampleReply.wire ++ samplePayload.wire].flatten =
      Sealed.stream (sampleReply :: [samplePayload]) := hstream
  have hgood : ConnReply sampleReply.message := by
    unfold ConnReply
    decide
  obtain ⟨lost, kept, w', hparcels, hrun, hdelivered, hiff⟩ :=
    readChunks_connect (w := sampleServed .connect) ⟨rfl, Segment.readable_new _, rfl⟩ hwire
      sampleReply.wire_pos hgood hchunks
  refine ⟨_, sampleReply, [samplePayload], _, w', rfl, Segment.readable_new _, hgood, hchunks,
    hstream, hrun, fun heq => ?_⟩
  rw [hdelivered, List.append_cancel_left_eq, hparcels, Sealed.messages_append] at heq
  have hsame := congrArg List.length heq
  rw [List.length_append] at hsame
  have hlost : lost = [] := Sealed.messages_eq_nil (List.length_eq_zero_iff.mp (by omega))
  have halone := hiff.mp hlost samplePayload rfl
  rw [receivedOnReply, List.length_nil, if_pos (by omega)] at halone
  omega

end Served

end NetCore
