import Mathlib.Data.List.Forall2
import Mathlib.Data.List.GetD
import NetCore.Lib.Frame
import NetCore.Lib.Run
import NetCore.Segment

/-!
# `PacketCapture`: the capture file

The handler of the capture events writes a pcap file: a global header, and for every packet a record
header followed by the data.  `fwrite` takes all it is given, so a file is the bytes written to it;
`ab+` appends to what a file of that name already holds.  The clock is given from outside.

The second half says what a reader of such a file sees, and when the file is one at all.
-/

namespace NetCore

def PCAP_RECORD_SIZE : Nat := 1 <<< 16
def MAX_PACP_FILE_SIZE : Nat := 1 <<< 26

/-- `PcapHdr` as `CAPTURE_START` fills it. -/
def pcapHdr : Bytes :=
  leBytes32 0xa1b2c3d4 ++ leBytes16 2 ++ leBytes16 4 ++ leBytes32 0 ++ leBytes32 0 ++ leBytes32 64 ++
    leBytes32 101

def pcapRecHdr (ts_sec ts_usec incl_len orig_len : U32) : Bytes :=
  leBytes32 ts_sec ++ leBytes32 ts_usec ++ leBytes32 incl_len ++ leBytes32 orig_len

inductive CapturePoint where
  | opened (path : String)
  /-- A `CAPTURE_PACKET` that finds the file open. -/
  | captured (packet : Bytes)
  | closed (path : String) (content : Bytes)
deriving DecidableEq

structure PacketCapture where
  /-- The file that is open. -/
  mPcapFd : Option String := none
  files : String → Bytes := fun _ => []
  trace : List CapturePoint := []

namespace PacketCapture

def emit (point : CapturePoint) (s : PacketCapture) : PacketCapture :=
  { s with trace := s.trace ++ [point] }

def fclose (path : String) (s : PacketCapture) : PacketCapture :=
  emit (.closed path (s.files path)) { s with mPcapFd := none }

def append (path : String) (data : Bytes) (s : PacketCapture) : PacketCapture :=
  { s with files := Function.update s.files path (s.files path ++ data) }

/-- `writeFile`; `fwrite` of nothing returns 0, which counts as an error. -/
def writeFile (data : Bytes) (s : PacketCapture) : PacketCapture :=
  match s.mPcapFd with
  | none => s
  | some path =>
      if data = [] then s
      else
        let s := s.append path data
        if MAX_PACP_FILE_SIZE < (s.files path).length then s.fclose path else s

inductive Event where
  /-- `CAPTURE_START`; `none` when there is no path or it cannot be opened. -/
  | captureStart (path : Option String)
  | capturePacket (segment : Segment) (tv_sec tv_usec : U32)
  | captureStop

/-- `segment->size()`, in 32 bits. -/
def packetSize (segment : Segment) : U32 := BitVec.ofNat 32 segment.size

/-- How much of a packet goes to the file. -/
def includedLen (segment : Segment) : Nat :=
  if (packetSize segment).toNat < PCAP_RECORD_SIZE then (packetSize segment).toNat
  else PCAP_RECORD_SIZE

def recordHeader (segment : Segment) (tv_sec tv_usec : U32) : Bytes :=
  pcapRecHdr tv_sec tv_usec (BitVec.ofNat 32 (includedLen segment)) (packetSize segment)

def recordData (segment : Segment) : Bytes := segment.readable.take (includedLen segment)

def onEvent (s : PacketCapture) : Event → PacketCapture
  | .captureStart path =>
      match s.mPcapFd, path with
      | none, some path => writeFile pcapHdr (emit (.opened path) { s with mPcapFd := some path })
      | _, _ => s
  | .capturePacket segment tv_sec tv_usec =>
      match s.mPcapFd with
      | none => s
      | some _ =>
          writeFile (recordData segment)
            (writeFile (recordHeader segment tv_sec tv_usec) (s.emit (.captured segment.readable)))
  | .captureStop =>
      match s.mPcapFd with
      | none => s
      | some path => s.fclose path

def step (s : PacketCapture) (e : Event) : Option PacketCapture := some (s.onEvent e)

/-! ## Reading a capture file -/

structure Record where
  ts_sec : U32
  ts_usec : U32
  orig_len : U32
  data : Bytes
deriving DecidableEq

def leWord32 (mem : Bytes) (i : Nat) : U32 :=
  byteAt mem (i + 3) ++ byteAt mem (i + 2) ++ (byteAt mem (i + 1) ++ byteAt mem i)

def nextRecord (x : Bytes) : Option (Record × Bytes) :=
  let incl_len := (leWord32 x 8).toNat
  if x.length < 16 + incl_len then none
  else
    some (⟨leWord32 x 0, leWord32 x 4, leWord32 x 12, (x.drop 16).take incl_len⟩,
      x.drop (16 + incl_len))

/-- The records of a file; `none` if it is not a global header followed by whole records. -/
def readPcap (x : Bytes) : Option (List Record) :=
  if x.take pcapHdr.length = pcapHdr then
    match Lib.frames nextRecord (x.drop pcapHdr.length) with
    | (records, []) => some records
    | _ => none
  else none

theorem leWord32_leBytes32 (x : U32) (y : Bytes) : leWord32 (leBytes32 x ++ y) 0 = x := by
  show ((x >>> 24).setWidth 8 ++ (x >>> 16).setWidth 8 : U16) ++
    ((x >>> 8).setWidth 8 ++ x.setWidth 8 : U16) = x
  apply BitVec.eq_of_toNat_eq
  have hx := x.isLt
  simp only [BitVec.toNat_append, BitVec.toNat_setWidth, BitVec.toNat_ushiftRight,
    Nat.shiftRight_eq_div_pow]
  rw [← Nat.shiftLeft_add_eq_or_of_lt (Nat.mod_lt _ (by decide)),
    ← Nat.shiftLeft_add_eq_or_of_lt (Nat.mod_lt _ (by decide)),
    ← Nat.shiftLeft_add_eq_or_of_lt (by omega)]
  simp only [Nat.shiftLeft_eq]
  omega

theorem byteAt_append_left {x : Bytes} {i : Nat} (h : i < x.length) (y : Bytes) :
    byteAt (x ++ y) i = byteAt x i := by
  unfold byteAt
  rw [List.getD_append _ _ _ _ h]

theorem byteAt_append_right (x y : Bytes) (i : Nat) : byteAt (x ++ y) (x.length + i) = byteAt y i := by
  unfold byteAt
  rw [List.getD_append_right _ _ _ _ (Nat.le_add_right _ _), Nat.add_sub_cancel_left]

theorem leWord32_append_left {x : Bytes} {i : Nat} (h : i + 3 < x.length) (y : Bytes) :
    leWord32 (x ++ y) i = leWord32 x i := by
  unfold leWord32
  rw [byteAt_append_left h, byteAt_append_left (by omega), byteAt_append_left (by omega),
    byteAt_append_left (by omega)]

theorem leWord32_append_right (x y : Bytes) (i : Nat) :
    leWord32 (x ++ y) (x.length + i) = leWord32 y i := by
  unfold leWord32
  simp only [Nat.add_assoc, byteAt_append_right]

-- Records delimit themselves.
theorem nextRecord_framing : Lib.Framing nextRecord where
  extend {x y rest b} h := by
    unfold nextRecord at h ⊢
    simp only at h ⊢
    split at h
    · cases h
    next hlen =>
      cases h
      have hword (i : Nat) (hi : i + 3 < 16) : leWord32 (x ++ y) i = leWord32 x i :=
        leWord32_append_left (by omega) y
      rw [hword 8 (by decide), hword 0 (by decide), hword 4 (by decide), hword 12 (by decide),
        if_neg (by rw [List.length_append]; omega), List.drop_append_of_le_length (by omega),
        List.drop_append_of_le_length (by omega), List.take_append_of_le_length]
      rw [List.length_drop]
      omega
  progress {x rest b} h := by
    unfold nextRecord at h
    simp only at h
    split at h
    · cases h
    · cases h
      rw [List.length_drop]
      omega

theorem nextRecord_pcapRecHdr (ts_sec ts_usec incl_len orig_len : U32) (y : Bytes) :
    leWord32 (pcapRecHdr ts_sec ts_usec incl_len orig_len ++ y) 0 = ts_sec ∧
      leWord32 (pcapRecHdr ts_sec ts_usec incl_len orig_len ++ y) 4 = ts_usec ∧
      leWord32 (pcapRecHdr ts_sec ts_usec incl_len orig_len ++ y) 8 = incl_len ∧
      leWord32 (pcapRecHdr ts_sec ts_usec incl_len orig_len ++ y) 12 = orig_len := by
  unfold pcapRecHdr
  simp only [List.append_assoc]
  refine ⟨leWord32_leBytes32 _ _, ?_, ?_, ?_⟩
  · exact (leWord32_append_right (leBytes32 ts_sec) _ 0).trans (leWord32_leBytes32 _ _)
  · exact (leWord32_append_right (leBytes32 ts_sec) _ 4).trans
      ((leWord32_append_right (leBytes32 ts_usec) _ 0).trans (leWord32_leBytes32 _ _))
  · exact (leWord32_append_right (leBytes32 ts_sec) _ 8).trans
      ((leWord32_append_right (leBytes32 ts_usec) _ 4).trans
        ((leWord32_append_right (leBytes32 incl_len) _ 0).trans (leWord32_leBytes32 _ _)))

theorem length_pcapRecHdr (ts_sec ts_usec incl_len orig_len : U32) :
    (pcapRecHdr ts_sec ts_usec incl_len orig_len).length = 16 := rfl

theorem isFrame_pcapRecHdr (ts_sec ts_usec orig_len : U32) {incl_len : U32} {data : Bytes}
    (h : data.length = incl_len.toNat) :
    Lib.IsFrame nextRecord ⟨ts_sec, ts_usec, orig_len, data⟩
      (pcapRecHdr ts_sec ts_usec incl_len orig_len ++ data) := by
  have hlen := length_pcapRecHdr ts_sec ts_usec incl_len orig_len
  obtain ⟨hsec, husec, hincl, horig⟩ :=
    nextRecord_pcapRecHdr ts_sec ts_usec incl_len orig_len data
  unfold Lib.IsFrame nextRecord
  simp only [hsec, husec, hincl, horig, List.length_append, hlen, ← h, Nat.lt_irrefl, if_false]
  have hall : (pcapRecHdr ts_sec ts_usec incl_len orig_len ++ data).length ≤ 16 + data.length :=
    Nat.le_of_eq (by rw [List.length_append, hlen])
  rw [List.drop_left' hlen, List.take_length, List.drop_of_length_le hall]

theorem nextRecord_pcapRecHdr_short (ts_sec ts_usec orig_len : U32) {incl_len : U32}
    (h : 0 < incl_len.toNat) : nextRecord (pcapRecHdr ts_sec ts_usec incl_len orig_len) = none := by
  have hlen := length_pcapRecHdr ts_sec ts_usec incl_len orig_len
  obtain ⟨-, -, hincl, -⟩ := nextRecord_pcapRecHdr ts_sec ts_usec incl_len orig_len []
  rw [List.append_nil] at hincl
  unfold nextRecord
  simp only [hincl, hlen]
  rw [if_pos (by omega)]

theorem includedLen_le (segment : Segment) : includedLen segment ≤ segment.size := by
  have hsize : (packetSize segment).toNat ≤ segment.size := by
    unfold packetSize
    rw [BitVec.toNat_ofNat]
    exact Nat.mod_le _ _
  unfold includedLen
  split <;> omega

theorem length_recordData (segment : Segment) :
    (recordData segment).length = includedLen segment := by
  unfold recordData
  rw [List.length_take, Segment.length_readable]
  exact Nat.min_eq_left (includedLen_le segment)

theorem toNat_includedLen (segment : Segment) :
    (BitVec.ofNat 32 (includedLen segment)).toNat = includedLen segment := by
  have hlt : includedLen segment ≤ PCAP_RECORD_SIZE := by
    unfold includedLen
    split <;> omega
  have hmax : PCAP_RECORD_SIZE = 65536 := rfl
  rw [BitVec.toNat_ofNat, Nat.mod_eq_of_lt (by omega)]

def record (segment : Segment) (tv_sec tv_usec : U32) : Record where
  ts_sec := tv_sec
  ts_usec := tv_usec
  orig_len := packetSize segment
  data := recordData segment

theorem recordHeader_ne_nil (segment : Segment) (tv_sec tv_usec : U32) :
    recordHeader segment tv_sec tv_usec ≠ [] := List.cons_ne_nil _ _

theorem isFrame_record (segment : Segment) (tv_sec tv_usec : U32) :
    Lib.IsFrame nextRecord (record segment tv_sec tv_usec)
      (recordHeader segment tv_sec tv_usec ++ recordData segment) := by
  have hlen : (recordData segment).length = (BitVec.ofNat 32 (includedLen segment)).toNat :=
    (length_recordData segment).trans (toNat_includedLen segment).symm
  exact isFrame_pcapRecHdr tv_sec tv_usec _ hlen

-- A header whose data is missing is no record.
theorem nextRecord_recordHeader {segment : Segment} (h : includedLen segment ≠ 0)
    (tv_sec tv_usec : U32) : nextRecord (recordHeader segment tv_sec tv_usec) = none := by
  apply nextRecord_pcapRecHdr_short
  rw [toNat_includedLen]
  exact Nat.pos_of_ne_zero h

-- A global header, records, and what follows them.
theorem readPcap_flatten {records : List Record} {xs : List Bytes}
    (hxs : List.Forall₂ (Lib.IsFrame nextRecord) records xs) {y : Bytes} (hy : nextRecord y = none) :
    readPcap (pcapHdr ++ xs.flatten ++ y) = if y = [] then some records else none := by
  unfold readPcap
  rw [List.append_assoc, List.take_left' rfl, List.drop_left' rfl, if_pos rfl,
    nextRecord_framing.frames_flatten hxs hy]
  cases y <;> rfl

/-! ## The invariant -/

def sinceOpened (points : List CapturePoint) : List Bytes :=
  points.foldl (fun packets point =>
    match point with
    | .opened _ => []
    | .captured packet => packets ++ [packet]
    | .closed _ _ => packets) []

/-- The record is the packet, perhaps cut. -/
def Holds (r : Record) (packet : Bytes) : Prop :=
  r.data <+: packet ∧ r.orig_len = BitVec.ofNat 32 packet.length

-- A file that is closed has a record for every packet captured.
def Whole (before : List CapturePoint) : CapturePoint → Prop
  | .closed _ content => ∃ records, readPcap content = some records ∧
      List.Forall₂ Holds records (sinceOpened before)
  | _ => True

-- The content of an open file: the header and the records `records`.
structure Recording (records : List Record) (content : Bytes) : Prop where
  framed : ∃ xs, content = pcapHdr ++ xs.flatten ∧ List.Forall₂ (Lib.IsFrame nextRecord) records xs
  small : content.length ≤ MAX_PACP_FILE_SIZE

structure Sound (s : PacketCapture) : Prop where
  recording : ∀ path, s.mPcapFd = some path →
    ∃ records, Recording records (s.files path) ∧ List.Forall₂ Holds records (sinceOpened s.trace)
  whole : Lib.Timely Whole s.trace

/-- The step leaves no header alone: a record is begun only where its header fits below the limit,
    and a file is opened only where there was none. -/
def Fits (s : PacketCapture) : Event → Prop
  | .captureStart path => s.mPcapFd = none → ∀ p, path = some p → s.files p = []
  | .capturePacket segment _ _ => ∀ path, s.mPcapFd = some path →
      includedLen segment = 0 ∨ (s.files path).length + 16 ≤ MAX_PACP_FILE_SIZE
  | .captureStop => True

variable {s : PacketCapture} {path : String} {data : Bytes}

@[simp] theorem sinceOpened_snoc (points : List CapturePoint) (point : CapturePoint) :
    sinceOpened (points ++ [point]) =
      match point with
      | .opened _ => []
      | .captured packet => sinceOpened points ++ [packet]
      | .closed _ _ => sinceOpened points := by
  unfold sinceOpened
  rw [List.foldl_append]
  rfl

theorem Recording.readPcap {records : List Record} {content : Bytes} (h : Recording records content) :
    readPcap content = some records := by
  obtain ⟨xs, rfl, hxs⟩ := h.framed
  have hread := readPcap_flatten hxs (y := []) (by decide)
  rwa [List.append_nil, if_pos rfl] at hread

-- `writeFile` on an open file, and what makes it close.
theorem writeFile_open (hopen : s.mPcapFd = some path) (hdata : data ≠ []) :
    s.writeFile data =
      if MAX_PACP_FILE_SIZE < (s.files path ++ data).length then (s.append path data).fclose path
      else s.append path data := by
  unfold writeFile
  rw [hopen]
  simp only [if_neg hdata]
  have hcontent : (s.append path data).files path = s.files path ++ data := Function.update_self ..
  rw [hcontent]

@[simp] theorem files_append : (s.append path data).files path = s.files path ++ data :=
  Function.update_self ..

theorem writeFile_nil : s.writeFile [] = s := by
  unfold writeFile
  cases s.mPcapFd <;> rfl

-- A file of whole records may be closed or left open.
theorem sound_settled (hopen : s.mPcapFd = some path) (hwhole : Lib.Timely Whole s.trace)
    {records : List Record} {xs : List Bytes} (hcontent : s.files path = pcapHdr ++ xs.flatten)
    (hxs : List.Forall₂ (Lib.IsFrame nextRecord) records xs)
    (hholds : List.Forall₂ Holds records (sinceOpened s.trace)) :
    Sound (if MAX_PACP_FILE_SIZE < (s.files path).length then s.fclose path else s) := by
  split
  · have hread := readPcap_flatten hxs (y := []) (by decide)
    rw [List.append_nil, if_pos rfl, ← hcontent] at hread
    have hclosed : Whole s.trace (.closed path (s.files path)) := ⟨records, hread, hholds⟩
    refine ⟨fun _ hnone => ?_, hwhole.snoc hclosed⟩
    cases hnone
  next hsmall =>
    refine ⟨fun path' hopen' => ?_, hwhole⟩
    cases hopen.symm.trans hopen'
    exact ⟨records, ⟨⟨xs, hcontent, hxs⟩, Nat.le_of_not_lt hsmall⟩, hholds⟩

theorem Sound.captureStart (h : Sound s) {path : Option String}
    (hfits : s.Fits (.captureStart path)) : Sound (s.onEvent (.captureStart path)) := by
  unfold onEvent
  cases hfd : s.mPcapFd with
  | some _ => exact h
  | none =>
    cases path with
    | none => exact h
    | some path =>
      have hempty : s.files path = [] := hfits hfd path rfl
      let t : PacketCapture := emit (.opened path) { s with mPcapFd := some path }
      have ht : t.mPcapFd = some path := rfl
      have hcontent : t.files path ++ pcapHdr = pcapHdr ++ ([] : List Bytes).flatten := by
        show s.files path ++ pcapHdr = _
        rw [hempty, List.flatten_nil, List.append_nil, List.nil_append]
      have hlen : ¬ MAX_PACP_FILE_SIZE < (t.files path ++ pcapHdr).length := by
        rw [hcontent]
        decide
      show Sound (t.writeFile pcapHdr)
      rw [writeFile_open ht (by decide), if_neg hlen]
      have hwhole : Lib.Timely Whole (t.append path pcapHdr).trace := h.whole.snoc trivial
      have hsince : sinceOpened (t.append path pcapHdr).trace = [] := sinceOpened_snoc ..
      have hsettled := sound_settled (s := t.append path pcapHdr) ht hwhole
        (files_append.trans hcontent) .nil (hsince ▸ .nil)
      rwa [files_append, if_neg hlen] at hsettled

theorem Sound.capturePacket (h : Sound s) {segment : Segment} {tv_sec tv_usec : U32}
    (hfits : s.Fits (.capturePacket segment tv_sec tv_usec)) :
    Sound (s.onEvent (.capturePacket segment tv_sec tv_usec)) := by
  unfold onEvent
  cases hfd : s.mPcapFd with
  | none => exact h
  | some path =>
    obtain ⟨records, ⟨⟨xs, hcontent, hxs⟩, hsmall⟩, hholds⟩ := h.recording path hfd
    have hframe := isFrame_record segment tv_sec tv_usec
    have hxs' := List.rel_append hxs (.cons hframe .nil)
    have hrecord : Holds (record segment tv_sec tv_usec) segment.readable :=
      ⟨List.take_prefix _ _, by rw [Segment.length_readable]; rfl⟩
    -- the file with the header and the data of this packet
    have hcontent' : s.files path ++ (recordHeader segment tv_sec tv_usec ++ recordData segment) =
        pcapHdr ++ (xs ++ [recordHeader segment tv_sec tv_usec ++ recordData segment]).flatten := by
      rw [hcontent, List.flatten_append, List.flatten_singleton, List.append_assoc]
    let t : PacketCapture := s.emit (.captured segment.readable)
    have ht : t.mPcapFd = some path := hfd
    have hwhole : Lib.Timely Whole t.trace := h.whole.snoc trivial
    have hholds' : List.Forall₂ Holds (records ++ [record segment tv_sec tv_usec])
        (sinceOpened t.trace) := by
      show List.Forall₂ Holds _ (sinceOpened (s.trace ++ [.captured segment.readable]))
      rw [sinceOpened_snoc]
      exact List.rel_append hholds (.cons hrecord .nil)
    show Sound ((t.writeFile (recordHeader segment tv_sec tv_usec)).writeFile (recordData segment))
    rw [writeFile_open ht (recordHeader_ne_nil _ _ _)]
    by_cases hempty : includedLen segment = 0
    · have hdata : recordData segment = [] :=
        List.eq_nil_of_length_eq_zero ((length_recordData segment).trans hempty)
      rw [hdata, writeFile_nil]
      rw [hdata, List.append_nil] at hcontent'
      rw [hdata, List.append_nil] at hxs'
      have hsettled := sound_settled (s := t.append path (recordHeader segment tv_sec tv_usec)) ht
        hwhole (files_append.trans hcontent') hxs' hholds'
      rwa [files_append] at hsettled
    · have hroom : (s.files path).length + 16 ≤ MAX_PACP_FILE_SIZE :=
        (hfits path hfd).resolve_left hempty
      have hdata : recordData segment ≠ [] := by
        intro hnil
        rw [← length_recordData, hnil] at hempty
        exact hempty rfl
      have hlen : ¬ MAX_PACP_FILE_SIZE <
          (t.files path ++ recordHeader segment tv_sec tv_usec).length := by
        rw [List.length_append, show (recordHeader segment tv_sec tv_usec).length = 16 from rfl]
        exact Nat.not_lt.mpr hroom
      rw [if_neg hlen, writeFile_open (s := t.append path _) ht hdata]
      have hcontent'' : ((t.append path (recordHeader segment tv_sec tv_usec)).append path
          (recordData segment)).files path = pcapHdr ++
            (xs ++ [recordHeader segment tv_sec tv_usec ++ recordData segment]).flatten := by
        rw [files_append, files_append, List.append_assoc]
        exact hcontent'
      have hsettled := sound_settled (s := (t.append path (recordHeader segment tv_sec tv_usec)).append
        path (recordData segment)) ht hwhole hcontent'' hxs' hholds'
      rwa [files_append] at hsettled

theorem Sound.captureStop (h : Sound s) : Sound (s.onEvent .captureStop) := by
  unfold onEvent
  cases hfd : s.mPcapFd with
  | none => exact h
  | some path =>
    obtain ⟨records, hrecording, hholds⟩ := h.recording path hfd
    have hclosed : Whole s.trace (.closed path (s.files path)) :=
      ⟨records, hrecording.readPcap, hholds⟩
    refine ⟨fun _ hnone => ?_, h.whole.snoc hclosed⟩
    cases hnone

theorem Sound.onEvent (h : Sound s) {e : Event} (hfits : s.Fits e) : Sound (s.onEvent e) := by
  cases e with
  | captureStart path => exact h.captureStart hfits
  | capturePacket segment tv_sec tv_usec => exact h.capturePacket hfits
  | captureStop => exact h.captureStop

theorem run_eq (s : PacketCapture) (es : List Event) :
    Lib.run step s es = some (es.foldl PacketCapture.onEvent s) := by
  induction es generalizing s with
  | nil => rfl
  | cons e es ih => exact ih (s.onEvent e)

structure Idle (s : PacketCapture) : Prop where
  shut : s.mPcapFd = none
  untraced : s.trace = []

theorem capture_whole {s' : PacketCapture} {es : List Event} (hidle : s.Idle)
    (hfits : Lib.Along step Fits s es) (hrun : Lib.run step s es = some s') :
    ∀ before path content after, s'.trace = before ++ .closed path content :: after →
      ∃ records, readPcap content = some records ∧
        List.Forall₂ Holds records (sinceOpened before) := by
  have hstart : Sound s := by
    refine ⟨fun path hopen => ?_, ?_⟩
    · cases hidle.shut.symm.trans hopen
    · rw [hidle.untraced]
      exact Lib.timely_nil
  have hsound : Sound s' := Lib.Along.invariant Sound
    (fun s e t hs he ht => by cases ht; exact hs.onEvent he) hstart hfits hrun
  exact fun before path content after hsplit => hsound.whole before _ after hsplit

def sampleCapture : List Event :=
  [.captureStart (some "0511"), .capturePacket (Segment.ofBytes [1, 2, 3]) 7 8,
    .capturePacket (Segment.ofBytes []) 7 9, .captureStop]

theorem capture_whole_sample :
    ∃ s', Lib.run step {} sampleCapture = some s' ∧
      (∃ content, s'.trace.getLast? = some (.closed "0511" content) ∧
        readPcap content = some [⟨7, 8, 3, [1, 2, 3]⟩, ⟨7, 9, 0, []⟩]) ∧
      ∀ before path content after, s'.trace = before ++ .closed path content :: after →
        ∃ records, readPcap content = some records ∧
          List.Forall₂ Holds records (sinceOpened before) := by
  have hidle : Idle {} := ⟨rfl, rfl⟩
  have hrun := run_eq {} sampleCapture
  have hfits : Lib.Along step Fits {} sampleCapture := by
    refine ⟨fun _ p hp => rfl, fun path hpath => ?_, fun path hpath => ?_, trivial, trivial⟩
    · cases hpath
      exact .inr (by decide)
    · exact .inl rfl
  exact ⟨_, hrun, ⟨_, rfl, by decide⟩, capture_whole hidle hfits hrun⟩

/-! ## The limit inside a record -/

-- A header that crosses the limit closes the file in front of its data.
theorem Sound.cut (h : Sound s) (hopen : s.mPcapFd = some path) {segment : Segment}
    (hdata : includedLen segment ≠ 0) (hlimit : MAX_PACP_FILE_SIZE < (s.files path).length + 16)
    (tv_sec tv_usec : U32) :
    ∃ before content, (s.onEvent (.capturePacket segment tv_sec tv_usec)).trace =
        before ++ [.closed path content] ∧ readPcap content = none := by
  obtain ⟨records, ⟨⟨xs, hcontent, hxs⟩, -⟩, -⟩ := h.recording path hopen
  let t : PacketCapture := s.emit (.captured segment.readable)
  have ht : t.mPcapFd = some path := hopen
  have hlen : MAX_PACP_FILE_SIZE < (t.files path ++ recordHeader segment tv_sec tv_usec).length := by
    rw [List.length_append, show (recordHeader segment tv_sec tv_usec).length = 16 from rfl]
    exact hlimit
  have hread := readPcap_flatten hxs (nextRecord_recordHeader hdata tv_sec tv_usec)
  rw [if_neg (recordHeader_ne_nil _ _ _), ← hcontent] at hread
  refine ⟨t.trace, _, ?_, hread⟩
  unfold PacketCapture.onEvent
  rw [hopen]
  show ((t.writeFile (recordHeader segment tv_sec tv_usec)).writeFile (recordData segment)).trace = _
  rw [writeFile_open ht (recordHeader_ne_nil _ _ _), if_pos hlen]
  -- the file is closed: the data goes nowhere
  show t.trace ++ [.closed path ((t.append path _).files path)] = _
  rw [files_append]
  rfl

theorem capturePacket_fits (hopen : s.mPcapFd = some path) {segment : Segment}
    (hdata : includedLen segment ≠ 0)
    (hfits : (s.files path).length + 16 + includedLen segment ≤ MAX_PACP_FILE_SIZE)
    (tv_sec tv_usec : U32) :
    (s.onEvent (.capturePacket segment tv_sec tv_usec)).mPcapFd = some path ∧
      ((s.onEvent (.capturePacket segment tv_sec tv_usec)).files path).length =
        (s.files path).length + 16 + includedLen segment := by
  let t : PacketCapture := s.emit (.captured segment.readable)
  have ht : t.mPcapFd = some path := hopen
  have hheader : (recordHeader segment tv_sec tv_usec).length = 16 := rfl
  have hlen := length_recordData segment
  have hnil : recordData segment ≠ [] := by
    intro hnil
    rw [← length_recordData, hnil] at hdata
    exact hdata rfl
  have hfirst : ¬ MAX_PACP_FILE_SIZE <
      (t.files path ++ recordHeader segment tv_sec tv_usec).length := by
    rw [List.length_append, hheader]
    show ¬ MAX_PACP_FILE_SIZE < (s.files path).length + 16
    omega
  have hcontent : (t.append path (recordHeader segment tv_sec tv_usec)).files path =
      s.files path ++ recordHeader segment tv_sec tv_usec := files_append
  have hsecond : ¬ MAX_PACP_FILE_SIZE <
      ((t.append path (recordHeader segment tv_sec tv_usec)).files path ++
        recordData segment).length := by
    rw [hcontent, List.length_append, List.length_append, hheader, hlen]
    omega
  unfold PacketCapture.onEvent
  rw [hopen]
  show ((t.writeFile (recordHeader segment tv_sec tv_usec)).writeFile
      (recordData segment)).mPcapFd = _ ∧
    (((t.writeFile (recordHeader segment tv_sec tv_usec)).writeFile
      (recordData segment)).files path).length = _
  rw [writeFile_open ht (recordHeader_ne_nil _ _ _), if_neg hfirst,
    writeFile_open (s := t.append path _) ht hnil, if_neg hsecond]
  refine ⟨ht, ?_⟩
  rw [files_append, hcontent, List.length_append, List.length_append, hheader, hlen]

def zeros (n : Nat) : Event := .capturePacket (Segment.ofBytes (List.replicate n 0)) 0 0

theorem includedLen_zeros {n : Nat} (h : n ≤ PCAP_RECORD_SIZE) :
    includedLen (Segment.ofBytes (List.replicate n 0)) = n := by
  have hmax : PCAP_RECORD_SIZE = 65536 := rfl
  have hsize : (packetSize (Segment.ofBytes (List.replicate n 0))).toNat = n := by
    unfold packetSize
    rw [Segment.size_ofBytes, List.length_replicate, BitVec.toNat_ofNat, Nat.mod_eq_of_lt (by omega)]
  unfold includedLen
  rw [hsize]
  split <;> omega

-- Packets of `n` bytes, as many as fit.
theorem captures_fit {n : Nat} (hn : 0 < n) (hmax : n ≤ PCAP_RECORD_SIZE) (count : Nat)
    (hopen : s.mPcapFd = some path)
    (hfits : (s.files path).length + count * (16 + n) ≤ MAX_PACP_FILE_SIZE) (hsound : Sound s) :
    ((List.replicate count (zeros n)).foldl PacketCapture.onEvent s).mPcapFd = some path ∧
      (((List.replicate count (zeros n)).foldl PacketCapture.onEvent s).files path).length =
        (s.files path).length + count * (16 + n) ∧
      Sound ((List.replicate count (zeros n)).foldl PacketCapture.onEvent s) := by
  induction count generalizing s with
  | zero => exact ⟨hopen, by simp, hsound⟩
  | succ count ih =>
    have hsize := includedLen_zeros hmax
    have hnext : (s.files path).length + 16 + n ≤ MAX_PACP_FILE_SIZE := by
      rw [Nat.succ_mul] at hfits
      omega
    obtain ⟨hopen', hlen'⟩ := capturePacket_fits hopen (by rw [hsize]; omega)
      (by rw [hsize]; exact hnext) 0 0
    rw [hsize] at hlen'
    have hsound' : Sound (s.onEvent (zeros n)) := by
      refine hsound.capturePacket fun path' hopen'' => .inr ?_
      cases hopen.symm.trans hopen''
      omega
    have hrest : ((s.onEvent (zeros n)).files path).length + count * (16 + n) ≤
        MAX_PACP_FILE_SIZE := by
      rw [Nat.succ_mul] at hfits
      show ((s.onEvent (.capturePacket _ 0 0)).files path).length + count * (16 + n) ≤ _
      omega
    obtain ⟨hopen'', hlen'', hsound''⟩ := ih hopen' hrest hsound'
    refine ⟨hopen'', hlen''.trans ?_, hsound''⟩
    show ((s.onEvent (.capturePacket _ 0 0)).files path).length + count * (16 + n) = _
    rw [hlen', Nat.succ_mul]
    omega

-- Packets that end at the limit with a whole record, and one packet more.
def overflow : List Event := List.replicate 1023 (zeros 65536) ++ [zeros 49128, zeros 1]

theorem overflow_cut (hopen : s.mPcapFd = some path) (hsound : Sound s)
    (hlen : (s.files path).length = 24) :
    ∃ before content, (overflow.foldl PacketCapture.onEvent s).trace =
      before ++ [.closed path content] ∧ readPcap content = none := by
  have hmax : MAX_PACP_FILE_SIZE = 67108864 := rfl
  have hfits : (s.files path).length + 1023 * (16 + 65536) ≤ MAX_PACP_FILE_SIZE := by
    rw [hlen, hmax]
    decide
  have hsize : 65536 ≤ PCAP_RECORD_SIZE := Nat.le_refl 65536
  obtain ⟨hopen₁, hlen₁, hsound₁⟩ := captures_fit (by decide) hsize 1023 hopen hfits hsound
  unfold overflow
  rw [List.foldl_append]
  -- what follows depends on the length of the file only
  generalize (List.replicate 1023 (zeros 65536)).foldl PacketCapture.onEvent s = full at *
  have hfull : (full.files path).length + 1 * (16 + 49128) = MAX_PACP_FILE_SIZE := by
    rw [hlen₁, hlen, hmax]
  obtain ⟨hopen₂, hlen₂, hsound₂⟩ := captures_fit (n := 49128) (by decide)
    (Nat.le_trans (by decide) hsize) 1 hopen₁ (Nat.le_of_eq hfull) hsound₁
  rw [hfull] at hlen₂
  have hone : includedLen (Segment.ofBytes (List.replicate 1 0)) = 1 :=
    includedLen_zeros (Nat.le_trans (by decide) hsize)
  have hlimit : MAX_PACP_FILE_SIZE <
      (((List.replicate 1 (zeros 49128)).foldl PacketCapture.onEvent full).files path).length + 16 := by
    rw [hlen₂]
    exact Nat.lt_add_of_pos_right (by decide)
  exact hsound₂.cut hopen₂ (by rw [hone]; decide) hlimit 0 0

theorem capture_cut :
    ∃ s', Lib.run step {} (.captureStart (some "0511") :: overflow) = some s' ∧
      ∃ before path content, s'.trace = before ++ [.closed path content] ∧
        readPcap content = none := by
  have hsound : Sound (PacketCapture.onEvent {} (.captureStart (some "0511"))) := by
    have hidle : Sound {} := ⟨fun _ hnone => (by cases hnone), Lib.timely_nil⟩
    exact hidle.captureStart fun _ p _ => rfl
  have hrun := run_eq {} (.captureStart (some "0511") :: overflow)
  rw [List.foldl_cons] at hrun
  obtain ⟨before, content, htrace, hread⟩ := overflow_cut rfl hsound rfl
  exact ⟨_, hrun, before, "0511", content, htrace, hread⟩

end PacketCapture

end NetCore
