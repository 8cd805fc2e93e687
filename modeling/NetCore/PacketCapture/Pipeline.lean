import NetCore.EventDispatcher.Delivery
import NetCore.PacketCapture

/-!
# `PacketCapture` and its thread

`start`, `write` and `stop` come from the threads of the router and only leave an event with the
dispatcher of the capture; the file is written where its thread calls `onEvent`.  The capture is the
one that would have got the same calls directly, some of them still to come, and when it is done its
file holds the packets that were handed to `write`.
-/

namespace NetCore

def CAPTURE_START : Int := 1010
def CAPTURE_PACKET : Int := 1011
def CAPTURE_STOP : Int := 1012

/-- A `PacketCapture` with its dispatcher, whose only handler it is; the data of an event is the
    segment with the packet. -/
structure CaptureThread where
  mDispatcher : EventDispatcher (Option Segment) Unit
  capture : PacketCapture := {}

namespace CaptureThread

open EventDispatcher (Event Point)

def init : CaptureThread where
  mDispatcher :=
    (((({} : EventDispatcher (Option Segment) Unit).registerEvent CAPTURE_START (some ())).2
      |>.registerEvent CAPTURE_STOP (some ())).2
      |>.registerEvent CAPTURE_PACKET (some ())).2

def start (t : CaptureThread) : CaptureThread :=
  { t with mDispatcher := (t.mDispatcher.dispatch { id := CAPTURE_START, data := none }).2 }

def stop (t : CaptureThread) : CaptureThread :=
  { t with mDispatcher := (t.mDispatcher.dispatch { id := CAPTURE_STOP, data := none }).2 }

def packetOf (data : Bytes) : Segment := (Segment.new data.length).write data

def write (data : Bytes) (t : CaptureThread) : CaptureThread :=
  if data = [] then t
  else
    { t with
      mDispatcher :=
        (t.mDispatcher.dispatch { id := CAPTURE_PACKET, data := some (packetOf data) }).2 }

-- The branches of `onEvent`; the path and the clock are read there.
def handling (event : Event (Option Segment)) (path : Option String) (tv_sec tv_usec : U32) :
    Option PacketCapture.Event :=
  if event.id = CAPTURE_START then some (.captureStart path)
  else if event.id = CAPTURE_STOP then some .captureStop
  else if event.id = CAPTURE_PACKET then
    event.data.map fun segment => .capturePacket segment tv_sec tv_usec
  else none

/-- The thread goes on, with `onEvent` where the dispatcher calls it. -/
def proceed (path : Option String) (tv_sec tv_usec : U32) (t : CaptureThread) : CaptureThread where
  mDispatcher := t.mDispatcher.proceed
  capture :=
    match t.mDispatcher.proceed.trace.drop t.mDispatcher.trace.length with
    | [.onEvent _ event] =>
        match handling event path tv_sec tv_usec with
        | some e => t.capture.onEvent e
        | none => t.capture
    | _ => t.capture

inductive Move where
  | start
  | write (data : Bytes)
  | stop
  | proceed (path : Option String) (tv_sec tv_usec : U32)

def step (t : CaptureThread) : Move → Option CaptureThread
  | .start => some t.start
  | .write data => some (t.write data)
  | .stop => some t.stop
  | .proceed path tv_sec tv_usec => some (t.proceed path tv_sec tv_usec)

/-! ## The capture lags behind the calls -/

def Move.events : Move → List (Event (Option Segment))
  | .start => [{ id := CAPTURE_START, data := none }]
  | .write data => if data = [] then [] else [{ id := CAPTURE_PACKET, data := some (packetOf data) }]
  | .stop => [{ id := CAPTURE_STOP, data := none }]
  | .proceed _ _ _ => []

def captureIds : List Int := [CAPTURE_START, CAPTURE_STOP, CAPTURE_PACKET]

/-- The path a step of the thread would open. -/
def Move.Finds (paths : Option String → Prop) : Move → Prop
  | .proceed path _ _ => paths path
  | _ => True

-- `e` is what the capture does on an event, at some time.
def Handles (paths : Option String → Prop) (event : Event (Option Segment))
    (e : PacketCapture.Event) : Prop :=
  ∃ path tv_sec tv_usec, paths path ∧ handling event path tv_sec tv_usec = some e

-- The thread has got a part of `events`, in their order, and the capture has done them.
structure Lags (paths : Option String → Prop) (events : List (Event (Option Segment)))
    (t : CaptureThread) : Prop where
  sound : t.mDispatcher.Sound
  place : t.mDispatcher.InPlace
  registered : t.mDispatcher.Registered () captureIds
  conserved : t.mDispatcher.received () captureIds ++ t.mDispatcher.due () captureIds = events
  handled : ∃ done, List.Forall₂ (Handles paths) (t.mDispatcher.received () captureIds) done ∧
    t.capture = done.foldl PacketCapture.onEvent {}

-- An event of the calls: its segment is there.
def Proper (event : Event (Option Segment)) : Prop :=
  event.id ∈ captureIds ∧ (event.id = CAPTURE_PACKET → event.data.isSome)

theorem Move.events_proper (m : Move) : ∀ event ∈ m.events, Proper event := by
  cases m with
  | start => simp [events, Proper, captureIds, CAPTURE_START, CAPTURE_PACKET]
  | write data =>
    show ∀ event ∈ if data = [] then [] else [_], Proper event
    split
    · exact List.forall_mem_nil _
    · simp [Proper, captureIds]
  | stop => simp [events, Proper, captureIds, CAPTURE_STOP, CAPTURE_PACKET]
  | proceed path tv_sec tv_usec => exact List.forall_mem_nil _

theorem handling_proper {event : Event (Option Segment)} (h : Proper event) (path : Option String)
    (tv_sec tv_usec : U32) : ∃ e, handling event path tv_sec tv_usec = some e := by
  unfold handling
  split
  · exact ⟨_, rfl⟩
  split
  · exact ⟨_, rfl⟩
  next hstart hstop =>
    have hid : event.id = CAPTURE_PACKET := by
      simpa [captureIds, hstart, hstop] using h.1
    obtain ⟨segment, hsegment⟩ := Option.isSome_iff_exists.mp (h.2 hid)
    rw [if_pos hid, hsegment]
    exact ⟨_, rfl⟩

theorem lags_init (paths : Option String → Prop) : Lags paths [] init := by
  have hstart : EventDispatcher.Started ({} : EventDispatcher (Option Segment) Unit) :=
    ⟨rfl, rfl, rfl, rfl⟩
  refine ⟨?_, ?_, ?_, rfl, [], .nil, rfl⟩
  · exact ((hstart.sound.afterMove (.registerEvent CAPTURE_START (some ()))).afterMove
      (.registerEvent CAPTURE_STOP (some ()))).afterMove (.registerEvent CAPTURE_PACKET (some ()))
  · exact EventDispatcher.inPlace_of_no_spot rfl fun _ hsame => by cases hsame
  · unfold EventDispatcher.Registered
    decide

variable {t t' : CaptureThread} {paths : Option String → Prop}
  {events : List (Event (Option Segment))}

-- A call waits behind those before it.
theorem Lags.dispatch (h : Lags paths events t) {event : Event (Option Segment)}
    (hid : event.id ∈ captureIds) :
    Lags paths (events ++ [event]) { t with mDispatcher := (t.mDispatcher.dispatch event).2 } where
  sound := h.sound.afterMove (.dispatch event)
  place := h.place.afterMove (m := .dispatch event) id
  registered := h.registered.afterMove (m := .dispatch event) id
  conserved := by
    have hgrown := EventDispatcher.move_delivers h.sound h.place h.registered (m := .dispatch event)
      id id
    have hkept : [event].filter (fun event => decide (event.id ∈ captureIds)) = [event] := by
      rw [List.filter_cons_of_pos (by simpa using hid), List.filter_nil]
    rw [h.conserved] at hgrown
    exact hgrown.trans (congrArg (events ++ ·) hkept)
  handled := h.handled

theorem handling_other {event : Event (Option Segment)} (h : event.id ∉ captureIds)
    (path : Option String) (tv_sec tv_usec : U32) : handling event path tv_sec tv_usec = none := by
  simp only [captureIds, List.mem_cons, List.not_mem_nil, or_false, not_or] at h
  unfold handling
  rw [if_neg h.1, if_neg h.2.1, if_neg h.2.2]

theorem capture_called (path : Option String) (tv_sec tv_usec : U32)
    {handler : Unit} {event : Event (Option Segment)}
    (htrace : t.mDispatcher.proceed.trace = t.mDispatcher.trace ++ [.onEvent handler event]) :
    (t.proceed path tv_sec tv_usec).capture =
      ((handling event path tv_sec tv_usec).map t.capture.onEvent).getD t.capture := by
  unfold proceed
  simp only [htrace, List.drop_left]
  split
  next heq => rw [heq]; rfl
  next heq => rw [heq]; rfl

theorem capture_uncalled (path : Option String) (tv_sec tv_usec : U32)
    {points : List (Point (Option Segment) Unit)}
    (htrace : t.mDispatcher.proceed.trace = t.mDispatcher.trace ++ points)
    (hpoints : ∀ handler event, .onEvent handler event ∉ points) :
    (t.proceed path tv_sec tv_usec).capture = t.capture := by
  unfold proceed
  simp only [htrace, List.drop_left]
  split
  next event => exact absurd List.mem_cons_self (hpoints _ event)
  · rfl

-- A step of the thread: an event that reaches the capture is done there.
theorem Lags.proceed (h : Lags paths events t) (hproper : ∀ event ∈ events, Proper event)
    {path : Option String} (hpath : paths path) (tv_sec tv_usec : U32) :
    Lags paths events (t.proceed path tv_sec tv_usec) := by
  have hconserved : t.mDispatcher.proceed.received () captureIds ++
      t.mDispatcher.proceed.due () captureIds = events :=
    (EventDispatcher.proceed_delivers h.sound h.place h.registered).trans h.conserved
  refine ⟨h.sound.afterMove .proceed, h.place.proceed, ?_, hconserved, ?_⟩
  · exact h.registered.congr (EventDispatcher.proceed_handlers t.mDispatcher).1
  obtain ⟨done, hdone, hcapture⟩ := h.handled
  show ∃ done, List.Forall₂ (Handles paths) (t.mDispatcher.proceed.received () captureIds) done ∧ _
  rcases EventDispatcher.proceed_points h.place with ⟨handler, event, htrace⟩ | ⟨points, htrace, hpoints⟩
  · have hreceived : t.mDispatcher.proceed.received () captureIds =
        t.mDispatcher.received () captureIds ++ _ := EventDispatcher.received_append htrace
    rw [capture_called path tv_sec tv_usec htrace]
    by_cases hid : event.id ∈ captureIds
    · have hgot : t.mDispatcher.proceed.received () captureIds =
          t.mDispatcher.received () captureIds ++ [event] := by
        rw [hreceived]
        simp [Point.gotBy, hid]
      -- the event is one of the calls
      have hmem : event ∈ events := by
        rw [← hconserved, hgot]
        simp
      obtain ⟨e, he⟩ := handling_proper (hproper event hmem) path tv_sec tv_usec
      refine ⟨done ++ [e], ?_, ?_⟩
      · rw [hgot]
        exact List.rel_append hdone (.cons ⟨path, tv_sec, tv_usec, hpath, he⟩ .nil)
      · rw [he, List.foldl_append, ← hcapture]
        rfl
    · refine ⟨done, ?_, ?_⟩
      · rw [hreceived]
        simpa [Point.gotBy, hid] using hdone
      · rw [handling_other hid]
        exact hcapture
  · have hgot : t.mDispatcher.proceed.received () captureIds =
        t.mDispatcher.received () captureIds := by
      rw [EventDispatcher.received_append htrace, List.flatMap_eq_nil_iff.mpr, List.append_nil]
      intro point hpoint
      cases point with
      | onEvent handler event => exact absurd hpoint (hpoints handler event)
      | _ => rfl
    rw [capture_uncalled path tv_sec tv_usec htrace hpoints, hgot]
    exact ⟨done, hdone, hcapture⟩

theorem Lags.step (h : Lags paths events t) (hproper : ∀ event ∈ events, Proper event) {m : Move}
    (hfinds : m.Finds paths) (hstep : t.step m = some t') : Lags paths (events ++ m.events) t' := by
  cases m with
  | start =>
    cases hstep
    exact h.dispatch (by decide)
  | write data =>
    cases hstep
    show Lags paths (events ++ if data = [] then [] else [_]) (t.write data)
    unfold write
    split
    · rw [List.append_nil]
      exact h
    · have hid : CAPTURE_PACKET ∈ captureIds := by decide
      exact h.dispatch hid
  | stop =>
    cases hstep
    exact h.dispatch (by decide)
  | proceed path tv_sec tv_usec =>
    cases hstep
    show Lags paths (events ++ []) _
    rw [List.append_nil]
    exact h.proceed hproper hfinds tv_sec tv_usec

theorem Lags.run {ms : List Move} (hfinds : ∀ m ∈ ms, m.Finds paths)
    (hrun : Lib.run CaptureThread.step init ms = some t) : Lags paths (ms.flatMap Move.events) t := by
  have halong : Lib.Along CaptureThread.step (fun _ m => m.Finds paths) init ms :=
    .of_forall (fun m hm _ => hfinds m hm) init
  have hinvariant : (∀ event ∈ ms.flatMap Move.events, Proper event) ∧
      Lags paths (ms.flatMap Move.events) t := by
    refine Lib.Along.history (fun past t => (∀ event ∈ past.flatMap Move.events, Proper event) ∧
      Lags paths (past.flatMap Move.events) t) ?_ [] ⟨List.forall_mem_nil _, lags_init paths⟩ halong
      hrun
    rintro past t m t' ⟨hproper, hlags⟩ hfinds hstep
    rw [List.flatMap_append, List.flatMap_singleton]
    exact ⟨List.forall_mem_append.mpr ⟨hproper, m.events_proper⟩, hlags.step hproper hfinds hstep⟩
  exact hinvariant.2

end CaptureThread

/-! ## What the file holds -/

namespace PacketCapture

def recordBytes (segment : Segment) (tv_sec tv_usec : U32) : Bytes :=
  recordHeader segment tv_sec tv_usec ++ recordData segment

theorem length_recordBytes (segment : Segment) (tv_sec tv_usec : U32) :
    (recordBytes segment tv_sec tv_usec).length = 16 + includedLen segment := by
  unfold recordBytes
  rw [List.length_append, length_recordData]
  rfl

variable {s : PacketCapture} {path : String}

theorem captureStart_opens (hshut : s.mPcapFd = none) (hempty : s.files path = []) :
    (s.onEvent (.captureStart (some path))).mPcapFd = some path ∧
      (s.onEvent (.captureStart (some path))).files path = pcapHdr := by
  let t : PacketCapture := emit (.opened path) { s with mPcapFd := some path }
  have ht : t.mPcapFd = some path := rfl
  have hcontent : t.files path ++ pcapHdr = pcapHdr := by
    show s.files path ++ pcapHdr = _
    rw [hempty, List.nil_append]
  have hsmall : ¬ MAX_PACP_FILE_SIZE < (t.files path ++ pcapHdr).length := by
    rw [hcontent]
    decide
  unfold PacketCapture.onEvent
  rw [hshut]
  show (t.writeFile pcapHdr).mPcapFd = _ ∧ (t.writeFile pcapHdr).files path = _
  rw [writeFile_open ht (by decide), if_neg hsmall]
  exact ⟨rfl, files_append.trans hcontent⟩

-- A packet that does not cross the limit is appended whole.
theorem capturePacket_appends (hopen : s.mPcapFd = some path) {segment : Segment}
    (hdata : includedLen segment ≠ 0)
    (hfits : (s.files path).length + (16 + includedLen segment) ≤ MAX_PACP_FILE_SIZE)
    (tv_sec tv_usec : U32) :
    (s.onEvent (.capturePacket segment tv_sec tv_usec)).mPcapFd = some path ∧
      (s.onEvent (.capturePacket segment tv_sec tv_usec)).files path =
        s.files path ++ recordBytes segment tv_sec tv_usec := by
  let t : PacketCapture := s.emit (.captured segment.readable)
  have ht : t.mPcapFd = some path := hopen
  have hlength := length_recordBytes segment tv_sec tv_usec
  have hnil : recordData segment ≠ [] := by
    intro hnil
    rw [← length_recordData, hnil] at hdata
    exact hdata rfl
  have hfirst : ¬ MAX_PACP_FILE_SIZE <
      (t.files path ++ recordHeader segment tv_sec tv_usec).length := by
    rw [List.length_append]
    show ¬ MAX_PACP_FILE_SIZE < (s.files path).length + 16
    omega
  have hcontent : (t.append path (recordHeader segment tv_sec tv_usec)).files path =
      s.files path ++ recordHeader segment tv_sec tv_usec := files_append
  have hsecond : ¬ MAX_PACP_FILE_SIZE <
      ((t.append path (recordHeader segment tv_sec tv_usec)).files path ++
        recordData segment).length := by
    rw [hcontent, List.append_assoc, List.length_append]
    show ¬ MAX_PACP_FILE_SIZE <
      (s.files path).length + (recordBytes segment tv_sec tv_usec).length
    omega
  unfold PacketCapture.onEvent
  rw [hopen]
  show ((t.writeFile (recordHeader segment tv_sec tv_usec)).writeFile
      (recordData segment)).mPcapFd = _ ∧
    ((t.writeFile (recordHeader segment tv_sec tv_usec)).writeFile
      (recordData segment)).files path = _
  rw [writeFile_open ht (recordHeader_ne_nil _ _ _), if_neg hfirst,
    writeFile_open (s := t.append path _) ht hnil, if_neg hsecond]
  refine ⟨ht, ?_⟩
  rw [files_append, hcontent, List.append_assoc]
  rfl

-- Packets in a row.
theorem capturePackets_append {done : List Event} {segments : List Segment}
    (hdone : List.Forall₂ (fun segment e => ∃ tv_sec tv_usec, e = .capturePacket segment tv_sec tv_usec)
      segments done)
    (hdata : ∀ segment ∈ segments, includedLen segment ≠ 0) (hopen : s.mPcapFd = some path)
    (hfits : (s.files path).length + (segments.map fun segment => 16 + includedLen segment).sum ≤
      MAX_PACP_FILE_SIZE) :
    (done.foldl onEvent s).mPcapFd = some path ∧
      ∃ records xs, (done.foldl onEvent s).files path = s.files path ++ xs.flatten ∧
        List.Forall₂ (Lib.IsFrame nextRecord) records xs ∧
        records.map Record.data = segments.map recordData := by
  induction hdone generalizing s with
  | nil => exact ⟨hopen, [], [], (List.append_nil _).symm, .nil, rfl⟩
  | @cons segment e segments done he _ ih =>
    obtain ⟨tv_sec, tv_usec, rfl⟩ := he
    obtain ⟨hfirst, hrest⟩ := List.forall_mem_cons.mp hdata
    rw [List.map_cons, List.sum_cons] at hfits
    obtain ⟨hopen', hfiles⟩ := capturePacket_appends hopen hfirst (by omega) tv_sec tv_usec
    have hfits' : ((s.onEvent (.capturePacket segment tv_sec tv_usec)).files path).length +
        (segments.map fun segment => 16 + includedLen segment).sum ≤ MAX_PACP_FILE_SIZE := by
      rw [hfiles, List.length_append, length_recordBytes]
      omega
    obtain ⟨hopen'', records, xs, hcontent, hxs, hrecords⟩ := ih hrest hopen' hfits'
    refine ⟨hopen'', record segment tv_sec tv_usec :: records,
      recordBytes segment tv_sec tv_usec :: xs, ?_, .cons (isFrame_record _ _ _) hxs, ?_⟩
    · rw [List.foldl_cons, hcontent, hfiles, List.append_assoc]
      rfl
    · rw [List.map_cons, List.map_cons, hrecords]
      rfl

end PacketCapture

namespace CaptureThread

open PacketCapture (readPcap includedLen packetSize recordData Record)

def Move.isCall : Move → Bool
  | .proceed _ _ _ => false
  | _ => true

theorem events_calls (ms : List Move) :
    ms.flatMap Move.events = (ms.filter Move.isCall).flatMap Move.events := by
  induction ms with
  | nil => rfl
  | cons m ms ih =>
    rw [List.flatMap_cons, List.filter_cons, ih]
    cases m <;> rfl

-- The packet is in its segment, and as much of it goes to the file.
theorem packetOf_data {data : Bytes} (hpos : data ≠ []) (hsize : data.length ≤ PCAP_RECORD_SIZE) :
    includedLen (packetOf data) = data.length ∧ recordData (packetOf data) = data := by
  have hmax : PCAP_RECORD_SIZE = 65536 := rfl
  have hlen := List.length_pos_of_ne_nil hpos
  have hremain : (Segment.new data.length).remain = data.length := by
    have hnew : (Segment.new data.length).mData = List.replicate data.length 0 := if_neg (by omega)
    rw [Segment.remain_eq]
    show (Segment.new data.length).mData.length - 0 = data.length
    rw [hnew, List.length_replicate, Nat.sub_zero]
  have hreadable : (packetOf data).readable = data :=
    Segment.readable_write_of_le (Nat.le_of_eq hremain.symm)
  have hpacket : (packetSize (packetOf data)).toNat = data.length := by
    unfold packetSize
    rw [← Segment.length_readable, hreadable, BitVec.toNat_ofNat, Nat.mod_eq_of_lt (by omega)]
  have hincluded : includedLen (packetOf data) = data.length := by
    unfold includedLen
    rw [hpacket]
    split <;> omega
  refine ⟨hincluded, ?_⟩
  unfold recordData
  rw [hincluded, hreadable, List.take_length]

theorem handles_start {path : String} {e : PacketCapture.Event} {data : Option Segment}
    (h : Handles (· = some path) { id := CAPTURE_START, data } e) : e = .captureStart (some path) := by
  obtain ⟨_, tv_sec, tv_usec, rfl, he⟩ := h
  cases he
  rfl

theorem handles_stop {e : PacketCapture.Event} {data : Option Segment}
    (h : Handles paths { id := CAPTURE_STOP, data } e) : e = .captureStop := by
  obtain ⟨_, tv_sec, tv_usec, -, he⟩ := h
  cases he
  rfl

theorem handles_packet {e : PacketCapture.Event} {segment : Segment}
    (h : Handles paths { id := CAPTURE_PACKET, data := some segment } e) :
    ∃ tv_sec tv_usec, e = .capturePacket segment tv_sec tv_usec := by
  obtain ⟨_, tv_sec, tv_usec, -, he⟩ := h
  cases he
  exact ⟨tv_sec, tv_usec, rfl⟩

-- The segments of the packets a row of calls writes.
theorem handles_packets {packets : List Bytes} (hne : ∀ data ∈ packets, data ≠ [])
    {done : List PacketCapture.Event}
    (h : List.Forall₂ (Handles paths) ((packets.map Move.write).flatMap Move.events) done) :
    List.Forall₂ (fun segment e => ∃ tv_sec tv_usec, e = .capturePacket segment tv_sec tv_usec)
      (packets.map packetOf) done := by
  induction packets generalizing done with
  | nil =>
    cases h
    exact .nil
  | cons data packets ih =>
    obtain ⟨hdata, hrest⟩ := List.forall_mem_cons.mp hne
    have hevents : (Move.write data).events = [{ id := CAPTURE_PACKET, data := some (packetOf data) }] :=
      if_neg hdata
    rw [List.map_cons, List.flatMap_cons, hevents] at h
    cases h with
    | cons hfirst hmore => exact .cons (handles_packet hfirst) (ih hrest hmore)

-- The capture has done the start, the packets and the stop.
theorem Lags.calls_done {packets : List Bytes} {path : String}
    (hne : ∀ data ∈ packets, data ≠ [])
    (h : Lags (· = some path)
      ((Move.start :: packets.map Move.write ++ [Move.stop]).flatMap Move.events) t)
    (hdone : t.mDispatcher.due () captureIds = []) :
    ∃ done, List.Forall₂
        (fun segment e => ∃ tv_sec tv_usec, e = .capturePacket segment tv_sec tv_usec)
        (packets.map packetOf) done ∧
      t.capture =
        (done.foldl PacketCapture.onEvent
          (PacketCapture.onEvent {} (.captureStart (some path)))).onEvent .captureStop := by
  obtain ⟨done, hhandled, hcapture⟩ := h.handled
  have hgot := h.conserved
  rw [hdone, List.append_nil] at hgot
  have hevents : (Move.start :: packets.map Move.write ++ [Move.stop]).flatMap Move.events =
      { id := CAPTURE_START, data := none } :: ((packets.map Move.write).flatMap Move.events ++
        [{ id := CAPTURE_STOP, data := none }]) := by
    rw [List.cons_append, List.flatMap_cons, List.flatMap_append, List.flatMap_singleton]
    rfl
  rw [hgot, hevents] at hhandled
  obtain ⟨first, later, hfirst, hlater, rfl⟩ := List.forall₂_cons_left_iff.mp hhandled
  have hwritten := List.forall₂_take_append _ _ _ hlater.flip
  have hlast := List.forall₂_drop_append _ _ _ hlater.flip
  generalize ((packets.map Move.write).flatMap Move.events).length = n at hwritten hlast
  obtain ⟨last, rest, hstop, hnil, hdrop⟩ := List.forall₂_cons_right_iff.mp hlast
  cases hnil
  refine ⟨later.take n, handles_packets hne hwritten.flip, ?_⟩
  rw [hcapture, handles_start hfirst, List.foldl_cons]
  conv_lhs => rw [← List.take_append_drop n later]
  rw [hdrop, handles_stop hstop, List.foldl_append]
  rfl

/-- A capture from `start` to `stop`, whatever the threads do in between: once nothing is left to do,
    the file is closed and holds the packets that were written, all of them, in their order. -/
theorem run_recorded {ms : List Move} {packets : List Bytes} {path : String}
    (hcalls : ms.filter Move.isCall = .start :: packets.map .write ++ [.stop])
    (hpath : ∀ m ∈ ms, m.Finds (· = some path))
    (hpackets : ∀ data ∈ packets, data ≠ [] ∧ data.length ≤ PCAP_RECORD_SIZE)
    (hfits : 24 + (packets.map fun data => 16 + data.length).sum ≤ MAX_PACP_FILE_SIZE)
    (hrun : Lib.run step init ms = some t) (hdone : t.mDispatcher.due () captureIds = []) :
    t.capture.mPcapFd = none ∧
      ∃ records, readPcap (t.capture.files path) = some records ∧
        records.map Record.data = packets := by
  have hlags := Lags.run hpath hrun
  rw [events_calls, hcalls] at hlags
  obtain ⟨done, hwritten, hcapture⟩ :=
    hlags.calls_done (fun data hdata => (hpackets data hdata).1) hdone
  obtain ⟨hopen, hheader⟩ : (PacketCapture.onEvent {} (.captureStart (some path))).mPcapFd = some path ∧
      (PacketCapture.onEvent {} (.captureStart (some path))).files path = pcapHdr :=
    PacketCapture.captureStart_opens rfl rfl
  -- every packet goes to the file as it is
  have hwhole (data : Bytes) (hdata : data ∈ packets) :=
    packetOf_data (hpackets data hdata).1 (hpackets data hdata).2
  have hsome : ∀ segment ∈ packets.map packetOf, includedLen segment ≠ 0 := by
    intro segment hsegment
    obtain ⟨data, hdata, rfl⟩ := List.mem_map.mp hsegment
    rw [(hwhole data hdata).1]
    exact Nat.ne_of_gt (List.length_pos_of_ne_nil (hpackets data hdata).1)
  have hsizes : ((packets.map packetOf).map fun segment => 16 + includedLen segment) =
      packets.map fun data => 16 + data.length := by
    rw [List.map_map]
    exact List.map_congr_left fun data hdata => congrArg (16 + ·) (hwhole data hdata).1
  obtain ⟨hstill, records, xs, hcontent, hxs, hrecords⟩ :=
    PacketCapture.capturePackets_append hwritten hsome hopen (by
      rw [hheader, hsizes]
      exact hfits)
  have hread := PacketCapture.readPcap_flatten hxs (y := []) (by decide)
  rw [List.append_nil, if_pos rfl, ← hheader, ← hcontent] at hread
  have hclosed (s : PacketCapture) (hopen : s.mPcapFd = some path) :
      s.onEvent .captureStop = s.fclose path := by
    unfold PacketCapture.onEvent
    rw [hopen]
  rw [hcapture, hclosed _ hstill]
  refine ⟨rfl, records, hread, ?_⟩
  rw [hrecords, List.map_map]
  exact (List.map_congr_left fun data hdata => (hwhole data hdata).2).trans (List.map_id packets)

-- Two packets, the second while the thread is at the first.
def sampleMoves : List Move :=
  let go := Move.proceed (some "0511") 7 8
  [.start, go, go, go, go, go, .write [1, 2, 3], go, go, .write [4], go, go, .stop, go, go, go, go, go,
    go, go, go, go, go, go, go]

theorem run_recorded_sample :
    ∃ t, Lib.run step init sampleMoves = some t ∧
      ∃ records, readPcap (t.capture.files "0511") = some records ∧
        records.map Record.data = [[1, 2, 3], [4]] := by
  have hreach : ∃ t, Lib.run step init sampleMoves = some t ∧
      t.mDispatcher.due () captureIds = [] := Lib.run_reaches (by decide)
  obtain ⟨t, hrun, hdone⟩ := hreach
  refine ⟨t, hrun, (run_recorded rfl ?_ (by decide) (by decide) hrun hdone).2⟩
  simp [sampleMoves, Move.Finds]

end CaptureThread

end NetCore
