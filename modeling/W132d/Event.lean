import Mathlib.Data.List.ReduceOption
import W132d.Elements
import W132d.Machine
import W132d.Peek

/-!
# Events of the firmware

An event is a message with a header, which says how long the message is, and a payload.
`sprdwl_rx_event_process` hands the payload to the function of the event, with the length of the
message less that of the header, in 16 bits. Two of these functions go through elements of the
payload: the one for a connection, through the elements of the association, and the one for a scan,
through the results.

* `rxEventProcess`: what the function of the event is called with;
* `eventConnect`: what is reported of a connection;
* `eventGscanFrame`: the results of a scan, and to whom they are handed on;
* `Bounded`: what they read and hand on is within the payload;
* `ConnectWhole`, `GscanWhole`: the payload ends where elements end;
* `event_bounded_iff`: where the functions are right.

The functions read through pointers, so that they are computations over a memory that note which
positions were read (`W132d.Peek`). The payload is the first `len` bytes of it; what is behind is
whatever is there, and it is read if a function does not look how much is left. A range that is
handed on is a pointer with a length, which the message says.

How the theorem is proved: the elements of a connection, and the results of a scan, are each a walk
over the payload (`W132d.Elements`), in which the length of an element is read before the next one.
If the walk ends where the payload does, each function stays inside; if it does not, the function
reads one more length, or hands on an element that is not complete (`connectIes_iff`,
`gscanFrames_iff`). `left` is a signed number for a connection, and is compared with 0 only; for a
scan, a message that is shorter than its header makes it large (`not_gscanBounded_of_short`).
-/

namespace W132d.Event

open Peek Elements

/-- The size of a `struct sprdwl_cmd_hdr`. -/
def sizeofCmdHdr : ℕ := 12

/-- `STAP_MODE_P2P_DEVICE`. -/
def stapModeP2pDevice : UInt8 := 2

/-- `WIFI_EVENT_CONNECT`. -/
def wifiEventConnect : UInt8 := 0x80

/-- `WIFI_EVENT_GSCAN_FRAME`. -/
def wifiEventGscanFrame : UInt8 := 0x88

/-! ## Dispatch -/

/-- What the function of an event is called with. -/
structure Call (ι : Type) where
  vif : ι
  cmdId : UInt8
  data : ℕ → UInt8
  len : UInt16

/-- The payload: in the message, or in a block that it is copied to if the message is not aligned
    (and that there may be no memory for). -/
def eventData (aligned : Bool) (block : Option (ℕ → UInt8)) (msg : ℕ → UInt8) (len : UInt16) :
    Option (ℕ → UInt8) :=
  if aligned then some fun i => msg (sizeofCmdHdr + i)
  else block.map fun block i => if i < len.toNat then msg (sizeofCmdHdr + i) else block i

/-- `sprdwl_rx_event_process`: the length it returns, and the call. -/
def rxEventProcess {ι : Type} (priv : Option (UInt8 → Option ι)) (aligned : Bool)
    (block : Option (ℕ → UInt8)) (msg : ℕ → UInt8) : UInt16 × Option (Call ι) :=
  let ctxId := msg 0 >>> 5
  if stapModeP2pDevice < ctxId then (0, none)
  else
    let plen := UInt16.ofNat (numAt msg 2 2)
    let len := plen - UInt16.ofNat sizeofCmdHdr
    match priv with
    | none => (plen, none)
    | some ctxIdToVif =>
      match ctxIdToVif ctxId with
      | none => (plen, none)
      | some vif =>
        (plen, (eventData aligned block msg len).map fun data => ⟨vif, msg 1, data, len⟩)

/-! ## A connection -/

/-- `SPRDWL_CONNECT_SUCCESS`. -/
def connectSuccess : UInt8 := 0

/-- `SPRDWL_ROAM_SUCCESS`. -/
def roamSuccess : UInt8 := 2

/-- `ETH_ALEN`. -/
def ethAlen : ℕ := 6

/-- A pointer to bytes of the payload. -/
structure Range where
  pos : ℕ
  len : ℕ

/-- `struct sprdwl_connect_info`. -/
structure ConnectInfo where
  status : UInt8 := 0
  bssid : Option Range := none
  channel : UInt8 := 0
  signal : Int8 := 0
  reqIe : Option Range := none
  respIe : Option Range := none
  beaIe : Option Range := none

/-- The pointers. -/
def ConnectInfo.ranges (info : ConnectInfo) : List Range :=
  [info.bssid, info.reqIe, info.respIe, info.beaIe].reduceOption

/-- The elements of the association: those of the request, the response and the beacon. -/
def connectIes (info : ConnectInfo) (pos : ℕ) (left : ℤ) : Peek ConnectInfo :=
  if left < 0 then return info
  else do
    let reqIeLen ← num pos 2
    let info := { info with reqIe := some ⟨pos + 2, reqIeLen⟩ }
    let pos := pos + 2 + reqIeLen
    let left := left - 2 - reqIeLen
    if left < 0 then return info
    else
      let respIeLen ← num pos 2
      let info := { info with respIe := some ⟨pos + 2, respIeLen⟩ }
      let pos := pos + 2 + respIeLen
      let left := left - 2 - respIeLen
      if left < 0 then return info
      else
        let beaIeLen ← num pos 2
        return { info with beaIe := some ⟨pos + 2, beaIeLen⟩ }

/-- What is behind the status of a connection. -/
def connectFields (info : ConnectInfo) (pos : ℕ) (left : ℤ) : Peek ConnectInfo :=
  if left < ethAlen then return info
  else
    let info := { info with bssid := some ⟨pos, ethAlen⟩ }
    let pos := pos + ethAlen
    let left := left - ethAlen
    if left < 1 then return info
    else do
      let channel ← byte pos
      let info := { info with channel }
      let pos := pos + 1
      let left := left - 1
      if left < 1 then return info
      else
        let signal ← byte pos
        connectIes { info with signal := signal.toInt8 } (pos + 1) (left - 1)

/-- `sprdwl_event_connect`: what is reported, with the status code of a failure. -/
def eventConnect (len : UInt16) : Peek (ConnectInfo × UInt8) := do
  let status ← byte 0
  let info := { status }
  if status ≠ connectSuccess ∧ status ≠ roamSuccess then
    let statusCode ← byte 2
    return (info, statusCode)
  else
    let info ← connectFields info 1 (len.toNat - 1)
    return (info, 0)

/-! ## The results of a scan -/

/-- The size of a `struct sprdwl_gscan_result`, which ends with one byte of `ie_data`. -/
def sizeofGscanResult : ℕ := 64

/-- Where the elements of a `struct sprdwl_gscan_result` are, its `ie_data`. -/
def offsetofIeData : ℕ := 63

/-- `REPORT_EVENTS_BUFFER_FULL`. -/
def reportEventsBufferFull : ℕ := 0

/-- `REPORT_EVENTS_EACH_SCAN`. -/
def reportEventsEachScan : ℕ := 1

/-- `REPORT_EVENTS_FULL_RESULTS`. -/
def reportEventsFullResults : ℕ := 2

/-- `REPORT_EVENTS_HOTLIST_RESULTS_FOUND`. -/
def reportEventsHotlistResultsFound : ℕ := 8

/-- `REPORT_EVENTS_HOTLIST_RESULTS_LOST`. -/
def reportEventsHotlistResultsLost : ℕ := 16

/-- `REPORT_EVENTS_SIGNIFICANT_CHANGE`. -/
def reportEventsSignificantChange : ℕ := 32

/-- `REPORT_EVENTS_EPNO`. -/
def reportEventsEpno : ℕ := 64

/-- A result: where it is, and its `ie_length`. -/
structure Frame where
  pos : ℕ
  ieLength : ℕ

/-- To whom a result is handed on. -/
inductive Handed
  | cacheScanResult (bucketId : UInt8) (frame : Frame)
  | reportFullScan (frame : Frame)
  | cacheHotlistResult (frame : Frame)

/-- The result that is handed on. -/
def Handed.frame : Handed → Frame
  | cacheScanResult _ frame => frame
  | reportFullScan frame => frame
  | cacheHotlistResult frame => frame

/-- What is done with a result. -/
def handOn (reportEvent : ℕ) (bucketId : UInt8) (frame : Frame) : List Handed :=
  if reportEvent = reportEventsBufferFull ∨ reportEvent &&& reportEventsEachScan ≠ 0 then
    [.cacheScanResult bucketId frame]
  else if reportEvent &&& reportEventsFullResults ≠ 0 then [.reportFullScan frame]
  else if reportEvent &&& reportEventsHotlistResultsFound ≠ 0 ∨
      reportEvent &&& reportEventsHotlistResultsLost ≠ 0 then
    [.cacheHotlistResult frame]
  else []

/-- The loop over the results: what is handed on, and the last bucket. -/
def gscanFrames (reportEvent : ℕ) (pos : ℕ) (availLen : ℤ) (bucketId : UInt8) :
    Peek (List Handed × UInt8) :=
  if 0 < availLen then
    if availLen < sizeofGscanResult then return ([], bucketId)
    else do
      let bucketId ← byte pos
      let bufLen ← num (pos + 1 + 61) 2
      let rest ← gscanFrames reportEvent (pos + 1 + sizeofGscanResult + bufLen)
        (availLen - (sizeofGscanResult + bufLen + 1)) bucketId
      return (handOn reportEvent bucketId ⟨pos + 1, bufLen⟩ ++ rest.1, rest.2)
  else return ([], bucketId)
termination_by availLen.toNat

/-- What is reported behind the results. -/
inductive Done
  | bufferFull
  | gscanDone (bucketId : UInt8)
  | hotlistChange

/-- What becomes of a scan: its payload is left to another function, or there are results. -/
inductive Gscan
  | epno (pos : ℕ) (len : UInt16)
  | significantChange (pos : ℕ) (len : UInt16)
  | results (handed : List Handed) (done : Option Done)

/-- The results that are handed on. -/
def Gscan.handed : Gscan → List Handed
  | results handed _ => handed
  | _ => []

/-- What is reported behind the results. -/
def gscanDone (reportEvent : ℕ) (bucketId : UInt8) : Option Done :=
  if reportEvent = reportEventsBufferFull then some .bufferFull
  else if reportEvent &&& reportEventsEachScan ≠ 0 then some (.gscanDone bucketId)
  else if reportEvent &&& reportEventsHotlistResultsFound ≠ 0 ∨
      reportEvent &&& reportEventsHotlistResultsLost ≠ 0 then
    some .hotlistChange
  else none

/-- `sprdwl_event_gscan_frame`. -/
def eventGscanFrame (len : UInt16) : Peek Gscan := do
  let reportEvent ← num 0 4
  let availLen : ℤ := len.toNat - 4
  if reportEvent &&& reportEventsEpno ≠ 0 then return .epno 4 (UInt16.ofInt availLen)
  else if reportEvent &&& reportEventsSignificantChange ≠ 0 then
    return .significantChange 4 (UInt16.ofInt availLen)
  else
    let r ← gscanFrames reportEvent 4 availLen 0
    return .results r.1 (gscanDone reportEvent r.2)

/-! ## What is right -/

/-- A range lies within the first `n` bytes. -/
def Range.Within (n : ℕ) (range : Range) : Prop := range.pos + range.len ≤ n

/-- A result lies within the first `n` bytes, with its elements. The first of their bytes is the
    last of the structure. -/
def Frame.Within (n : ℕ) (frame : Frame) : Prop :=
  frame.pos + max sizeofGscanResult (offsetofIeData + frame.ieLength) ≤ n

section

variable (mem : ℕ → UInt8) (n : ℕ)

/-- Of a connection, only the payload is read, and what is reported is within it. -/
structure ConnectBounded (len : UInt16) : Prop where
  reads : Inside n mem (eventConnect len)
  ranges : ∀ range ∈ ((eventConnect len).value mem).1.ranges, range.Within n
  channel : ((eventConnect len).value mem).1.channel = 0 ∨
    7 < n ∧ ((eventConnect len).value mem).1.channel = mem 7
  signal : ((eventConnect len).value mem).1.signal = 0 ∨
    8 < n ∧ ((eventConnect len).value mem).1.signal = (mem 8).toInt8

/-- The results of a scan that are handed on are within the payload. -/
def GscanBounded (len : UInt16) : Prop :=
  ∀ handed ∈ ((eventGscanFrame len).value mem).handed, handed.frame.Within n

/-- What the function of an event reads and hands on is within the payload. -/
structure Bounded {ι : Type} (call : Call ι) : Prop where
  connect : call.cmdId = wifiEventConnect → ConnectBounded call.data n call.len
  gscan : call.cmdId = wifiEventGscanFrame → GscanBounded call.data n call.len

/-- The elements behind the signal that end within the payload, each with its length before it. -/
def sections : List ℕ := walk 2 (fun pos => numAt mem pos 2) n 9

/-- The payload of a connection ends before the elements, or there are all three. That of a failure
    has the status code. -/
def ConnectWhole : Prop :=
  0 < n ∧ if mem 0 = connectSuccess ∨ mem 0 = roamSuccess then n < 9 ∨ 3 ≤ (sections mem n).length
    else 2 < n

/-- Where the results end that end within the payload. -/
def resultsEnd : ℕ := stop 65 (fun pos => numAt mem (pos + 62) 2) n 4

/-- A scan whose results are handed on. -/
def Kept (reportEvent : ℕ) : Prop :=
  reportEvent &&& reportEventsEpno = 0 ∧ reportEvent &&& reportEventsSignificantChange = 0 ∧
    (reportEvent = reportEventsBufferFull ∨ reportEvent &&& reportEventsEachScan ≠ 0 ∨
      reportEvent &&& reportEventsFullResults ≠ 0 ∨
      reportEvent &&& reportEventsHotlistResultsFound ≠ 0 ∨
      reportEvent &&& reportEventsHotlistResultsLost ≠ 0)

/-- Behind the last whole result, less than the size of one is left, or one whose elements end with
    the payload: the loop goes on behind a byte more. -/
def GscanWhole : Prop :=
  n < resultsEnd mem n + sizeofGscanResult ∨
    0 < numAt mem (resultsEnd mem n + 62) 2 ∧
      n = resultsEnd mem n + sizeofGscanResult + numAt mem (resultsEnd mem n + 62) 2

end

/-- The length of the payload. -/
def payloadLen (msg : ℕ → UInt8) : ℕ := numAt msg 2 2 - sizeofCmdHdr

/-- The payload. -/
def payload (msg : ℕ → UInt8) : ℕ → UInt8 := fun i => msg (sizeofCmdHdr + i)

/-- The function of the event is called. -/
def Dispatched {ι : Type} (priv : Option (UInt8 → Option ι)) (aligned : Bool)
    (block : Option (ℕ → UInt8)) (msg : ℕ → UInt8) : Prop :=
  msg 0 >>> 5 ≤ stapModeP2pDevice ∧ (∃ ctxIdToVif ∈ priv, (ctxIdToVif (msg 0 >>> 5)).isSome) ∧
    (aligned ∨ block.isSome)

/-- The payload of an event ends where elements end. -/
structure Whole (msg : ℕ → UInt8) : Prop where
  connect : msg 1 = wifiEventConnect → ConnectWhole (payload msg) (payloadLen msg)
  gscan : msg 1 = wifiEventGscanFrame → Kept (numAt (payload msg) 0 4) →
    sizeofCmdHdr ≤ numAt msg 2 2 ∧ GscanWhole (payload msg) (payloadLen msg)

variable {mem mem' msg : ℕ → UInt8} {n pos reportEvent : ℕ} {len : UInt16} {bucketId : UInt8}

/-! ### A connection -/

section

variable (h : ∀ i < n, mem i = mem' i)
include h

theorem connectWhole_congr : ConnectWhole mem n ↔ ConnectWhole mem' n := by
  have hsections : sections mem n = sections mem' n :=
    walk_congr fun pos hpos => numAt_congr fun i hi => h (pos + i) (by omega)
  rw [ConnectWhole, ConnectWhole, hsections]
  exact and_congr_right fun hn => by rw [h 0 hn]

theorem gscanWhole_congr : GscanWhole mem n ↔ GscanWhole mem' n := by
  have hend : resultsEnd mem n = resultsEnd mem' n :=
    stop_congr fun pos hpos => numAt_congr fun i hi => h (pos + 62 + i) (by omega)
  rw [GscanWhole, GscanWhole, hend]
  -- The length of a result behind the last whole one is within the payload, if the result is.
  by_cases hle : resultsEnd mem' n + sizeofGscanResult ≤ n
  · rw [sizeofGscanResult] at hle
    rw [numAt_congr fun i hi => h (resultsEnd mem' n + 62 + i) (by omega)]
  · exact iff_of_true (.inl (not_le.1 hle)) (.inl (not_le.1 hle))

end

theorem mem_ranges {info : ConnectInfo} {range : Range} : range ∈ info.ranges ↔
    info.bssid = some range ∨ info.reqIe = some range ∨ info.respIe = some range ∨
      info.beaIe = some range := by
  rw [ConnectInfo.ranges, List.reduceOption_mem_iff]
  simp only [List.mem_cons, List.not_mem_nil, or_false, eq_comm]

/-- The bytes of a length that ends within the payload. -/
theorem length_inside (h : pos + 2 ≤ n) : ∀ i < 2, pos + i < n :=
  forall_add_lt.2 (.inr h)

/-- The elements are within the payload if there are three in it. -/
theorem connectIes_iff (info : ConnectInfo) (hpos : pos ≤ n)
    (hinfo : ∀ range, info.bssid = some range → range.Within n) :
    Inside n mem (connectIes info pos (n - pos)) ∧
        (∀ range ∈ ((connectIes info pos (n - pos)).value mem).ranges, range.Within n) ↔
      3 ≤ (walk 2 (fun pos => numAt mem pos 2) n pos).length := by
  have hleft : ¬(n - pos : ℤ) < 0 := by omega
  by_cases hreq : pos + 2 + numAt mem pos 2 ≤ n
  · have hleft₂ : ¬(n - pos - 2 - numAt mem pos 2 : ℤ) < 0 := by omega
    have hread := length_inside (le_of_add_le_left hreq)
    rw [walk_of_le hreq]
    set pos₂ := pos + 2 + numAt mem pos 2 with hpos₂
    by_cases hresp : pos₂ + 2 + numAt mem pos₂ 2 ≤ n
    · have hleft₃ : ¬(n - pos - 2 - numAt mem pos 2 - 2 - numAt mem pos₂ 2 : ℤ) < 0 := by omega
      have hread₂ := length_inside (le_of_add_le_left hresp)
      rw [walk_of_le hresp]
      set pos₃ := pos₂ + 2 + numAt mem pos₂ 2 with hpos₃
      -- Once the lengths of two elements are known, all three are handed on.
      have hvalue : (connectIes info pos (n - pos)).value mem =
          { info with
            reqIe := some ⟨pos + 2, numAt mem pos 2⟩
            respIe := some ⟨pos₂ + 2, numAt mem pos₂ 2⟩
            beaIe := some ⟨pos₃ + 2, numAt mem pos₃ 2⟩ } := by
        rw [connectIes, if_neg hleft, value_num_bind, if_neg hleft₂, value_num_bind,
          if_neg hleft₃]
        rfl
      by_cases hbea : pos₃ + 2 + numAt mem pos₃ 2 ≤ n
      · rw [walk_of_le hbea]
        refine iff_of_true ⟨?_, ?_⟩ (by simp)
        · rw [connectIes, if_neg hleft, Inside, only_num_bind, if_neg hleft₂, only_num_bind,
            if_neg hleft₃, only_num_bind]
          exact ⟨hread, hread₂, length_inside (le_of_add_le_left hbea), only_pure _⟩
        · intro range hrange
          rw [hvalue, mem_ranges] at hrange
          rcases hrange with hbssid | hie | hie | hie
          · exact hinfo range hbssid
          · exact Option.some.inj hie ▸ hreq
          · exact Option.some.inj hie ▸ hresp
          · exact Option.some.inj hie ▸ hbea
      · -- Otherwise the element that goes beyond the payload is handed on.
        rw [walk_of_lt (not_le.1 hbea)]
        refine iff_of_false (fun h => hbea ?_) (by simp)
        exact h.2 ⟨pos₃ + 2, numAt mem pos₃ 2⟩ (hvalue ▸ mem_ranges.2 (.inr (.inr (.inr rfl))))
    · rw [walk_of_lt (not_le.1 hresp)]
      refine iff_of_false (fun h => hresp ?_) (by simp)
      refine h.2 ⟨pos₂ + 2, numAt mem pos₂ 2⟩ (mem_ranges.2 (.inr (.inr (.inl ?_))))
      rw [connectIes, if_neg hleft, value_num_bind, if_neg hleft₂, value_num_bind, value_ite]
      split_ifs <;> rfl
  · rw [walk_of_lt (not_le.1 hreq)]
    refine iff_of_false (fun h => hreq ?_) (by simp)
    refine h.2 ⟨pos + 2, numAt mem pos 2⟩ (mem_ranges.2 (.inr (.inl ?_)))
    rw [connectIes, if_neg hleft, value_num_bind, value_ite]
    split_ifs
    · rfl
    · rw [value_num_bind, value_ite]
      split_ifs <;> rfl

theorem connectIes_fields (info : ConnectInfo) (pos : ℕ) (left : ℤ) :
    ((connectIes info pos left).value mem).channel = info.channel ∧
      ((connectIes info pos left).value mem).signal = info.signal := by
  rw [connectIes, value_ite]
  split_ifs
  · exact ⟨rfl, rfl⟩
  · rw [value_num_bind, value_ite]
    split_ifs
    · exact ⟨rfl, rfl⟩
    · rw [value_num_bind, value_ite]
      split_ifs <;> exact ⟨rfl, rfl⟩

/-- Behind the status, the elements are reached if there is enough. -/
theorem connectFields_of_le (info : ConnectInfo) (h : 9 ≤ n) :
    connectFields info 1 (n - 1) = byte 7 >>= fun channel => byte 8 >>= fun signal =>
      connectIes { info with bssid := some ⟨1, ethAlen⟩, channel, signal := signal.toInt8 } 9
        (n - (9 : ℕ)) := by
  have hleft : (n - 1 - (6 : ℕ) - 1 - 1 : ℤ) = n - (9 : ℕ) := by omega
  rw [connectFields, ethAlen, if_neg (by omega), if_neg (by omega)]
  refine congrArg _ (funext fun channel => ?_)
  rw [if_neg (by omega), hleft]

/-- A payload that ends before the elements gives only the fields that are in it. -/
theorem connectFields_of_lt (status : UInt8) (h : n < 9) :
    Inside n mem (connectFields { status } 1 (n - 1)) ∧
      (∀ range ∈ ((connectFields { status } 1 (n - 1)).value mem).ranges, range.Within n) ∧
      (((connectFields { status } 1 (n - 1)).value mem).channel = 0 ∨
        7 < n ∧ ((connectFields { status } 1 (n - 1)).value mem).channel = mem 7) ∧
      ((connectFields { status } 1 (n - 1)).value mem).signal = 0 := by
  rw [connectFields, ethAlen]
  by_cases hbssid : n < 7
  · rw [if_pos (by omega)]
    exact ⟨only_pure _, fun range hrange => absurd hrange List.not_mem_nil, .inl rfl, rfl⟩
  · have hwithin : ∀ range ∈ [(⟨1, 6⟩ : Range)], range.Within n :=
      List.forall_mem_singleton.2 (not_lt.1 hbssid)
    rw [if_neg (by omega)]
    by_cases hchannel : n < 8
    · rw [if_pos (by omega)]
      exact ⟨only_pure _, hwithin, .inl rfl, rfl⟩
    · rw [if_neg (by omega), Inside, only_byte_bind, value_byte_bind, if_pos (by omega)]
      exact ⟨⟨by omega, only_pure _⟩, hwithin, .inr ⟨by omega, rfl⟩, rfl⟩

/-- The status is read even if there is no payload. -/
theorem not_connectBounded_of_empty (hn : ¬0 < n) : ¬ConnectBounded mem n len := by
  intro h
  have hreads := h.reads
  rw [eventConnect, Inside, only_byte_bind] at hreads
  exact hn hreads.1

/-- Of a failure, only the status and its code are read. -/
theorem connectBounded_failure (hn : 0 < n)
    (hstatus : mem 0 ≠ connectSuccess ∧ mem 0 ≠ roamSuccess) :
    ConnectBounded mem n len ↔ 2 < n := by
  have hreads : Inside n mem (eventConnect len) ↔ 2 < n := by
    rw [eventConnect, Inside, only_byte_bind, if_pos hstatus, only_byte_bind, and_iff_right hn,
      and_iff_left (only_pure _)]
  have hvalue : ((eventConnect len).value mem).1 = { status := mem 0 } := by
    rw [eventConnect, value_byte_bind, if_pos hstatus]
    rfl
  refine ⟨fun h => hreads.1 h.reads, fun hcode => ⟨hreads.2 hcode, ?_, ?_, ?_⟩⟩
  · rw [hvalue]
    exact fun range hrange => absurd hrange List.not_mem_nil
  · exact .inl (hvalue ▸ rfl)
  · exact .inl (hvalue ▸ rfl)

/-- Of a success, the fields are read, and the elements if there is enough. -/
theorem connectBounded_success (hn : 0 < n) (hlen : len.toNat = n)
    (hstatus : ¬(mem 0 ≠ connectSuccess ∧ mem 0 ≠ roamSuccess)) :
    ConnectBounded mem n len ↔ n < 9 ∨ 3 ≤ (sections mem n).length := by
  have hvalue : ((eventConnect len).value mem).1 =
      (connectFields { status := mem 0 } 1 (n - 1)).value mem := by
    rw [eventConnect, value_byte_bind, if_neg hstatus, value_bind, hlen]
    rfl
  have hreads : Inside n mem (eventConnect len) ↔
      Inside n mem (connectFields { status := mem 0 } 1 (n - 1)) := by
    rw [eventConnect, Inside, only_byte_bind, if_neg hstatus, only_bind, hlen,
      and_iff_right hn, and_iff_left (only_pure _)]
  -- The fields end at `9`, where the elements begin.
  by_cases hies : n < 9
  · obtain ⟨hinside, hranges, hchannel, hsignal⟩ := @connectFields_of_lt mem n (mem 0) hies
    rw [← hvalue] at hranges hchannel hsignal
    exact iff_of_true ⟨hreads.2 hinside, hranges, hchannel, .inl hsignal⟩ (.inl hies)
  · have hle : 9 ≤ n := not_lt.1 hies
    set info : ConnectInfo :=
      { status := mem 0
        bssid := some ⟨1, ethAlen⟩
        channel := mem 7
        signal := (mem 8).toInt8 } with hinfo
    have hiff := @connectIes_iff mem n 9 info hle fun range hrange => by
      rw [← Option.some.inj hrange]
      exact le_trans (by decide : 1 + 6 ≤ 9) hle
    have hfields := @connectIes_fields mem info 9 (n - (9 : ℕ))
    rw [connectFields_of_le _ hle, value_byte_bind, value_byte_bind] at hvalue
    have hreads : Inside n mem (eventConnect len) ↔
        Inside n mem (connectIes info 9 (n - (9 : ℕ))) := by
      rw [hreads, connectFields_of_le _ hle, Inside, only_byte_bind, only_byte_bind,
        and_iff_right (by omega), and_iff_right (by omega)]
    rw [or_iff_right hies, sections, ← hiff, ← hreads]
    constructor
    · exact fun h => ⟨h.reads, hvalue ▸ h.ranges⟩
    · rintro ⟨hinside, hranges⟩
      refine ⟨hinside, hvalue ▸ hranges, .inr ⟨by omega, ?_⟩, .inr ⟨by omega, ?_⟩⟩
      · rw [hvalue]
        exact hfields.1
      · rw [hvalue]
        exact hfields.2

/-- Of a connection, what is read and reported is within the payload if it ends where elements end.
    -/
theorem connectBounded_iff (hlen : len.toNat = n) :
    ConnectBounded mem n len ↔ ConnectWhole mem n := by
  by_cases hn : 0 < n
  · rw [ConnectWhole, and_iff_right hn]
    split_ifs with hstatus
    · exact connectBounded_success hn hlen (by tauto)
    · exact connectBounded_failure hn (by tauto)
  · exact iff_of_false (not_connectBounded_of_empty hn) fun h => hn h.1

/-! ### The results of a scan -/

/-- A result of a scan whose results are not handed on. -/
theorem handOn_of_not (h : reportEvent &&& reportEventsEpno = 0)
    (h' : reportEvent &&& reportEventsSignificantChange = 0) (hkept : ¬Kept reportEvent)
    (bucketId : UInt8) (frame : Frame) : handOn reportEvent bucketId frame = [] := by
  rw [Kept] at hkept
  rw [handOn, if_neg (by tauto), if_neg (by tauto), if_neg (by tauto)]

/-- A result of a scan whose results are handed on. -/
theorem frame_of_kept (hkept : Kept reportEvent) (bucketId : UInt8) (frame : Frame) :
    ∃ handed, handOn reportEvent bucketId frame = [handed] ∧ handed.frame = frame := by
  obtain ⟨-, -, hkept⟩ := hkept
  rw [handOn]
  split_ifs
  · exact ⟨_, rfl, rfl⟩
  · exact ⟨_, rfl, rfl⟩
  · exact ⟨_, rfl, rfl⟩
  · tauto

/-- A turn of the loop. -/
theorem gscanFrames_of_le {availLen : ℤ} (h : sizeofGscanResult ≤ availLen) :
    ((gscanFrames reportEvent pos availLen bucketId).value mem).1 =
      handOn reportEvent (mem pos) ⟨pos + 1, numAt mem (pos + 62) 2⟩ ++
        ((gscanFrames reportEvent (pos + 65 + numAt mem (pos + 62) 2)
          (availLen - (65 + numAt mem (pos + 62) 2)) (mem pos)).value mem).1 := by
  have hpos : pos + 1 + sizeofGscanResult + numAt mem (pos + 62) 2 =
      pos + 65 + numAt mem (pos + 62) 2 := by
    rw [sizeofGscanResult]
  have hleft : availLen - (sizeofGscanResult + numAt mem (pos + 62) 2 + 1) =
      availLen - (65 + numAt mem (pos + 62) 2) := by
    rw [sizeofGscanResult]
    omega
  rw [← hpos, ← hleft, gscanFrames, if_pos (lt_of_lt_of_le (by decide) h),
    if_neg (not_lt.2 h), value_byte_bind, value_num_bind, value_bind]
  rfl

/-- The end of the loop. -/
theorem gscanFrames_of_lt {availLen : ℤ} (h : availLen < sizeofGscanResult) :
    ((gscanFrames reportEvent pos availLen bucketId).value mem).1 = [] := by
  rw [gscanFrames]
  split_ifs <;> rfl

/-- Of a scan whose results are not handed on, none is. -/
theorem gscanFrames_of_not (hempty : ∀ bucketId frame, handOn reportEvent bucketId frame = [])
    (pos : ℕ) (availLen : ℤ) (bucketId : UInt8) :
    ((gscanFrames reportEvent pos availLen bucketId).value mem).1 = [] := by
  induction hfuel : availLen.toNat using Nat.strong_induction_on
    generalizing pos availLen bucketId with
  | _ fuel ih =>
    by_cases hle : sizeofGscanResult ≤ availLen
    · rw [gscanFrames_of_le hle, hempty, List.nil_append]
      rw [sizeofGscanResult] at hle
      exact ih _ (by omega) _ _ _ rfl
    · exact gscanFrames_of_lt (not_le.1 hle)

/-- The results that are handed on are within the payload if less than one is left behind the last
    whole one, or one whose elements end with the payload. -/
theorem gscanFrames_iff (hkept : Kept reportEvent) (pos : ℕ) (bucketId : UInt8) {last : ℕ}
    (hlast : last = stop 65 (fun pos => numAt mem (pos + 62) 2) n pos) :
    (∀ handed ∈ ((gscanFrames reportEvent pos (n - pos) bucketId).value mem).1,
        handed.frame.Within n) ↔
      n < last + sizeofGscanResult ∨
        0 < numAt mem (last + 62) 2 ∧ n = last + sizeofGscanResult + numAt mem (last + 62) 2 := by
  induction pos using stop.induct 65 (fun pos => numAt mem (pos + 62) 2) n
    generalizing bucketId with
  | case1 pos hle ih =>
    obtain ⟨handed, hhanded, hframe⟩ :=
      frame_of_kept hkept (mem pos) ⟨pos + 1, numAt mem (pos + 62) 2⟩
    have hwithin : handed.frame.Within n := by
      rw [hframe, Frame.Within, sizeofGscanResult, offsetofIeData]
      dsimp only
      omega
    have hleft : (n - pos - (65 + numAt mem (pos + 62) 2) : ℤ) =
        n - (pos + 65 + numAt mem (pos + 62) 2 : ℕ) := by omega
    rw [gscanFrames_of_le (by rw [sizeofGscanResult]; omega), hhanded, List.singleton_append,
      List.forall_mem_cons, and_iff_right hwithin, hleft]
    exact ih _ (hlast.trans (@stop_of_le 65 _ n _ pos hle))
  | case2 pos hlt =>
    rw [stop_of_lt (not_le.1 hlt)] at hlast
    subst hlast
    -- A result that begins in the payload is handed on, whether or not it ends there.
    by_cases hle : last + sizeofGscanResult ≤ n
    · obtain ⟨handed, hhanded, hframe⟩ :=
        frame_of_kept hkept (mem last) ⟨last + 1, numAt mem (last + 62) 2⟩
      have hnone := @gscanFrames_of_lt mem (last + 65 + numAt mem (last + 62) 2) reportEvent
        (mem last) (n - last - (65 + numAt mem (last + 62) 2)) (by rw [sizeofGscanResult]; omega)
      rw [gscanFrames_of_le (by omega), hhanded, hnone, List.singleton_append,
        List.forall_mem_cons, hframe, Frame.Within, offsetofIeData]
      rw [sizeofGscanResult] at hle ⊢
      constructor
      · intro h
        have hwithin := h.1
        dsimp only at hwithin
        omega
      · intro h
        refine ⟨?_, fun handed h => absurd h List.not_mem_nil⟩
        dsimp only
        omega
    · rw [gscanFrames_of_lt (by omega)]
      exact iff_of_true (fun handed h => absurd h List.not_mem_nil) (.inl (not_le.1 hle))

/-- Of a scan whose results are not handed on, none is. -/
theorem gscanBounded_of_not (hkept : ¬Kept (numAt mem 0 4)) : GscanBounded mem n len := by
  intro handed hhanded
  rw [eventGscanFrame, value_num_bind] at hhanded
  split_ifs at hhanded with hepno hsignificant
  · exact absurd hhanded List.not_mem_nil
  · exact absurd hhanded List.not_mem_nil
  · have hempty := handOn_of_not (not_not.1 hepno) (not_not.1 hsignificant) hkept
    have hnone := @gscanFrames_of_not mem _ hempty 4 (len.toNat - 4) 0
    rw [value_bind] at hhanded
    exact absurd (hnone ▸ hhanded) List.not_mem_nil

/-- What is handed on of a scan whose results are. -/
theorem handed_of_kept (hkept : Kept (numAt mem 0 4)) :
    ((eventGscanFrame len).value mem).handed =
      ((gscanFrames (numAt mem 0 4) 4 (len.toNat - (4 : ℕ)) 0).value mem).1 := by
  rw [eventGscanFrame, value_num_bind, if_neg (not_not.2 hkept.1), if_neg (not_not.2 hkept.2.1),
    value_bind]
  rfl

/-- The results that are handed on are within the payload if it ends where elements end. -/
theorem gscanBounded_iff (hlen : len.toNat = n) :
    GscanBounded mem n len ↔ (Kept (numAt mem 0 4) → GscanWhole mem n) := by
  by_cases hkept : Kept (numAt mem 0 4)
  · rw [GscanBounded, handed_of_kept hkept, hlen, gscanFrames_iff hkept 4 0 rfl, GscanWhole,
      resultsEnd]
    exact (true_imp_iff.symm.trans (imp_congr_left (iff_true_intro hkept).symm))
  · exact iff_of_true (gscanBounded_of_not hkept) fun h => absurd h hkept

/-- If the message is shorter than its header, a result is handed on that is not in the payload. -/
theorem not_gscanBounded_of_short (hlen : 68 ≤ len.toNat) (hkept : Kept (numAt mem 0 4)) :
    ¬GscanBounded mem 0 len := by
  intro h
  obtain ⟨handed, hhanded, hframe⟩ :=
    frame_of_kept hkept (mem 4) ⟨4 + 1, numAt mem (4 + 62) 2⟩
  rw [GscanBounded, handed_of_kept hkept,
    gscanFrames_of_le (by rw [sizeofGscanResult]; omega), hhanded, List.singleton_append,
    List.forall_mem_cons, hframe] at h
  exact absurd h.1 (by rw [Frame.Within, sizeofGscanResult, offsetofIeData]; omega)

/-! ### Events -/

section

variable {ι : Type} {priv : Option (UInt8 → Option ι)} {aligned : Bool}
  {block : Option (ℕ → UInt8)} {call : Call ι}

/-- The payload that the function is given is that of the message. -/
theorem eventData_eq {data : ℕ → UInt8} (h : data ∈ eventData aligned block msg len) :
    (aligned ∨ block.isSome) ∧ ∀ i < len.toNat, data i = payload msg i := by
  cases aligned with
  | true => exact ⟨.inl rfl, fun i _ => by rw [← Option.some.inj h, payload]⟩
  | false =>
    cases block with
    | none => exact absurd h (Option.not_mem_none _)
    | some block =>
      refine ⟨.inr rfl, fun i hi => ?_⟩
      rw [← Option.some.inj h]
      exact if_pos hi

/-- What the function of an event is called with comes from the message. -/
theorem call_eq (h : call ∈ (rxEventProcess priv aligned block msg).2) :
    Dispatched priv aligned block msg ∧ call.cmdId = msg 1 ∧
      call.len = UInt16.ofNat (numAt msg 2 2) - UInt16.ofNat sizeofCmdHdr ∧
      ∀ i < call.len.toNat, call.data i = payload msg i := by
  rw [rxEventProcess] at h
  split_ifs at h with hctx
  · exact absurd h (Option.not_mem_none _)
  · cases priv with
    | none => exact absurd h (Option.not_mem_none _)
    | some ctxIdToVif =>
      cases hvif : ctxIdToVif (msg 0 >>> 5) with
      | none =>
        simp only [hvif] at h
        exact absurd h (Option.not_mem_none _)
      | some vif =>
        simp only [hvif, Option.mem_def, Option.map_eq_some_iff] at h
        obtain ⟨data, hdata, rfl⟩ := h
        obtain ⟨halloc, hpayload⟩ := eventData_eq hdata
        exact ⟨⟨UInt8.not_lt.1 hctx, ⟨_, rfl, by rw [hvif]; rfl⟩, halloc⟩, rfl, rfl, hpayload⟩

theorem exists_call (h : Dispatched priv aligned block msg) :
    ∃ call, call ∈ (rxEventProcess priv aligned block msg).2 := by
  obtain ⟨hctx, ⟨ctxIdToVif, rfl, hvif⟩, halloc⟩ := h
  obtain ⟨vif, hvif⟩ := Option.isSome_iff_exists.1 hvif
  rw [rxEventProcess, if_neg (UInt8.not_lt.2 hctx)]
  simp only [hvif]
  rcases halloc with rfl | hblock
  · exact ⟨_, rfl⟩
  · obtain ⟨block, rfl⟩ := Option.isSome_iff_exists.1 hblock
    cases aligned <;> exact ⟨_, rfl⟩

/-- The length that the function is given is that of the payload, if the message is not shorter than
    its header. If it is, the length is large. -/
theorem len_eq (hlen : len = UInt16.ofNat (numAt msg 2 2) - UInt16.ofNat sizeofCmdHdr) :
    sizeofCmdHdr ≤ numAt msg 2 2 ∧ len.toNat = payloadLen msg ∨
      numAt msg 2 2 < sizeofCmdHdr ∧ 68 ≤ len.toNat ∧ payloadLen msg = 0 := by
  have hlt := numAt_lt msg 2 2
  rw [hlen, payloadLen, UInt16.toNat_sub, UInt16.toNat_ofNat', UInt16.toNat_ofNat', sizeofCmdHdr]
  omega

/-- A connection that is bounded. -/
theorem connect_iff (hlen : len = UInt16.ofNat (numAt msg 2 2) - UInt16.ofNat sizeofCmdHdr)
    (hdata : ∀ i < len.toNat, mem i = payload msg i) :
    ConnectBounded mem (payloadLen msg) len ↔ ConnectWhole (payload msg) (payloadLen msg) := by
  rcases len_eq hlen with ⟨-, heq⟩ | ⟨-, -, hzero⟩
  · rw [connectBounded_iff heq]
    exact connectWhole_congr (heq ▸ hdata)
  · rw [hzero]
    exact iff_of_false (not_connectBounded_of_empty (lt_irrefl 0)) fun h => lt_irrefl 0 h.1

/-- A scan that is bounded. -/
theorem gscan_iff (hlen : len = UInt16.ofNat (numAt msg 2 2) - UInt16.ofNat sizeofCmdHdr)
    (hdata : ∀ i < len.toNat, mem i = payload msg i) :
    GscanBounded mem (payloadLen msg) len ↔ (Kept (numAt (payload msg) 0 4) →
      sizeofCmdHdr ≤ numAt msg 2 2 ∧ GscanWhole (payload msg) (payloadLen msg)) := by
  have hreport (h : 4 ≤ len.toNat) : numAt mem 0 4 = numAt (payload msg) 0 4 :=
    numAt_congr fun i hi => hdata (0 + i) (by omega)
  rcases len_eq hlen with ⟨hhdr, heq⟩ | ⟨hhdr, hlarge, hzero⟩
  · rw [gscanBounded_iff heq, gscanWhole_congr (heq ▸ hdata), and_iff_right hhdr]
    by_cases hle : 4 ≤ len.toNat
    · rw [hreport hle]
    · have hwhole : GscanWhole (payload msg) (payloadLen msg) := by
        have hend := @le_stop 65 (fun pos => numAt (payload msg) (pos + 62) 2)
          (payloadLen msg) _ 4
        rw [GscanWhole, resultsEnd]
        omega
      exact iff_of_true (fun _ => hwhole) fun _ => hwhole
  · rw [hzero, ← hreport (by omega)]
    by_cases hkept : Kept (numAt mem 0 4)
    · exact iff_of_false (not_gscanBounded_of_short hlarge hkept)
        fun h => absurd (h hkept).1 (not_le.2 hhdr)
    · exact iff_of_true (gscanBounded_of_not hkept) fun h => absurd h hkept

/-- The function of an event is right if the payload ends where elements end. -/
theorem bounded_iff (h : call ∈ (rxEventProcess priv aligned block msg).2) :
    Bounded (payloadLen msg) call ↔ Whole msg := by
  obtain ⟨-, hcmd, hlen, hdata⟩ := call_eq h
  constructor
  · intro hbounded
    exact ⟨fun hconnect => (connect_iff hlen hdata).1 (hbounded.connect (hcmd.trans hconnect)),
      fun hgscan => (gscan_iff hlen hdata).1 (hbounded.gscan (hcmd.trans hgscan))⟩
  · intro hwhole
    exact ⟨fun hconnect => (connect_iff hlen hdata).2 (hwhole.connect (hcmd.symm.trans hconnect)),
      fun hgscan => (gscan_iff hlen hdata).2 (hwhole.gscan (hcmd.symm.trans hgscan))⟩

/-- For all messages, whether the vif is there and wherever the message lies, what the function of
    the event reads of a connection and what is handed on is within the payload, exactly if the
    payload ends where elements end. -/
theorem event_bounded_iff (msg : ℕ → UInt8) (priv : Option (UInt8 → Option ι)) (aligned : Bool)
    (block : Option (ℕ → UInt8)) :
    (∀ call ∈ (rxEventProcess priv aligned block msg).2, Bounded (payloadLen msg) call) ↔
      (Dispatched priv aligned block msg → Whole msg) := by
  constructor
  · intro h hdispatched
    obtain ⟨call, hcall⟩ := exists_call hdispatched
    exact (bounded_iff hcall).1 (h call hcall)
  · exact fun h call hcall => (bounded_iff hcall).2 (h (call_eq hcall).1)

end

/-- A connection with a payload of nine bytes: the length of the elements is behind it. -/
theorem not_event_bounded : ¬∀ (msg : ℕ → UInt8) (priv : Option (UInt8 → Option Unit))
    (aligned : Bool) (block : Option (ℕ → UInt8)),
    ∀ call ∈ (rxEventProcess priv aligned block msg).2, Bounded (payloadLen msg) call := by
  intro h
  set msg : ℕ → UInt8 := fun i => if i = 1 then 0x80 else if i = 2 then 21 else 0 with hmsg
  have hdispatched : Dispatched (some fun _ => some ()) true none msg :=
    ⟨by decide, ⟨_, rfl, rfl⟩, .inl rfl⟩
  obtain ⟨call, hcall⟩ := exists_call hdispatched
  have hwhole := (bounded_iff hcall).1 (h _ _ _ _ call hcall)
  have hconnect := (hwhole.connect rfl).2
  have hsections : sections (payload msg) (payloadLen msg) = [] :=
    walk_of_lt (by decide : 9 < 9 + 2 + numAt (payload msg) 9 2)
  rw [if_pos (.inl rfl), hsections] at hconnect
  exact absurd hconnect (by decide)

end W132d.Event
