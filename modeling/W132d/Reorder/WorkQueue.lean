import W132d.Reorder.Work

/-!
# The queue of the works

The receive path queues the works of the sessions (`W132d.Reorder.Work`), and a thread executes
them. Other parts of the driver queue works of their own; when an interface goes away, its works
are taken off the list.

* `WorkQueue`: the list and the thread;
* `World`: with the receive path, i.e., the sessions, the peers and the interfaces;
* `world`: the machine;
* `WorkQueue.Next`: what a step that executes no work does to the queue;
* `executed_iff`: the works of a run are executed in order, and as they were queued exactly if each
  grants an ADDBA and is sent; `not_executed`: a refused ADDBA is activated.

A work is queued as a copy of bytes, and it is executed by a thread later. For a work of the
sessions, these are the bytes of the command that is sent to the chip, of which some say what to do:
whether it is the response to an ADDBA, and with what status. The thread gives the bytes to the chip
first, and then activates the session that they name, whatever the status is and whether or not the
chip has taken the command.

How the theorem is proved: a step that executes no work adds one to the end of the list, takes one
off its front, or takes those of an interface off it (`WorkQueue.Next`), so that the order is kept.
What is queued for the sessions was made by `send_addba_rsp` or `send_delba` (`SprdwlWork.Made`), by
an invariant of the runs (`WorkQueue.Inv`). A work was executed as it was queued if what was done
with it is what its bytes ask for; from this, the condition on a step is read off
(`step_asQueued_iff`).
-/

namespace W132d.Reorder

/-! ## The queue -/

/-- Where the thread of the works is. -/
inductive Worker
  | idle
  | taken (w : SprdwlWork)
  /-- In `sprdwl_active_ba_node`. -/
  | active (baEntry : Ptr) (staLutIndex tid : Byte)
  deriving DecidableEq

/-- The work the thread has taken off the list. -/
def Worker.works : Worker → List SprdwlWork
  | taken w => [w]
  | _ => []

/-- The list of works, and the thread. The works `queued` so far and what was `handled` are a record
    only. -/
structure WorkQueue where
  workList : List SprdwlWork
  worker : Worker
  queued : List SprdwlWork
  handled : List Handled
  deriving DecidableEq

namespace WorkQueue

variable (q : WorkQueue)

/-- `sprdwl_queue_work`. -/
def sprdwlQueueWork (w : SprdwlWork) : WorkQueue :=
  { q with workList := q.workList ++ [w], queued := q.queued ++ [w] }

/-- `sprdwl_cancle_work`. -/
def sprdwlCancleWork (vif : Byte) : WorkQueue :=
  { q with workList := q.workList.filter (·.vif ≠ vif) }

/-- `sprdwl_deinit_work`, which waits for the thread. -/
def sprdwlDeinitWork : WorkQueue :=
  if q.worker = .idle then { q with workList := [] } else q

/-- `sprdwl_get_work`. The works that are not about the sessions are done at once. -/
def sprdwlGetWork : WorkQueue :=
  match q.worker, q.workList with
  | .idle, w :: ws =>
    { q with workList := ws, worker := if w.id = sprdwlWorkBaMgmt then .taken w else .idle }
  | _, _ => q

/-- Executing the work that was taken, up to the call of `sprdwl_active_ba_node`. -/
def baMgmt (ok : Bool) (beyond : ℕ → Byte) : WorkQueue :=
  match q.worker with
  | .taken w =>
    let baData := SprdwlBaEventData.ofMem (w.mem beyond)
    { q with
      worker := .active baData.baEntry baData.staLutIndex baData.addbaRsp.tid
      handled := q.handled ++ [w.baMgmt ok beyond] }
  | _ => q

end WorkQueue

/-! ## The receive path -/

/-- `MAX_LUT_NUM`. -/
abbrev maxLutNum : ℕ := 32

/-- `struct sprdwl_peer_entry`. -/
structure SprdwlPeerEntry where
  lutIndex : Byte
  ctxId : Byte
  da : Fin 6 → Byte
  deriving DecidableEq

/-- An entry without a peer. -/
def SprdwlPeerEntry.empty : SprdwlPeerEntry where
  lutIndex := 0
  ctxId := 0xff
  da _ := 0

/-- The actions of `struct sprdwl_sta_lut_ind`. -/
inductive LutAction
  | del
  | upd
  | add
  | other
  deriving DecidableEq, Repr

/-- `struct sprdwl_sta_lut_ind`. -/
structure SprdwlStaLutInd where
  ctxId : Byte
  action : LutAction
  staLutIndex : Byte
  ra : Fin 6 → Byte

/-- An ADDBA that was processed, and what `wlan_addba_event` returned. -/
structure Answer where
  tid : Byte
  staLutIndex : Byte
  status : ℤ
  deriving DecidableEq, Repr

/-- The receive path and the queue: the sessions and their address, the peers, the virtual
    interfaces that are there, the ADDBA that is being answered, and the queue. -/
structure World where
  entry : Entry
  baEntry : Ptr
  peers : Fin maxLutNum → SprdwlPeerEntry
  vifs : Byte → Bool
  answer : Option Answer
  queue : WorkQueue

/-- The world after the driver was loaded. -/
def World.init (baEntry : Ptr) : World where
  entry := .init
  baEntry := baEntry
  peers _ := .empty
  vifs _ := false
  answer := none
  queue := { workList := [], worker := .idle, queued := [], handled := [] }

/-- `STAP_MODE_P2P_DEVICE`. -/
def stapModeP2pDevice : Byte := 2

/-- `sprdwl_reorder_deinit` on one node. -/
def deinitNode (e : Entry) (k : Key) : Option Entry :=
  match e.hlist k with
  | none => some e
  | some n =>
    let r := flushReorderBuffer n.rxBa
    if r.2.oob then none
    else some ({ e with hlist := Function.update e.hlist k none }.emit r.2)

/-- `sprdwl_reorder_deinit`. It leaves the node that was found last. -/
def sprdwlReorderDeinit (e : Entry) : Option Entry :=
  ((List.finRange numTids).flatMap fun tid => (List.finRange (2 ^ 8)).map (·, tid)).foldlM
    deinitNode e

/-- When it fires, the timer of a session asks for a DELBA. -/
def RxBaNode.delbaDue (n : RxBaNode) : Bool :=
  n.timerPending && n.active && n.rxBa.buffCnt ≠ 0 && (n.timeoutCnt + 1) % 2 ^ 8 > maxTimeoutCnt

namespace World

variable (s : World)

/-- The world with other sessions, unless what they come from has crashed. -/
def onEntry (e : Option Entry) : Option World := e.map fun e => { s with entry := e }

/-- `sprdwl_find_peer_entry_using_lut_index`. -/
def sprdwlFindPeerEntryUsingLutIndex (staLutIndex : Byte) : Option SprdwlPeerEntry :=
  ((List.finRange maxLutNum).map s.peers).find? (·.lutIndex = staLutIndex)

/-- `sprdwl_rx_send_cmd_process`. -/
def sprdwlRxSendCmdProcess (data : List Byte) (id ctxId : Byte) (allocOk : Bool) : World :=
  if ctxId > stapModeP2pDevice then s
  else if !s.vifs ctxId then s
  else if !allocOk then s
  else { s with queue := s.queue.sprdwlQueueWork ⟨ctxId, id, data⟩ }

/-- `send_addba_rsp`. -/
def sendAddbaRsp (tid staLutIndex : Byte) (status : ℤ) (allocOk : Bool) : World :=
  match s.sprdwlFindPeerEntryUsingLutIndex staLutIndex with
  | none => s
  | some p =>
    let addbaRsp : SprdwlCmdBa :=
      { type := addbaRspCmd, tid := tid, da := p.da, success := if status ≠ 0 then 0 else 1 }
    s.sprdwlRxSendCmdProcess
      (BaMgmt.addbaRsp { addbaRsp := addbaRsp, baEntry := s.baEntry, staLutIndex }).bytes
      sprdwlWorkBaMgmt p.ctxId allocOk

/-- `send_delba`. -/
def sendDelba (tid staLutIndex : Byte) (allocOk : Bool) : World :=
  match s.sprdwlFindPeerEntryUsingLutIndex staLutIndex with
  | none => s
  | some p =>
    s.sprdwlRxSendCmdProcess
      (BaMgmt.delba { type := delbaCmd, tid := tid, da := p.da, success := 1 }).bytes
      sprdwlWorkBaMgmt p.ctxId allocOk

/-- An ADDBA in `wlan_ba_session_event`, up to its answer. Another one waits for the answer. -/
def addba (b : AddbaEvent) : Option World :=
  match s.answer with
  | some _ => some s
  | none =>
    (wlanAddbaEvent s.entry b).map fun r =>
      { s with entry := r.1, answer := some ⟨b.tid, b.staLutIndex, r.2⟩ }

/-- Its answer. -/
def respond (allocOk : Bool) : World :=
  match s.answer with
  | none => s
  | some a => { s with answer := none }.sendAddbaRsp a.tid a.staLutIndex a.status allocOk

/-- `ba_reorder_timeout` on a node. -/
def timeout (k : Key) (allocOk : Bool) : Option World :=
  (s.entry.timeout k).map fun e =>
    let s' := { s with entry := e }
    match s.entry.hlist k with
    | none => s'
    | some n =>
      if n.delbaDue then s'.sendDelba (Fin.ofNat _ n.tid) (Fin.ofNat _ n.staLutIndex) allocOk
      else s'

/-- An entry of the peers. There are fewer than an `unsigned char` may ask for. -/
def setPeer (i : Byte) (p : SprdwlPeerEntry) : Option World :=
  if h : i.1 < maxLutNum then some { s with peers := Function.update s.peers ⟨i, h⟩ p } else none

/-- `sprdwl_event_sta_lut`. -/
def sprdwlEventStaLut (ind : SprdwlStaLutInd) : Option World :=
  let i := ind.staLutIndex
  match ind.action with
  | .del => (s.onEntry (peerEntryDelba s.entry i)).bind (·.setPeer i .empty)
  | .upd => (s.onEntry (peerEntryDelba s.entry i)).bind (·.setPeer i ⟨i, ind.ctxId, ind.ra⟩)
  | .add => s.setPeer i ⟨i, ind.ctxId, ind.ra⟩
  | .other => some s

/-- The body of `sprdwl_active_ba_node`, after which the thread frees its work. A pointer that is
    not to the sessions crashes. -/
def sprdwlActiveBaNode : Option World :=
  match s.queue.worker with
  | .active baEntry staLutIndex tid =>
    if baEntry = s.baEntry then
      (Reorder.sprdwlActiveBaNode s.entry staLutIndex tid).map fun e =>
        { s with entry := e, queue := { s.queue with worker := .idle } }
    else none
  | _ => some s

end World

/-! ## The world -/

/-- A work that is queued elsewhere. -/
abbrev OtherWork := { w : SprdwlWork // w.id ≠ sprdwlWorkBaMgmt }

/-- What happens. -/
inductive WorkEvent
  | data (skb : Skb)
  | filter (staLutIndex tid : Byte) (seqNum : ℕ)
  | addba (b : AddbaEvent)
  | respond (allocOk : Bool)
  | delba (staLutIndex tid : Byte)
  | timeout (k : Key) (allocOk : Bool)
  | staLut (ind : SprdwlStaLutInd)
  | resetPn (lutId : Byte)
  | fetch
  | reorderDeinit
  /-- An interface comes or goes. -/
  | vif (ctxId : Byte) (there : Bool)
  | queue (w : OtherWork)
  | cancleWork (vif : Byte)
  | deinitWork
  | getWork
  /-- A work is executed, with what memory holds beyond it. -/
  | baMgmt (ok : Bool) (beyond : ℕ → Byte)
  | active

/-- The receive path and the thread of the works, in any order. -/
def world : Machine World WorkEvent where
  step s
    | .data skb => s.onEntry (reorderDataProcess s.entry skb)
    | .filter staLutIndex tid seqNum => s.onEntry (wlanFilterEvent s.entry staLutIndex tid seqNum)
    | .addba b => s.addba b
    | .respond allocOk => some (s.respond allocOk)
    | .delba staLutIndex tid => s.onEntry (wlanDelbaEvent s.entry staLutIndex tid)
    | .timeout k allocOk => s.timeout k allocOk
    | .staLut ind => s.sprdwlEventStaLut ind
    | .resetPn lutId => s.onEntry (resetPn s.entry lutId)
    | .fetch => some { s with entry := reorderGetSkbList s.entry }
    | .reorderDeinit => s.onEntry (sprdwlReorderDeinit s.entry)
    | .vif ctxId there => some { s with vifs := Function.update s.vifs ctxId there }
    | .queue w => some { s with queue := s.queue.sprdwlQueueWork w.1 }
    | .cancleWork vif => some { s with queue := s.queue.sprdwlCancleWork vif }
    | .deinitWork => some { s with queue := s.queue.sprdwlDeinitWork }
    | .getWork => some { s with queue := s.queue.sprdwlGetWork }
    | .baMgmt ok beyond => some { s with queue := s.queue.baMgmt ok beyond }
    | .active => s.sprdwlActiveBaNode

/-! ## What a step does to the queue -/

/-- The work is not about the sessions, or it is what `send_addba_rsp` or `send_delba` made. -/
def SprdwlWork.Made (w : SprdwlWork) : Prop :=
  w.id = sprdwlWorkBaMgmt → ∃ b : BaMgmt, w.data = b.bytes

/-- What a step that executes no work does to the queue. -/
inductive WorkQueue.Next (q : WorkQueue) : WorkQueue → Prop
  | same : q.Next q
  | queue {w : SprdwlWork} (hw : w.Made) : q.Next (q.sprdwlQueueWork w)
  | cancle (vif : Byte) : q.Next (q.sprdwlCancleWork vif)
  | deinit : q.Next q.sprdwlDeinitWork
  | get : q.Next q.sprdwlGetWork
  | returned {baEntry : Ptr} {staLutIndex tid : Byte}
      (hw : q.worker = .active baEntry staLutIndex tid) : q.Next { q with worker := .idle }

section

variable {q q' : WorkQueue} {s s' : World} {ev : WorkEvent} {ok : Bool} {beyond : ℕ → Byte}

/-- Doing nothing is a step of the queue. -/
theorem next_of_queue_eq (h : s'.queue = s.queue) : s.queue.Next s'.queue := h ▸ .same

/-- The operations on an entry leave the queue. -/
theorem onEntry_queue {e : Option Entry} (h : s.onEntry e = some s') : s'.queue = s.queue := by
  obtain ⟨e', -, rfl⟩ := Option.map_eq_some_iff.1 h
  rfl

theorem setPeer_queue {i : Byte} {p : SprdwlPeerEntry} (h : s.setPeer i p = some s') :
    s'.queue = s.queue := by
  obtain ⟨hi, h⟩ := Option.dite_none_right_eq_some.1 h
  rw [← Option.some.inj h]

theorem sprdwlEventStaLut_queue {ind : SprdwlStaLutInd} (h : s.sprdwlEventStaLut ind = some s') :
    s'.queue = s.queue := by
  rw [World.sprdwlEventStaLut] at h
  cases haction : ind.action <;> rw [haction] at h
  case del | upd =>
    obtain ⟨t, ht, h⟩ := Option.bind_eq_some_iff.1 h
    exact (setPeer_queue h).trans (onEntry_queue ht)
  case add => exact setPeer_queue h
  case other => rw [Option.some.inj h]

/-- A command is queued, if there is memory for it. -/
theorem sprdwlRxSendCmdProcess_next (b : BaMgmt) (ctxId : Byte) (allocOk : Bool) :
    s.queue.Next (s.sprdwlRxSendCmdProcess b.bytes sprdwlWorkBaMgmt ctxId allocOk).queue := by
  rw [World.sprdwlRxSendCmdProcess]
  split_ifs
  · exact .same
  · exact .same
  · exact .same
  · exact .queue fun _ => ⟨b, rfl⟩

theorem sendAddbaRsp_next (tid staLutIndex : Byte) (status : ℤ) (allocOk : Bool) :
    s.queue.Next (s.sendAddbaRsp tid staLutIndex status allocOk).queue := by
  rw [World.sendAddbaRsp]
  split
  · exact .same
  · exact sprdwlRxSendCmdProcess_next _ _ allocOk

theorem sendDelba_next (tid staLutIndex : Byte) (allocOk : Bool) :
    s.queue.Next (s.sendDelba tid staLutIndex allocOk).queue := by
  rw [World.sendDelba]
  split
  · exact .same
  · exact sprdwlRxSendCmdProcess_next _ _ allocOk

/-- Setting up a session leaves the queue. -/
theorem addba_queue {b : AddbaEvent} (h : s.addba b = some s') : s'.queue = s.queue := by
  rw [World.addba] at h
  split at h
  · rw [Option.some.inj h]
  · obtain ⟨r, -, rfl⟩ := Option.map_eq_some_iff.1 h
    rfl

theorem respond_next (allocOk : Bool) : s.queue.Next (s.respond allocOk).queue := by
  rw [World.respond]
  split
  · exact .same
  · exact sendAddbaRsp_next (s := { s with answer := none }) _ _ _ _

/-- An idle session that is ended may queue a command. -/
theorem timeout_next {k : Key} {allocOk : Bool} (h : s.timeout k allocOk = some s') :
    s.queue.Next s'.queue := by
  obtain ⟨e, -, rfl⟩ := Option.map_eq_some_iff.1 h
  dsimp only
  split
  · exact .same
  · split_ifs
    · exact sendDelba_next (s := { s with entry := e }) _ _ _
    · exact .same

theorem sprdwlActiveBaNode_next (h : s.sprdwlActiveBaNode = some s') : s.queue.Next s'.queue := by
  rw [World.sprdwlActiveBaNode] at h
  split at h
  · rename_i hw
    obtain ⟨-, h⟩ := Option.ite_none_right_eq_some.1 h
    obtain ⟨e, -, rfl⟩ := Option.map_eq_some_iff.1 h
    exact .returned hw
  · rw [Option.some.inj h]
    exact .same

/-- A step executes a work, or it does one of these things to the queue. -/
theorem step_next (hev : ∀ ok beyond, ev ≠ .baMgmt ok beyond) (h : world.step s ev = some s') :
    s.queue.Next s'.queue := by
  cases ev with
  | data skb => exact next_of_queue_eq (onEntry_queue h)
  | filter staLutIndex tid seqNum => exact next_of_queue_eq (onEntry_queue h)
  | addba b => exact next_of_queue_eq (addba_queue h)
  | respond allocOk => exact Option.some.inj h ▸ respond_next allocOk
  | delba staLutIndex tid => exact next_of_queue_eq (onEntry_queue h)
  | timeout k allocOk => exact timeout_next h
  | staLut ind => exact next_of_queue_eq (sprdwlEventStaLut_queue h)
  | resetPn lutId => exact next_of_queue_eq (onEntry_queue h)
  | fetch => exact Option.some.inj h ▸ .same
  | reorderDeinit => exact next_of_queue_eq (onEntry_queue h)
  | vif ctxId there => exact Option.some.inj h ▸ .same
  | queue w => exact Option.some.inj h ▸ .queue fun hid => absurd hid w.2
  | cancleWork vif => exact Option.some.inj h ▸ .cancle vif
  | deinitWork => exact Option.some.inj h ▸ .deinit
  | getWork => exact Option.some.inj h ▸ .get
  | baMgmt ok beyond => exact absurd rfl (hev ok beyond)
  | active => exact sprdwlActiveBaNode_next h

end

/-! ## Every run -/

/-- What holds of the queue in every run: works are taken in the order they were queued in, and
    those that are executed here were made by `send_addba_rsp` or `send_delba`. -/
structure WorkQueue.Inv (q : WorkQueue) : Prop where
  order : (q.handled.map (·.work) ++ q.worker.works ++ q.workList).Sublist q.queued
  made : ∀ w ∈ q.queued, w.Made
  about : ∀ w ∈ q.handled.map (·.work) ++ q.worker.works, w.id = sprdwlWorkBaMgmt

namespace WorkQueue

variable {q q' : WorkQueue} {w : SprdwlWork} {ok : Bool} {beyond : ℕ → Byte}

/-- The commands that were handled, or are about to be, are of the driver's making. -/
theorem Inv.exists_bytes (hI : q.Inv) (hw : w ∈ q.handled.map (·.work) ++ q.worker.works) :
    ∃ b : BaMgmt, w.data = b.bytes :=
  hI.made w (hI.order.subset (List.mem_append_left _ hw)) (hI.about w hw)

/-- Queueing a command of the driver's making keeps the invariant. -/
theorem Inv.sprdwlQueueWork (hI : q.Inv) (hw : w.Made) : (q.sprdwlQueueWork w).Inv where
  order := by
    change (_ ++ _ ++ (q.workList ++ [w])).Sublist (q.queued ++ [w])
    rw [← List.append_assoc]
    exact hI.order.append (.refl _)
  made := List.forall_mem_append.2 ⟨hI.made, List.forall_mem_singleton.2 hw⟩
  about := hI.about

/-- Works that are not executed are taken off the list. -/
theorem Inv.of_sublist (hI : q.Inv) {ws : List SprdwlWork} (hws : ws.Sublist q.workList) :
    { q with workList := ws }.Inv where
  order := ((List.Sublist.refl _).append hws).trans hI.order
  made := hI.made
  about := hI.about

theorem Inv.sprdwlGetWork (hI : q.Inv) : q.sprdwlGetWork.Inv := by
  rw [WorkQueue.sprdwlGetWork]
  split
  · rename_i w ws hworker hlist
    have horder := hI.order
    have habout := hI.about
    rw [hworker, hlist] at horder
    rw [hworker] at habout
    by_cases hid : w.id = sprdwlWorkBaMgmt
    · rw [if_pos hid]
      refine ⟨?_, hI.made, ?_⟩
      · simpa only [Worker.works, List.append_nil, List.append_assoc, List.singleton_append]
          using horder
      · simp only [Worker.works, List.append_nil] at habout
        exact List.forall_mem_append.2 ⟨habout, List.forall_mem_singleton.2 hid⟩
    · rw [if_neg hid]
      refine ⟨?_, hI.made, habout⟩
      exact ((List.Sublist.refl _).append (List.sublist_cons_self w ws)).trans horder
  · exact hI

theorem Inv.next (hI : q.Inv) (h : q.Next q') : q'.Inv := by
  cases h with
  | same => exact hI
  | queue hw => exact hI.sprdwlQueueWork hw
  | cancle vif => exact hI.of_sublist List.filter_sublist
  | deinit =>
    rw [sprdwlDeinitWork]
    split_ifs
    · exact hI.of_sublist (List.nil_sublist _)
    · exact hI
  | get => exact hI.sprdwlGetWork
  | returned hw =>
    obtain ⟨horder, hmade, habout⟩ := hI
    rw [hw] at horder habout
    exact ⟨horder, hmade, habout⟩

theorem Inv.baMgmt (hI : q.Inv) : (q.baMgmt ok beyond).Inv := by
  rw [WorkQueue.baMgmt]
  split
  · rename_i w hworker
    obtain ⟨horder, hmade, habout⟩ := hI
    rw [hworker] at horder habout
    -- The work was the last one taken, and is now the last one handled.
    have hworks : (q.handled ++ [w.baMgmt ok beyond]).map (·.work) ++ [] =
        q.handled.map (·.work) ++ [w] := by
      rw [List.append_nil, List.map_append, List.map_singleton, SprdwlWork.baMgmt]
    refine ⟨?_, hmade, ?_⟩
    · exact hworks ▸ horder
    · exact hworks ▸ habout
  · exact hI

/-- What is queued was not handled yet. -/
theorem Next.handled_eq (h : q.Next q') : q'.handled = q.handled := by
  cases h with
  | same => rfl
  | queue hw => rfl
  | cancle vif => rfl
  | deinit =>
    rw [sprdwlDeinitWork]
    split_ifs <;> rfl
  | get =>
    rw [sprdwlGetWork]
    split <;> rfl
  | returned hw => rfl

end WorkQueue

/-- If a work of the sessions is executed, it grants an ADDBA, and the chip takes the command. -/
def Proper (s : World) : WorkEvent → Prop
  | .baMgmt ok _ => ∀ w ∈ s.queue.worker.works, ok ∧ ∃ b : BaMgmt, w.data = b.bytes ∧ b.Granted
  | _ => True

section

variable {s s' : World} {ev : WorkEvent} {ok : Bool} {beyond : ℕ → Byte}

/-- A step executes a work, or it does something else to the queue. -/
theorem step_cases (h : world.step s ev = some s') :
    (∃ ok beyond, ev = .baMgmt ok beyond ∧ s'.queue = s.queue.baMgmt ok beyond) ∨
      (Proper s ev ∧ s.queue.Next s'.queue) := by
  cases ev with
  | baMgmt ok beyond =>
    exact .inl ⟨ok, beyond, rfl, congrArg World.queue (Option.some.inj h).symm⟩
  | _ => exact .inr ⟨trivial, step_next (fun _ _ heq => by cases heq) h⟩

/-- Every step keeps the invariant. -/
theorem inv_step (hI : s.queue.Inv) (h : world.step s ev = some s') : s'.queue.Inv := by
  rcases step_cases h with ⟨ok, beyond, -, hqueue⟩ | ⟨-, hnext⟩
  · rw [hqueue]
    exact hI.baMgmt
  · exact hI.next hnext

/-- Executing a work. -/
theorem forall_baMgmt_iff (hI : s.queue.Inv) (hP : ∀ h ∈ s.queue.handled, h.AsQueued) :
    (∀ h ∈ (s.queue.baMgmt ok beyond).handled, h.AsQueued) ↔ Proper s (.baMgmt ok beyond) := by
  rw [Proper, WorkQueue.baMgmt]
  cases hworker : s.queue.worker with
  | idle => exact iff_of_true hP (List.forall_mem_nil _)
  | active baEntry staLutIndex tid => exact iff_of_true hP (List.forall_mem_nil _)
  | taken w =>
    have hw : w ∈ s.queue.handled.map (·.work) ++ s.queue.worker.works := by
      rw [hworker]
      exact List.mem_append_right _ (List.mem_singleton_self w)
    obtain ⟨b, hb⟩ := hI.exists_bytes hw
    have hgranted : (∃ b' : BaMgmt, w.data = b'.bytes ∧ b'.Granted) ↔ b.Granted :=
      ⟨fun ⟨b', hb', h⟩ => BaMgmt.bytes_injective (hb.symm.trans hb') ▸ h, fun h => ⟨b, hb, h⟩⟩
    rw [Worker.works, List.forall_mem_singleton, hgranted, ← asQueued_iff hb]
    dsimp only
    rw [List.forall_mem_append, List.forall_mem_singleton]
    exact and_iff_right hP

theorem step_asQueued_iff (hI : s.queue.Inv) (hP : ∀ h ∈ s.queue.handled, h.AsQueued)
    (h : world.step s ev = some s') :
    (∀ h ∈ s'.queue.handled, h.AsQueued) ↔ Proper s ev := by
  rcases step_cases h with ⟨ok, beyond, rfl, hqueue⟩ | ⟨hproper, hnext⟩
  · rw [hqueue]
    exact forall_baMgmt_iff hI hP
  · rw [hnext.handled_eq]
    exact iff_of_true hP hproper

/-- What was handled is not taken back. -/
theorem handled_subset (h : world.step s ev = some s') :
    s.queue.handled ⊆ s'.queue.handled := by
  rcases step_cases h with ⟨ok, beyond, -, hqueue⟩ | ⟨-, hnext⟩
  · rw [hqueue, WorkQueue.baMgmt]
    split
    · exact List.subset_append_left _ _
    · exact List.Subset.refl _
  · rw [hnext.handled_eq]
    exact List.Subset.refl _

end

/-- Nothing was queued yet. -/
theorem inv_init (baEntry : Ptr) : (World.init baEntry).queue.Inv where
  order := .refl _
  made := List.forall_mem_nil _
  about := List.forall_mem_nil _

/-- In every run, the works of the sessions are executed in the order they were queued in, each one
    was made by `send_addba_rsp` or `send_delba`, and they are all executed as they were queued
    exactly if each grants an ADDBA and its command is sent. -/
theorem executed_iff {baEntry : Ptr} {evs : List WorkEvent} {s : World}
    (hrun : world.run (World.init baEntry) evs = some s) :
    (s.queue.handled.map (·.work)).Sublist s.queue.queued ∧
      (∀ h ∈ s.queue.handled, ∃ b : BaMgmt, h.work.data = b.bytes) ∧
      ((∀ h ∈ s.queue.handled, h.AsQueued) ↔ world.Along Proper (World.init baEntry) evs) := by
  have hI : s.queue.Inv :=
    Machine.invariant_of_step (I := fun s : World => s.queue.Inv) (fun _ _ _ hI h => inv_step hI h)
      (inv_init baEntry) hrun
  refine ⟨?_, ?_, ?_⟩
  · refine List.Sublist.trans ?_ hI.order
    rw [List.append_assoc]
    exact List.sublist_append_left _ _
  · intro h hh
    exact hI.exists_bytes (List.mem_append_left _ (List.mem_map_of_mem hh))
  · have hlast := Machine.always_iff_last (I := fun s : World => s.queue.Inv)
      (P := fun s : World => ∀ h ∈ s.queue.handled, h.AsQueued) (fun _ _ _ hI h => inv_step hI h)
      (fun _ _ _ _ h hP k hk => hP k (handled_subset h hk)) (inv_init baEntry) hrun
    rw [← hlast]
    exact Machine.always_iff_along (fun _ _ _ hI h => inv_step hI h)
      (fun _ _ _ hI hP h => step_asQueued_iff hI hP h) (inv_init baEntry)
      (List.forall_mem_nil _) hrun

/-- An ADDBA that is answered. -/
def answered (allocOk : Bool) : List WorkEvent :=
  [.vif 1 true, .staLut ⟨1, .add, 5, fun _ => 0xaa⟩,
    .addba { staLutIndex := 5, tid := 3, winStart := 0, winSize := 8, allocOk := allocOk },
    .respond true, .getWork, .baMgmt true fun _ => 0]

/-- A request that is answered: the response is sent as it was queued. -/
theorem executed_granted : ∃ s, world.run (World.init fun _ => 1) (answered true) = some s ∧
    s.queue.handled.length = 1 ∧
    (s.queue.handled.map (·.work)).Sublist s.queue.queued ∧
      (∀ h ∈ s.queue.handled, ∃ b : BaMgmt, h.work.data = b.bytes) ∧
      ((∀ h ∈ s.queue.handled, h.AsQueued) ↔
        world.Along Proper (World.init fun _ => 1) (answered true)) := by
  obtain ⟨s, hrun, hlen⟩ := @Machine.exists_run _ _ world (World.init fun _ => 1) (answered true)
    (fun s => s.queue.handled.length = 1) _ (by decide)
  exact ⟨s, hrun, hlen, executed_iff hrun⟩

/-- The response to an ADDBA for which there is no memory. -/
def refused : SprdwlBaEventData where
  addbaRsp := { type := addbaRspCmd, tid := 3, da := fun _ => 0xaa, success := 0 }
  baEntry _ := 1
  staLutIndex := 5

/-- The response refuses the ADDBA, and the session is activated. -/
theorem not_executed : ¬∀ (baEntry : Ptr) (evs : List WorkEvent) (s : World),
    world.run (World.init baEntry) evs = some s → ∀ h ∈ s.queue.handled, h.AsQueued := by
  intro hall
  obtain ⟨s, hrun, h, hh, hdata, hcalls⟩ := @Machine.exists_run _ _ world (World.init fun _ => 1)
    (answered false)
    (fun s => ∃ h ∈ s.queue.handled, h.work.data = refused.bytes ∧ h.calls = [(fun _ => 1, 5, 3)])
    _ (by decide)
  have has : h.As (.addbaRsp refused) := hall _ _ s hrun h hh _ hdata
  exact absurd (hcalls.symm.trans has.activates) (by decide)

end W132d.Reorder
