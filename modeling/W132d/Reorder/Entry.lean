import W132d.Machine
import W132d.Reorder.Basic

/-!
# The sessions of the receive path

The entry of the receive path (`struct sprdwl_rx_ba_entry`) has the sessions of all
stations and the list of the MSDUs handed up. An ADDBA of the firmware sets a
session up, creating its node if there is none; the session is activated once
the response was sent, and ended by a DELBA or when its peer goes away. The
timer of a session may fire, and data and filter events come in, at any time.

* `Entry`: the state, with a record of the MSDUs that were handed in, taken off
  the list and freed;
* `wlanAddbaEvent`, `wlanDelbaEvent`, `peerEntryDelba`: how nodes come and go;
* `entry`: the machine.

The driver keeps the nodes in a list for each TID (`hlist`). A node is only
created when its station has none in the list, so that a list is a map from the
stations to their nodes. Memory that is not allocated (the ring past its last slot,
the lists past the last TID, a node that was freed) crashes the machine.
-/

namespace W132d.Reorder

/-- `NUM_TIDS`. -/
abbrev numTids : ℕ := 8

instance neZeroByte : NeZero (2 ^ 8) := ⟨by decide⟩

instance neZeroShort : NeZero (2 ^ 16) := ⟨by decide⟩

/-- A station (an `unsigned char`) and a TID. -/
abbrev Key := Fin (2 ^ 8) × Fin numTids

/-- The entry. The MSDUs `handed` to it so far, `fetched` from its list and `freed`
    are a record only. -/
structure Entry where
  hlist : Key → Option RxBaNode
  currentBaNode : Option Key
  skbList : List Skb
  handed : List Skb
  fetched : List Skb
  freed : List Skb

/-- The entry after `sprdwl_reorder_init`. -/
def Entry.init : Entry where
  hlist := fun _ => none
  currentBaNode := none
  skbList := []
  handed := []
  fetched := []
  freed := []

namespace Entry

variable (e : Entry)

/-- `reorder_set_skb_list` and `kfree_skb`, for what a function hands up and frees. -/
def emit (out : Out) : Entry :=
  { e with skbList := e.skbList ++ out.up, freed := e.freed ++ out.freed }

/-- `find_ba_node`: the node found last, if it is the one, or else the one in the list
    of its TID. -/
def findBaNode (staLutIndex : Fin (2 ^ 8)) (tid : ℕ) : Option Key :=
  if h : tid < numTids then
    let k : Key := (staLutIndex, ⟨tid, h⟩)
    -- The node found last is not looked up in its list again.
    if e.currentBaNode = some k || (e.hlist k).isSome then some k else none
  else none

/-- A node, with `current_ba_node` pointing to it. -/
def setNode (k : Key) (n : RxBaNode) : Entry :=
  { e with hlist := Function.update e.hlist k (some n), currentBaNode := some k }

/-- A node taken off its list and freed. -/
def delNode (k : Key) : Entry :=
  { e with hlist := Function.update e.hlist k none, currentBaNode := none }

/-- Working on the node found, if any. Using one that was freed crashes. -/
def onNode (staLutIndex : Fin (2 ^ 8)) (tid : ℕ) (absent : Entry)
    (f : RxBaNode → Option (RxBaNode × Out)) : Option Entry :=
  match e.findBaNode staLutIndex tid with
  | none => some absent
  | some k =>
    match e.hlist k with
    | none => none
    | some n => (f n).map fun r => (e.setNode k r.1).emit r.2

variable {e} {e' absent : Entry} {k : Key} {staLutIndex : Fin (2 ^ 8)} {tid : ℕ}
  {f : RxBaNode → Option (RxBaNode × Out)}

/-- `current_ba_node` points to a node that was not freed. -/
def Valid (e : Entry) : Prop := ∀ k, e.currentBaNode = some k → (e.hlist k).isSome

theorem findBaNode_eq_some (h : e.findBaNode staLutIndex tid = some k) :
    ∃ ht : tid < numTids, k = (staLutIndex, ⟨tid, ht⟩) := by
  unfold findBaNode at h
  split_ifs at h with ht
  dsimp only at h
  split_ifs at h
  exact ⟨ht, (Option.some.inj h).symm⟩

theorem findBaNode_eq_none (h : e.findBaNode staLutIndex tid = none) (ht : tid < numTids) :
    e.hlist (staLutIndex, ⟨tid, ht⟩) = none := by
  rw [findBaNode, dif_pos ht] at h
  dsimp only at h
  split_ifs at h with hfound
  rw [Bool.or_eq_true, not_or] at hfound
  exact Option.not_isSome_iff_eq_none.1 hfound.2

/-- What is done on the node that is found, or that there is none. -/
theorem onNode_eq_some (h : e.onNode staLutIndex tid absent f = some e') :
    (e.findBaNode staLutIndex tid = none ∧ e' = absent) ∨
      ∃ k n r, e.findBaNode staLutIndex tid = some k ∧ e.hlist k = some n ∧ f n = some r ∧
        e' = (e.setNode k r.1).emit r.2 := by
  unfold onNode at h
  split at h
  · rename_i hfind
    exact .inl ⟨hfind, (Option.some.inj h).symm⟩
  · rename_i k hfind
    split at h
    · exact absurd h (by simp)
    · rename_i n hn
      obtain ⟨r, hr, rfl⟩ := Option.map_eq_some_iff.1 h
      exact .inr ⟨k, n, r, hfind, hn, hr, rfl⟩

theorem valid_setNode (n : RxBaNode) (out : Out) : ((e.setNode k n).emit out).Valid := by
  intro k' hk
  obtain rfl : k = k' := Option.some.inj hk
  exact Option.isSome_iff_exists.2 ⟨n, Function.update_self ..⟩

theorem valid_delNode (out : Out) : ((e.delNode k).emit out).Valid :=
  fun k' hk => absurd hk (by simp [delNode, emit])

theorem Valid.onNode (hv : absent.Valid) (h : e.onNode staLutIndex tid absent f = some e') :
    e'.Valid := by
  rcases onNode_eq_some h with ⟨-, rfl⟩ | ⟨k, n, r, -, -, -, rfl⟩
  · exact hv
  · exact valid_setNode r.1 r.2

end Entry

/-! ## Data and filter events -/

/-- The station of an MSDU, as an `unsigned char`. -/
def Skb.staLutIndex (skb : Skb) : Fin (2 ^ 8) :=
  ⟨skb.desc.staLutIndex, Nat.lt_of_lt_of_le skb.desc.staLutIndex_lt (by decide)⟩

/-- `reorder_data_process`; the MSDU is recorded as handed in. -/
def reorderDataProcess (e : Entry) (skb : Skb) : Option Entry :=
  let e := { e with handed := e.handed ++ [skb] }
  if !skb.desc.bcMcFlag && skb.desc.qosFlag then
    e.onNode skb.staLutIndex skb.desc.tid (e.emit { up := [skb] }) (nodeStep · (.msdu skb))
  else some (e.emit { up := [skb] })

/-- `wlan_filter_event`. -/
def wlanFilterEvent (e : Entry) (staLutIndex : Fin (2 ^ 8)) (tid seqNum : ℕ) : Option Entry :=
  e.onNode staLutIndex tid e (nodeStep · (.filter seqNum))

/-! ## Setting sessions up -/

/-- An ADDBA of the firmware, and whether the allocations of a new node succeed. -/
structure AddbaEvent where
  staLutIndex : Fin (2 ^ 8)
  tid : Fin (2 ^ 8)
  winStart : Fin (2 ^ 16)
  winSize : Fin (2 ^ 16)
  allocOk : Bool
  deriving DecidableEq, Repr

/-- `ENOMEM`. -/
def enomem : ℤ := 12

/-- The size of the ring an ADDBA asks for. -/
def AddbaEvent.indexSize (b : AddbaEvent) : ℕ := getIndexSize (2 * b.winSize)

/-- The session of an ADDBA, if there are lists for its TID. -/
def AddbaEvent.key? (b : AddbaEvent) : Option Key :=
  if h : b.tid.1 < numTids then some (b.staLutIndex, ⟨b.tid, h⟩) else none

/-- `wlan_addba_event`, and what it returns. A node that is found is set up anew, in
    the ring it has. A new one for a TID without a list is added out of bounds. -/
def wlanAddbaEvent (e : Entry) (b : AddbaEvent) : Option (Entry × ℤ) :=
  match e.findBaNode b.staLutIndex b.tid with
  | some k =>
    match e.hlist k with
    | none => none
    | some n => some (e.setNode k (addbaNode n b.winStart b.winSize), 0)
  | none =>
    if !b.allocOk then some (e, -enomem)
    else
      -- The allocation is not preceded by a check of the TID.
      match b.key? with
      | none => none
      | some k =>
        some (e.setNode k (addbaNode (createBaNode b.staLutIndex b.tid b.indexSize)
          b.winStart b.winSize), 0)

/-- `sprdwl_active_ba_node`. -/
def sprdwlActiveBaNode (e : Entry) (staLutIndex : Fin (2 ^ 8)) (tid : ℕ) : Option Entry :=
  e.onNode staLutIndex tid e fun n => some (activeBaNode n, {})

/-- The node of one TID in `reset_pn`. -/
def resetPnNode (lutId : Fin (2 ^ 8)) (e : Entry) (tid : Fin numTids) : Option Entry :=
  e.onNode lutId tid e fun n => some ({ n with rxBa := { n.rxBa with resetPn := true } }, {})

/-- `reset_pn`, for the station of an address. -/
def resetPn (e : Entry) (lutId : Fin (2 ^ 8)) : Option Entry :=
  (List.finRange numTids).foldlM (resetPnNode lutId) e

/-! ## Ending sessions -/

/-- What is done to the ring of a node before it is freed: nothing, unless the session
    is active. A DELBA sends what is complete first. -/
def endSession (drain : Bool) (n : RxBaNode) : RxBaNodeDesc × Out :=
  if n.active then
    let r := if drain then betweenSeqloSeqhi n.rxBa else (n.rxBa, {})
    let r' := flushReorderBuffer r.1
    (r'.1, r.2 ++ r'.2)
  else (n.rxBa, {})

/-- Ending the session of a node that is found, and freeing the node. -/
def freeBaNode (drain : Bool) (e : Entry) (staLutIndex : Fin (2 ^ 8)) (tid : ℕ) : Option Entry :=
  match e.findBaNode staLutIndex tid with
  | none => some e
  | some k =>
    match e.hlist k with
    | none => none
    | some n =>
      let r := endSession drain n
      if r.2.oob then none else some ((e.delNode k).emit r.2)

/-- `wlan_delba_event`. -/
def wlanDelbaEvent (e : Entry) (staLutIndex : Fin (2 ^ 8)) (tid : ℕ) : Option Entry :=
  freeBaNode true e staLutIndex tid

/-- The session of one TID in `peer_entry_delba`. -/
def peerDelbaNode (lutIndex : Fin (2 ^ 8)) (e : Entry) (tid : Fin numTids) : Option Entry :=
  freeBaNode false e lutIndex tid

/-- `peer_entry_delba`. -/
def peerEntryDelba (e : Entry) (lutIndex : Fin (2 ^ 8)) : Option Entry :=
  (List.finRange numTids).foldlM (peerDelbaNode lutIndex) e

/-! ## The machine -/

/-- What happens to the entry. -/
inductive EntryEvent
  | data (skb : Skb)
  | filter (staLutIndex tid : Fin (2 ^ 8)) (seqNum : ℕ)
  | timeout (k : Key)
  | addba (b : AddbaEvent)
  | activate (staLutIndex tid : Fin (2 ^ 8))
  | delba (staLutIndex tid : Fin (2 ^ 8))
  | peerDelba (lutIndex : Fin (2 ^ 8))
  | resetPn (lutId : Fin (2 ^ 8))
  | fetch
  deriving DecidableEq, Repr

/-- A timer of a node; the timer of a node is deleted before the node is. -/
def Entry.timeout (e : Entry) (k : Key) : Option Entry :=
  match e.hlist k with
  | none => some e
  | some n => (nodeStep n .timeout).map fun r =>
      { e with hlist := Function.update e.hlist k (some r.1) }.emit r.2

/-- `reorder_get_skb_list`. -/
def reorderGetSkbList (e : Entry) : Entry :=
  { e with fetched := e.fetched ++ e.skbList, skbList := [] }

/-- The entry, as a machine. -/
def entry : Machine Entry EntryEvent where
  step e
    | .data skb => reorderDataProcess e skb
    | .filter staLutIndex tid seqNum => wlanFilterEvent e staLutIndex tid seqNum
    | .timeout k => e.timeout k
    | .addba b => (wlanAddbaEvent e b).map Prod.fst
    | .activate staLutIndex tid => sprdwlActiveBaNode e staLutIndex tid
    | .delba staLutIndex tid => wlanDelbaEvent e staLutIndex tid
    | .peerDelba lutIndex => peerEntryDelba e lutIndex
    | .resetPn lutId => resetPn e lutId
    | .fetch => some (reorderGetSkbList e)

/-! ## What an ADDBA and a DELBA do -/

section

variable {e e' : Entry} {b : AddbaEvent} {ret : ℤ}

/-- An ADDBA sets up the node it finds, runs out of memory, or creates a node. -/
theorem wlanAddbaEvent_cases (h : wlanAddbaEvent e b = some (e', ret)) :
    (∃ k n, b.key? = some k ∧ e.hlist k = some n ∧ ret = 0 ∧
      e' = e.setNode k (addbaNode n b.winStart b.winSize)) ∨
    (ret = -enomem ∧ e' = e) ∨
    (∃ k, b.key? = some k ∧ e.hlist k = none ∧ ret = 0 ∧
      e' = e.setNode k (addbaNode (createBaNode b.staLutIndex b.tid b.indexSize)
        b.winStart b.winSize)) := by
  unfold wlanAddbaEvent at h
  split at h
  · rename_i k hfind
    obtain ⟨ht, rfl⟩ := Entry.findBaNode_eq_some hfind
    split at h
    · exact absurd h (by simp)
    · rename_i n hn
      rw [Option.some_inj, Prod.mk.injEq] at h
      exact .inl ⟨_, n, dif_pos ht, hn, h.2.symm, h.1.symm⟩
  · rename_i hfind
    split_ifs at h
    · rw [Option.some_inj, Prod.mk.injEq] at h
      exact .inr (.inl ⟨h.2.symm, h.1.symm⟩)
    · split at h
      · exact absurd h (by simp)
      · rename_i k hk
        rw [Option.some_inj, Prod.mk.injEq] at h
        refine .inr (.inr ⟨k, hk, ?_, h.2.symm, h.1.symm⟩)
        obtain ⟨ht, hk'⟩ := Option.dite_none_right_eq_some.1 hk
        rw [← Option.some.inj hk']
        exact Entry.findBaNode_eq_none hfind ht

/-- A node that is found is ended and freed. -/
theorem freeBaNode_cases {drain : Bool} {staLutIndex : Fin (2 ^ 8)} {tid : ℕ}
    (h : freeBaNode drain e staLutIndex tid = some e') :
    (e.findBaNode staLutIndex tid = none ∧ e' = e) ∨
      ∃ k n, e.findBaNode staLutIndex tid = some k ∧ e.hlist k = some n ∧
        (endSession drain n).2.oob = false ∧ e' = (e.delNode k).emit (endSession drain n).2 := by
  unfold freeBaNode at h
  split at h
  · rename_i hfind
    exact .inl ⟨hfind, (Option.some.inj h).symm⟩
  · rename_i k hfind
    split at h
    · exact absurd h (by simp)
    · rename_i n hn
      obtain ⟨hoob, h⟩ := Option.ite_none_left_eq_some.1 h
      exact .inr ⟨k, n, hfind, hn, Bool.eq_false_iff.2 hoob, (Option.some.inj h).symm⟩

/-- The timer of a node that is there fires. -/
theorem timeout_cases {k : Key} (h : e.timeout k = some e') :
    (e.hlist k = none ∧ e' = e) ∨
      ∃ n r, e.hlist k = some n ∧ nodeStep n .timeout = some r ∧
        e' = { e with hlist := Function.update e.hlist k (some r.1) }.emit r.2 := by
  unfold Entry.timeout at h
  split at h
  · rename_i hn
    exact .inl ⟨hn, (Option.some.inj h).symm⟩
  · rename_i n hn
    obtain ⟨r, hr, rfl⟩ := Option.map_eq_some_iff.1 h
    exact .inr ⟨n, r, hn, hr, rfl⟩

/-- An MSDU is handed up, or processed by the session it belongs to. -/
theorem reorderDataProcess_cases {skb : Skb} (h : reorderDataProcess e skb = some e') :
    let e₁ := { e with handed := e.handed ++ [skb] }
    e' = e₁.emit { up := [skb] } ∨
      e₁.onNode skb.staLutIndex skb.desc.tid (e₁.emit { up := [skb] }) (nodeStep · (.msdu skb)) =
        some e' := by
  intro e₁
  by_cases hqos : (!skb.desc.bcMcFlag && skb.desc.qosFlag) = true
  · exact .inr ((if_pos hqos).symm.trans h)
  · exact .inl (Option.some.inj ((if_neg hqos).symm.trans h)).symm

/-! ## The node found last -/

theorem Entry.Valid.freeBaNode {drain : Bool} {staLutIndex : Fin (2 ^ 8)} {tid : ℕ}
    (hv : e.Valid) (h : freeBaNode drain e staLutIndex tid = some e') : e'.Valid := by
  rcases freeBaNode_cases h with ⟨-, rfl⟩ | ⟨k, n, -, -, -, rfl⟩
  · exact hv
  · exact valid_delNode _

theorem Entry.Valid.timeout {k : Key} (hv : e.Valid) (h : e.timeout k = some e') : e'.Valid := by
  rcases timeout_cases h with ⟨-, rfl⟩ | ⟨n, r, -, -, rfl⟩
  · exact hv
  · -- The node is replaced, and stays in its list.
    intro k' hk'
    by_cases hkk : k' = k
    · subst hkk
      exact Option.isSome_iff_exists.2 ⟨r.1, Function.update_self ..⟩
    · change (Function.update e.hlist k (some r.1) k').isSome
      rw [Function.update_of_ne hkk]
      exact hv k' hk'

theorem entry_step_valid {ev : EntryEvent} (hv : e.Valid) (h : entry.step e ev = some e') :
    e'.Valid := by
  cases ev with
  | data skb =>
    have hv' : ({ e with handed := e.handed ++ [skb] }.emit { up := [skb] }).Valid := hv
    rcases reorderDataProcess_cases h with rfl | h
    · exact hv'
    · exact hv'.onNode h
  | filter staLutIndex tid seqNum => exact hv.onNode h
  | timeout k => exact hv.timeout h
  | addba b =>
    obtain ⟨⟨e'', ret⟩, hb, rfl⟩ := Option.map_eq_some_iff.1 h
    rcases wlanAddbaEvent_cases hb with ⟨k, n, -, -, -, rfl⟩ | ⟨-, rfl⟩ | ⟨k, -, -, -, rfl⟩
    · exact Entry.valid_setNode _ {}
    · exact hv
    · exact Entry.valid_setNode _ {}
  | activate staLutIndex tid => exact hv.onNode h
  | delba staLutIndex tid => exact hv.freeBaNode h
  | peerDelba lutIndex => exact foldlM_invariant (fun e tid e' hv h => hv.freeBaNode h) hv h
  | resetPn lutId => exact foldlM_invariant (fun e tid e' hv h => hv.onNode h) hv h
  | fetch => exact Option.some.inj h ▸ hv

/-- `current_ba_node` never points to a node that was freed. -/
theorem entry_valid {es : List EntryEvent} (h : entry.run Entry.init es = some e) : e.Valid :=
  Machine.invariant_of_step (fun _ _ _ hv h => entry_step_valid hv h)
    (fun k hk => absurd hk (by simp [Entry.init])) h

end

end W132d.Reorder
