import W132d.Reorder.InRing
import W132d.Reorder.Life
import W132d.Reorder.Restart
import W132d.Reorder.WorkQueue

/-!
# BA events stay inside their tables

A BA event of the firmware has a TID, a station and a window, and none of them is checked where it
comes in (`wlan_ba_session_event`). `find_ba_node` checks the TID before it goes to the list of the
TID, and a station without a node is not found; `create_ba_node` and the peer table are used as the
event says.

* `BaTables`: the entry and the peer table;
* `BaTables.accesses`: what an event accesses;
* `BaTables.Inside`: it accesses the tables where they are, and changes nothing if its TID or its
  station is out of range;
* `ba_inside_iff`: along every run without an ADDBA that sets up a node for more slots than its
  ring has, an event is inside exactly if it is `Addressed`. After such an ADDBA, a DELBA leaves
  the ring.

The tables of the source are arrays, here functions of an index that is in their range, so that an
access outside cannot be written down. So the accesses are listed beside the function (`accesses`),
with the index that the event yields. What the function does in the model where an index is out of
range is of no account: such an access is not inside.

How the theorem is proved: along a run, a node that is there has a station that there is, and a mask
below the length of its ring (`Fitted`). This is kept if the ADDBAs set up no node for a station out
of range, nor for more slots than its ring has. An event then stays inside exactly if it creates no
node for a TID or a station out of range, and clears no bit behind the map of a peer
(`Fitted.inside_iff`).
-/

namespace W132d.Reorder

/-! ## Events -/

/-- The bits of an `unsigned long`. -/
abbrev bitsPerLong : ℕ := 64

/-- The types of the BA events that are handled; the BAR is not, for now. -/
inductive BaType
  | addbaReq
  | delba
  | filter
  | deltxba
  | other
  deriving DecidableEq, Repr

/-- The type of a code. -/
def BaType.ofCode (code : Fin (2 ^ 8)) : BaType :=
  if code = 0 then .addbaReq
  else if code = 2 then .delba
  else if code = 4 then .filter
  else if code = 6 then .deltxba
  else .other

/-- A BA event (`struct sprdwl_event_ba`). The sequence number of a filter event is where the
    start of the window is for the others. -/
structure BaEvent where
  type : Fin (2 ^ 8)
  tid : Fin (2 ^ 8)
  staLutIndex : Fin (2 ^ 8)
  winStart : Fin (2 ^ 16)
  winSize : Fin (2 ^ 16)
  deriving DecidableEq, Repr

/-- The ADDBA of an event. -/
def BaEvent.addba (ev : BaEvent) (allocOk : Bool) : AddbaEvent where
  staLutIndex := ev.staLutIndex
  tid := ev.tid
  winStart := ev.winStart
  winSize := ev.winSize
  allocOk := allocOk

/-- The TID or the station is out of range. -/
def BaEvent.OutOfRange (ev : BaEvent) : Prop :=
  numTids ≤ ev.tid.1 ∨ maxLutNum ≤ ev.staLutIndex.1

instance (ev : BaEvent) : Decidable ev.OutOfRange := inferInstanceAs (Decidable (_ ∨ _))

/-! ## Tables -/

/-- A peer and its `ba_tx_done_map`. The bits are set for the TIDs of packets, which have 3 bits. -/
structure PeerEntry extends SprdwlPeerEntry where
  baTxDoneMap : Fin bitsPerLong → Bool
  clear : ∀ i, numTids ≤ i.1 → baTxDoneMap i = false

/-- `test_and_clear_bit`, of the map of a peer. -/
def PeerEntry.clearBit (p : PeerEntry) (tid : Fin bitsPerLong) : PeerEntry where
  toSprdwlPeerEntry := p.toSprdwlPeerEntry
  baTxDoneMap := Function.update p.baTxDoneMap tid false
  clear i hi := by
    by_cases h : i = tid
    · rw [h, Function.update_self]
    · rw [Function.update_of_ne h]
      exact p.clear i hi

/-- The entry and the peer table. -/
structure BaTables where
  entry : Entry
  peerEntry : Fin maxLutNum → PeerEntry

/-- `sprdwl_find_peer_entry_using_lut_index`. -/
def findPeerEntry (peerEntry : Fin maxLutNum → PeerEntry) (staLutIndex : Fin (2 ^ 8)) :
    Option (Fin maxLutNum) :=
  (List.finRange maxLutNum).find? fun i => (peerEntry i).lutIndex = staLutIndex

namespace BaTables

variable (s : BaTables) (ev : BaEvent) (allocOk : Bool)

/-- `wlan_ba_session_event`, and whether the allocations of a new node succeed. (The response to
    an ADDBA changes no table.) -/
def wlanBaSessionEvent : Option BaTables :=
  match BaType.ofCode ev.type with
  | .addbaReq => (wlanAddbaEvent s.entry (ev.addba allocOk)).map fun r => { s with entry := r.1 }
  | .delba =>
    (wlanDelbaEvent s.entry ev.staLutIndex ev.tid).map fun e => { s with entry := e }
  | .filter =>
    (wlanFilterEvent s.entry ev.staLutIndex ev.tid ev.winStart).map fun e =>
      { s with entry := e }
  | .deltxba =>
    if h : ev.staLutIndex.1 < maxLutNum ∧ ev.tid.1 < bitsPerLong then
      let i : Fin maxLutNum := ⟨ev.staLutIndex, h.1⟩
      some { s with
        peerEntry := Function.update s.peerEntry i ((s.peerEntry i).clearBit ⟨ev.tid, h.2⟩) }
    else none
  | .other => some s

/-! ## Accesses -/

end BaTables

/-- An access to a table: to a list of nodes, to a peer or to a bit of its map, or to the ring of a
    node, which may have left it. -/
inductive Access
  | hlist (i : ℕ)
  | peerEntry (i : ℕ)
  | baTxDoneMap (i : ℕ)
  | ring (oob : Bool)
  deriving DecidableEq, Repr

/-- The index is smaller than the length. -/
def Access.InTable : Access → Prop
  | .hlist i => i < numTids
  | .peerEntry i => i < maxLutNum
  | .baTxDoneMap i => i < bitsPerLong
  | .ring oob => oob = false

/-- The node that is found. -/
def Entry.found? (e : Entry) (staLutIndex : Fin (2 ^ 8)) (tid : ℕ) : Option RxBaNode :=
  (e.findBaNode staLutIndex tid).bind e.hlist

/-- `find_ba_node` goes to the list of the TID, unless the node is the one found last. -/
def findBaNodeAccesses (e : Entry) (staLutIndex : Fin (2 ^ 8)) (tid : ℕ) : List Access :=
  if h : tid < numTids then
    if e.currentBaNode = some (staLutIndex, ⟨tid, h⟩) then [] else [.hlist tid]
  else []

/-- `sprdwl_find_peer_entry_using_lut_index` goes over the peers up to the one it finds. -/
def findPeerEntryAccesses (peerEntry : Fin maxLutNum → PeerEntry) (staLutIndex : Fin (2 ^ 8)) :
    List Access :=
  let num := (findPeerEntry peerEntry staLutIndex).elim maxLutNum fun i => i.1 + 1
  ((List.finRange maxLutNum).take num).map fun i : Fin maxLutNum => .peerEntry i.1

namespace BaTables

variable (s : BaTables) (ev : BaEvent) (allocOk : Bool)

/-- What `wlan_ba_session_event` accesses. -/
def accesses : List Access :=
  let find := findBaNodeAccesses s.entry ev.staLutIndex ev.tid
  match BaType.ofCode ev.type with
  | .addbaReq =>
    -- `create_ba_node` adds the node to the list of the TID.
    let create := if s.entry.findBaNode ev.staLutIndex ev.tid = none ∧ allocOk then
      [.hlist ev.tid] else []
    find ++ create ++ findPeerEntryAccesses s.peerEntry ev.staLutIndex
  | .delba => find ++ (s.entry.found? ev.staLutIndex ev.tid).elim [] fun n =>
    [.ring (endSession true n).2.oob]
  | .filter => find ++ (s.entry.found? ev.staLutIndex ev.tid).elim [] fun n =>
    if n.active then [.ring (reorderActive (filterDesc ev.winStart) none n).2.oob] else []
  | .deltxba => [.peerEntry ev.staLutIndex, .baTxDoneMap ev.tid]
  | .other => []

/-- The event accesses the tables where they are, and changes nothing if its TID or its station is
    out of range. -/
structure Inside : Prop where
  accesses : ∀ a ∈ s.accesses ev allocOk, a.InTable
  unchanged : ev.OutOfRange → s.wlanBaSessionEvent ev allocOk = some s

/-- A node is created for a TID and a station that there are, and the bit of a TID is cleared that
    the map of a peer has. -/
def Addressed : Prop :=
  match BaType.ofCode ev.type with
  | .addbaReq => s.entry.findBaNode ev.staLutIndex ev.tid = none → allocOk → ¬ev.OutOfRange
  | .deltxba => ev.staLutIndex.1 < maxLutNum ∧ ev.tid.1 < bitsPerLong
  | .delba | .filter | .other => True

/-- An ADDBA finds a node whose ring is smaller than what it asks for. -/
def Grows : Prop :=
  BaType.ofCode ev.type = .addbaReq ∧
    ∃ n, s.entry.found? ev.staLutIndex ev.tid = some n ∧
      n.rxBa.slots < (ev.addba allocOk).indexSize

end BaTables

/-! ## What holds along a run -/

/-- Every node has a station that there is and a mask for its ring, and the node found last is
    there. -/
structure Fitted (e : Entry) : Prop where
  valid : e.Valid
  node : ∀ k n, e.hlist k = some n → n.rxBa.indexMask < n.rxBa.slots ∧ k.1.1 < maxLutNum

section

variable {e e' : Entry} {s s' : BaTables} {ev : BaEvent} {allocOk : Bool}
  {staLutIndex : Fin (2 ^ 8)} {tid : ℕ} {k : Key} {n n' : RxBaNode}

theorem Entry.found?_eq_some (h : e.found? staLutIndex tid = some n) :
    ∃ k, e.findBaNode staLutIndex tid = some k ∧ e.hlist k = some n :=
  Option.bind_eq_some_iff.1 h

/-- The node of a station and a TID is the one that is found. -/
theorem Entry.found?_of_some (hk : key? staLutIndex tid = some k) (hn : e.hlist k = some n) :
    e.found? staLutIndex tid = some n :=
  Option.bind_eq_some_iff.2 ⟨k, findBaNode_of_some hk hn, hn⟩

/-- No node is found where there is none. -/
theorem Entry.Valid.findBaNode_eq_none (hv : e.Valid)
    (h : ∀ k, key? staLutIndex tid = some k → e.hlist k = none) :
    e.findBaNode staLutIndex tid = none := by
  by_contra hne
  obtain ⟨k, hfind⟩ := Option.ne_none_iff_exists'.1 hne
  have hnone := h k (findBaNode_key hfind)
  obtain ⟨ht, rfl⟩ := Entry.findBaNode_eq_some hfind
  rw [Entry.findBaNode, dif_pos ht] at hfind
  dsimp only at hfind
  split_ifs at hfind with hfound
  rw [hnone, Option.isSome_none, Bool.or_false, decide_eq_true_eq] at hfound
  exact absurd (hv _ hfound) (by rw [hnone]; exact Bool.false_ne_true)

/-- No node is found for a TID or a station that is out of range. -/
theorem Fitted.findBaNode_outOfRange (h : Fitted e) (hout : ev.OutOfRange) :
    e.findBaNode ev.staLutIndex ev.tid = none := by
  refine h.valid.findBaNode_eq_none fun k hk => ?_
  obtain ⟨ht, hk⟩ := Option.dite_none_right_eq_some.1 hk
  obtain rfl := Option.some.inj hk
  rcases hout with htid | hsta
  · exact absurd ht (Nat.not_lt.2 htid)
  · refine Option.eq_none_iff_forall_ne_some.2 fun n hn => ?_
    exact absurd (h.node _ n hn).2 (Nat.not_lt.2 hsta)

/-- What an ADDBA does when it finds no node. -/
theorem wlanAddbaEvent_none {b : AddbaEvent} (hfind : e.findBaNode b.staLutIndex b.tid = none) :
    (b.allocOk = false → wlanAddbaEvent e b = some (e, -enomem)) ∧
      (b.allocOk = true → ∀ k, b.key? = some k → ∃ n, wlanAddbaEvent e b =
        some (e.setNode k n, 0)) := by
  unfold wlanAddbaEvent
  rw [hfind]
  refine ⟨fun hok => if_pos (by rw [hok, Bool.not_false]), fun hok k hk => ?_⟩
  dsimp only
  rw [if_neg (by rw [hok]; exact Bool.false_ne_true), hk]
  exact ⟨_, rfl⟩

/-- Only an ADDBA changes the mask of a node. -/
theorem lifeStep_keepsRing {le : LifeEvent} (h : lifeStep n le = some n') :
    n'.rxBa.slots = n.rxBa.slots ∧ (n'.rxBa.indexMask = n.rxBa.indexMask ∨
      ∃ winStart winSize, le = .addba winStart winSize ∧
        n'.rxBa.indexMask = getIndexSize (2 * winSize) - 1) := by
  cases le with
  | node e =>
    obtain ⟨r, hr, rfl⟩ := Option.map_eq_some_iff.1 h
    obtain ⟨hmask, hslots⟩ := nodeStep_keepsRing hr
    exact ⟨hslots, .inl hmask⟩
  | addba winStart winSize =>
    rw [← Option.some.inj h]
    exact ⟨rfl, .inr ⟨winStart, winSize, rfl, rfl⟩⟩
  | activate =>
    rw [← Option.some.inj h]
    exact ⟨rfl, .inl rfl⟩
  | resetPn =>
    rw [← Option.some.inj h]
    exact ⟨rfl, .inl rfl⟩
  | endSession drain =>
    have hring := endSession_inRing drain n
    rw [← Option.some.inj h]
    exact ⟨hring.slots, .inl hring.mask⟩

/-- A step of the entry keeps it fitted, if an ADDBA creates a node for a station that there is,
    and finds one with a ring that is large enough. -/
theorem entry_step_fitted (ev : EntryEvent) (h : Fitted e)
    (hadd : ∀ b, ev = .addba b →
      (e.findBaNode b.staLutIndex b.tid = none → b.allocOk → b.staLutIndex.1 < maxLutNum) ∧
      ∀ n, e.found? b.staLutIndex b.tid = some n → b.indexSize ≤ n.rxBa.slots)
    (hstep : entry.step e ev = some e') : Fitted e' := by
  refine ⟨entry_step_valid h.valid hstep, fun k n' hn' => ?_⟩
  cases hn : e.hlist k with
  | none =>
    obtain ⟨b, rfl, hok, hk, rfl⟩ := entry_step_none hstep hn hn'
    have hfind : e.findBaNode b.staLutIndex b.tid = none :=
      h.valid.findBaNode_eq_none fun k' hk' => Option.some.inj (hk'.symm.trans hk) ▸ hn
    obtain ⟨ht, hk⟩ := Option.dite_none_right_eq_some.1 hk
    obtain rfl := Option.some.inj hk
    exact ⟨Nat.sub_lt (indexSize_pos b) Nat.one_pos, (hadd b rfl).1 hfind hok⟩
  | some n =>
    obtain ⟨hmask, hsta⟩ := h.node k n hn
    have hturn := entry_step_some hstep hn hn'
    split at hturn
    · rename_i le hle
      obtain ⟨hslots, hkept | ⟨winStart, winSize, rfl, hset⟩⟩ := lifeStep_keepsRing hturn
      · exact ⟨by rw [hslots, hkept]; exact hmask, hsta⟩
      · -- The ADDBA is the one of the event.
        cases ev <;> simp only [lifeEvent?, reduceCtorEq, Option.ite_none_right_eq_some,
          Option.some_inj, LifeEvent.addba.injEq, and_false] at hle
        rename_i b
        obtain ⟨hk, rfl, rfl⟩ := hle
        have hsize := (hadd b rfl).2 n (Entry.found?_of_some hk hn)
        refine ⟨?_, hsta⟩
        rw [hset, hslots]
        exact (Nat.sub_lt (indexSize_pos b) Nat.one_pos).trans_le hsize
    · exact ⟨by rw [hturn]; exact hmask, hsta⟩

end

/-! ## A step of the tables -/

/-- What happens to the tables: a BA event, an event of the entry that is none, and the TX path. -/
inductive BaInput
  | ba (ev : BaEvent) (allocOk : Bool)
  | rest (ev : EntryEvent) (h : ∀ b, ev ≠ .addba b)
  | peer (i : Fin maxLutNum) (p : PeerEntry)

/-- The tables, as a machine. -/
def baTables : Machine BaTables BaInput where
  step s
    | .ba ev allocOk => s.wlanBaSessionEvent ev allocOk
    | .rest ev _ => (entry.step s.entry ev).map fun e => { s with entry := e }
    | .peer i p => some { s with peerEntry := Function.update s.peerEntry i p }

/-- The tables of a driver that was loaded. -/
def BaTables.init (peerEntry : Fin maxLutNum → PeerEntry) : BaTables where
  entry := .init
  peerEntry := peerEntry

/-- A BA event is addressed to what there is, and sets up no node for more slots than it has. -/
def BaTables.Fits (s : BaTables) : BaInput → Prop
  | .ba ev allocOk => s.Addressed ev allocOk ∧ ¬s.Grows ev allocOk
  | .rest _ _ | .peer _ _ => True

section

variable {e e' : Entry} {s s' : BaTables} {ev : BaEvent} {allocOk : Bool}

/-- A step that fits keeps the entry fitted. -/
theorem baTables_step_fitted {i : BaInput} (h : Fitted s.entry) (hfits : s.Fits i)
    (hstep : baTables.step s i = some s') : Fitted s'.entry := by
  cases i with
  | ba ev allocOk =>
    obtain ⟨haddressed, hgrows⟩ := hfits
    change s.wlanBaSessionEvent ev allocOk = some s' at hstep
    unfold BaTables.wlanBaSessionEvent at hstep
    unfold BaTables.Addressed at haddressed
    unfold BaTables.Grows at hgrows
    cases hcode : BaType.ofCode ev.type with
    | addbaReq =>
      rw [hcode] at hstep haddressed hgrows
      obtain ⟨r, hr, rfl⟩ := Option.map_eq_some_iff.1 hstep
      refine entry_step_fitted (.addba (ev.addba allocOk)) h (fun b hb => ?_)
        (congrArg (Option.map Prod.fst) hr)
      obtain rfl := EntryEvent.addba.inj hb
      -- Only this event makes a node, or gives one another window.
      refine ⟨fun hfind hok => ?_, fun n hn => ?_⟩
      · exact Nat.lt_of_not_le fun hle => haddressed hfind hok (.inr hle)
      · exact Nat.le_of_not_lt fun hlt => hgrows ⟨rfl, n, hn, hlt⟩
    | delba =>
      rw [hcode] at hstep
      obtain ⟨e', he', rfl⟩ := Option.map_eq_some_iff.1 hstep
      exact entry_step_fitted (.delba ev.staLutIndex ev.tid) h (fun b hb => by cases hb) he'
    | filter =>
      rw [hcode] at hstep
      obtain ⟨e', he', rfl⟩ := Option.map_eq_some_iff.1 hstep
      exact entry_step_fitted (.filter ev.staLutIndex ev.tid ev.winStart) h
        (fun b hb => by cases hb) he'
    | deltxba =>
      rw [hcode] at hstep
      dsimp only at hstep
      split_ifs at hstep
      exact Option.some.inj hstep ▸ h
    | other =>
      rw [hcode] at hstep
      exact Option.some.inj hstep ▸ h
  | rest ev hno =>
    obtain ⟨e', he', rfl⟩ := Option.map_eq_some_iff.1 hstep
    exact entry_step_fitted ev h (fun b hb => absurd hb (hno b)) he'
  | peer i p => exact Option.some.inj hstep ▸ h

/-! ## What an event accesses -/

theorem findBaNodeAccesses_inTable {staLutIndex : Fin (2 ^ 8)} {tid : ℕ} {a : Access}
    (ha : a ∈ findBaNodeAccesses e staLutIndex tid) : a.InTable := by
  unfold findBaNodeAccesses at ha
  split_ifs at ha with ht
  · exact absurd ha List.not_mem_nil
  · rw [List.mem_singleton.1 ha]
    exact ht
  · exact absurd ha List.not_mem_nil

theorem findPeerEntryAccesses_inTable {peerEntry : Fin maxLutNum → PeerEntry}
    {staLutIndex : Fin (2 ^ 8)} {a : Access}
    (ha : a ∈ findPeerEntryAccesses peerEntry staLutIndex) : a.InTable := by
  obtain ⟨i, -, rfl⟩ := List.mem_map.1 ha
  exact i.2

/-- The bits that are not of a TID are clear, and stay so. -/
theorem PeerEntry.clearBit_of_le {p : PeerEntry} {tid : Fin bitsPerLong} (h : numTids ≤ tid.1) :
    p.clearBit tid = p := by
  have hsame : Function.update p.baTxDoneMap tid false = p.baTxDoneMap := by
    rw [← p.clear tid h, Function.update_eq_self]
  cases p
  simp only [PeerEntry.clearBit, hsame]

/-- An event that is inside is addressed to what there is. -/
theorem BaTables.Inside.addressed (hin : s.Inside ev allocOk) : s.Addressed ev allocOk := by
  unfold BaTables.Addressed
  have haccess := hin.accesses
  have hsame := hin.unchanged
  unfold BaTables.accesses at haccess
  unfold BaTables.wlanBaSessionEvent at hsame
  cases hcode : BaType.ofCode ev.type with
  | addbaReq =>
    rw [hcode] at haccess hsame
    intro hfind hok hout
    have htid : ev.tid.1 < numTids := by
      refine haccess (.hlist ev.tid) (List.mem_append_left _ (List.mem_append_right _ ?_))
      rw [if_pos ⟨hfind, hok⟩]
      exact List.mem_singleton_self _
    -- The node is created, so that the entry is changed.
    obtain ⟨⟨e', ret⟩, hr, heq⟩ := Option.map_eq_some_iff.1 (hsame hout)
    obtain rfl : e' = s.entry := congrArg BaTables.entry heq
    obtain ⟨n, hn⟩ := (wlanAddbaEvent_none (b := ev.addba allocOk) hfind).2 hok
      (ev.staLutIndex, ⟨ev.tid, htid⟩) (dif_pos htid)
    have hset : s.entry.setNode (ev.staLutIndex, ⟨ev.tid, htid⟩) n = s.entry :=
      (Prod.ext_iff.1 (Option.some.inj (hn.symm.trans hr))).1
    have hnode := Entry.findBaNode_eq_none hfind htid
    rw [← hset] at hnode
    exact absurd (hnode.symm.trans (Function.update_self ..)) (by simp)
  | deltxba =>
    rw [hcode] at haccess
    exact ⟨haccess (.peerEntry ev.staLutIndex) (List.mem_cons_self ..),
      haccess (.baTxDoneMap ev.tid) (List.mem_cons_of_mem _ (List.mem_cons_self ..))⟩
  | delba => trivial
  | filter => trivial
  | other => trivial

/-- Where the entry is fitted, an event that is addressed to what there is accesses the tables where
    they are, -/
theorem Fitted.inTable (h : Fitted s.entry) (haddressed : s.Addressed ev allocOk) {a : Access}
    (ha : a ∈ s.accesses ev allocOk) : a.InTable := by
  unfold BaTables.Addressed at haddressed
  unfold BaTables.accesses at ha
  cases hcode : BaType.ofCode ev.type with
  | addbaReq =>
    rw [hcode] at ha haddressed
    rcases List.mem_append.1 ha with ha | ha
    · rcases List.mem_append.1 ha with ha | ha
      · exact findBaNodeAccesses_inTable ha
      · -- A new node is put where the event says.
        split_ifs at ha with hcreate
        · rw [List.mem_singleton.1 ha]
          exact Nat.lt_of_not_le fun hle => haddressed hcreate.1 hcreate.2 (.inl hle)
        · exact absurd ha List.not_mem_nil
    · exact findPeerEntryAccesses_inTable ha
  | delba =>
    rw [hcode] at ha
    rcases List.mem_append.1 ha with ha | ha
    · exact findBaNodeAccesses_inTable ha
    · cases hn : s.entry.found? ev.staLutIndex ev.tid with
      | none => exact absurd (hn ▸ ha) List.not_mem_nil
      | some n =>
        rw [hn] at ha
        obtain ⟨k, -, hn⟩ := Entry.found?_eq_some hn
        rw [List.mem_singleton.1 ha]
        exact (endSession_inRing true n).oob (h.node k n hn).1
  | filter =>
    rw [hcode] at ha
    rcases List.mem_append.1 ha with ha | ha
    · exact findBaNodeAccesses_inTable ha
    · cases hn : s.entry.found? ev.staLutIndex ev.tid with
      | none => exact absurd (hn ▸ ha) List.not_mem_nil
      | some n =>
        rw [hn, Option.elim_some] at ha
        obtain ⟨k, -, hn⟩ := Entry.found?_eq_some hn
        split_ifs at ha
        · rw [List.mem_singleton.1 ha]
          exact (reorderActive_inRing _ none n).oob (h.node k n hn).1
        · exact absurd ha List.not_mem_nil
  | deltxba =>
    rw [hcode] at ha haddressed
    rcases List.mem_cons.1 ha with rfl | ha
    · exact haddressed.1
    · rw [List.mem_singleton.1 ha]
      exact haddressed.2
  | other =>
    rw [hcode] at ha
    exact absurd ha List.not_mem_nil

/-- and changes nothing if its TID or its station is out of range. -/
theorem Fitted.unchanged (h : Fitted s.entry) (haddressed : s.Addressed ev allocOk)
    (hout : ev.OutOfRange) : s.wlanBaSessionEvent ev allocOk = some s := by
  have hnone := h.findBaNode_outOfRange hout
  unfold BaTables.Addressed at haddressed
  unfold BaTables.wlanBaSessionEvent
  cases hcode : BaType.ofCode ev.type with
  | addbaReq =>
    rw [hcode] at haddressed
    have hfail : allocOk = false := by
      rw [← Bool.not_eq_true]
      exact fun hok => haddressed hnone hok hout
    dsimp only
    rw [(wlanAddbaEvent_none (b := ev.addba allocOk) hnone).1 hfail, Option.map_some]
  | delba =>
    dsimp only
    rw [wlanDelbaEvent, freeBaNode, hnone]
    rfl
  | filter =>
    dsimp only
    rw [wlanFilterEvent, Entry.onNode, hnone]
    rfl
  | deltxba =>
    rw [hcode] at haddressed
    dsimp only
    rw [dif_pos haddressed]
    -- The station is in range, so that the TID is not.
    have htid : numTids ≤ ev.tid.1 := hout.resolve_right (Nat.not_le.2 haddressed.1)
    rw [PeerEntry.clearBit_of_le htid, Function.update_eq_self]
  | other => rfl

/-- So it is inside exactly if it is addressed to what there is. -/
theorem Fitted.inside_iff (h : Fitted s.entry) :
    s.Inside ev allocOk ↔ s.Addressed ev allocOk :=
  ⟨fun hin => hin.addressed,
    fun haddressed => ⟨fun _ => h.inTable haddressed, h.unchanged haddressed⟩⟩

/-! ## A ring that is too small -/

/-- The flush of an active session leaves a ring that is smaller than its mask. -/
theorem endSession_oob {n : RxBaNode} {drain : Bool} (hact : n.active = true)
    (hring : ¬n.rxBa.indexMask < n.rxBa.slots) : (endSession drain n).2.oob = true := by
  unfold endSession
  rw [if_pos hact]
  dsimp only
  rw [Out.append_oob, Bool.or_eq_true]
  refine .inr ((flushReorderBuffer_oob _).2 ?_)
  split_ifs
  · have hsent := betweenSeqloSeqhi_inRing n.rxBa
    rw [hsent.mask, hsent.slots]
    exact hring
  · exact hring

/-- The DELBA of the station and the TID of an event. -/
def BaEvent.delba (ev : BaEvent) : BaEvent := { ev with type := 2 }

/-- After an ADDBA that asks for more slots than the ring of its node has, the session is activated
    and ended, and the flush leaves the ring. -/
theorem BaTables.Grows.leaves (h : s.Grows ev allocOk) :
    ∃ s₁ s₂, baTables.step s (.ba ev allocOk) = some s₁ ∧
      baTables.step s₁ (.rest (.activate ev.staLutIndex ev.tid) fun _ => by simp) = some s₂ ∧
      ¬s₂.Inside ev.delba allocOk := by
  obtain ⟨hcode, n, hfound, hsize⟩ := h
  obtain ⟨k, hfind, hn⟩ := Entry.found?_eq_some hfound
  have hkey := findBaNode_key hfind
  let n₁ : RxBaNode := addbaNode n ev.winStart ev.winSize
  let e₁ : Entry := s.entry.setNode k n₁
  have hn₁ : e₁.hlist k = some n₁ := Function.update_self ..
  let e₂ : Entry := (e₁.setNode k (activeBaNode n₁)).emit {}
  have hn₂ : e₂.hlist k = some (activeBaNode n₁) := Function.update_self ..
  refine ⟨{ s with entry := e₁ }, { s with entry := e₂ }, ?_, ?_, fun hin => ?_⟩
  · have hadd : wlanAddbaEvent s.entry (ev.addba allocOk) = some (e₁, 0) := by
      have hfind' : s.entry.findBaNode (ev.addba allocOk).staLutIndex (ev.addba allocOk).tid =
          some k := hfind
      unfold wlanAddbaEvent
      rw [hfind']
      dsimp only
      rw [hn]
      rfl
    change s.wlanBaSessionEvent ev allocOk = _
    unfold BaTables.wlanBaSessionEvent
    rw [hcode]
    dsimp only
    rw [hadd, Option.map_some]
  · have hactive : sprdwlActiveBaNode e₁ ev.staLutIndex ev.tid = some e₂ := by
      unfold sprdwlActiveBaNode Entry.onNode
      rw [findBaNode_of_some hkey hn₁]
      dsimp only
      rw [hn₁]
      rfl
    change (sprdwlActiveBaNode e₁ ev.staLutIndex ev.tid).map _ = _
    rw [hactive, Option.map_some]
  · -- The mask is that of the new window, and the ring has the slots of the old one.
    have hmask : ¬(activeBaNode n₁).rxBa.indexMask < (activeBaNode n₁).rxBa.slots := by
      change ¬(ev.addba allocOk).indexSize - 1 < n.rxBa.slots
      omega
    have haccess : Access.ring (endSession true (activeBaNode n₁)).2.oob ∈
        BaTables.accesses { s with entry := e₂ } ev.delba allocOk := by
      refine List.mem_append_right _ ?_
      change _ ∈ (e₂.found? ev.staLutIndex ev.tid).elim [] _
      rw [Entry.found?_of_some hkey hn₂]
      exact List.mem_singleton_self _
    have hoob : (endSession true (activeBaNode n₁)).2.oob = false := hin.accesses _ haccess
    rw [endSession_oob rfl hmask] at hoob
    exact absurd hoob (by decide)

/-- Along every run whose BA events are addressed to what there is and ask for no more slots than
    the ring they find has, an event is inside exactly if it is addressed to what there is; one
    that asks for more lets a later one leave the ring. -/
theorem ba_inside_iff {peerEntry : Fin maxLutNum → PeerEntry} {is : List BaInput}
    (hrun : baTables.run (.init peerEntry) is = some s)
    (hfits : baTables.Along BaTables.Fits (.init peerEntry) is) (ev : BaEvent) (allocOk : Bool) :
    (s.Inside ev allocOk ↔ s.Addressed ev allocOk) ∧
      (s.Grows ev allocOk → ∃ s₁ s₂, baTables.step s (.ba ev allocOk) = some s₁ ∧
        baTables.step s₁ (.rest (.activate ev.staLutIndex ev.tid) fun _ => by simp) = some s₂ ∧
        ¬s₂.Inside ev.delba allocOk) := by
  have hfitted : Fitted s.entry := Machine.invariant (I := fun s : BaTables => Fitted s.entry)
    (fun s i s' h hfits hstep => baTables_step_fitted h hfits hstep)
    ⟨fun k hk => absurd hk (by simp [BaTables.init, Entry.init]),
      fun k n hn => absurd hn (by simp [BaTables.init, Entry.init])⟩ hfits hrun
  exact ⟨hfitted.inside_iff, BaTables.Grows.leaves⟩

end

/-- A peer without a station. -/
def PeerEntry.empty : PeerEntry where
  toSprdwlPeerEntry := .empty
  baTxDoneMap _ := false
  clear _ _ := rfl

/-- A DELBA after an ADDBA. -/
theorem ba_inside_addba :
    ∃ s, baTables.run (.init fun _ => .empty) [.ba ⟨0, 0, 4, 0, 64⟩ true] = some s ∧
      (s.Inside ⟨2, 0, 4, 0, 0⟩ true ↔ s.Addressed ⟨2, 0, 4, 0, 0⟩ true) := by
  have hfits : baTables.Along BaTables.Fits (.init fun _ => .empty)
      [.ba ⟨0, 0, 4, 0, 64⟩ true] := by
    refine ⟨⟨fun _ _ hout => absurd hout (by decide), fun h => ?_⟩, trivial⟩
    obtain ⟨-, n, hn, -⟩ := h
    exact absurd hn (by simp [Entry.found?, Entry.findBaNode, BaTables.init, Entry.init])
  exact ⟨_, rfl, (ba_inside_iff rfl hfits ⟨2, 0, 4, 0, 0⟩ true).1⟩

/-- The first ADDBA, for a TID of 8. -/
theorem not_ba_inside : ¬∀ (peerEntry : Fin maxLutNum → PeerEntry) (is : List BaInput)
    (s : BaTables) (ev : BaEvent) (allocOk : Bool),
    baTables.run (.init peerEntry) is = some s → s.Inside ev allocOk := fun h =>
  have haccess : (8 : ℕ) < numTids := (h (fun _ => .empty) [] _ ⟨0, 8, 4, 0, 64⟩ true rfl).accesses
    (.hlist 8) (by decide)
  absurd haccess (by decide)

end W132d.Reorder
