import W132d.Reorder.Restart

/-!
# Who owns an MSDU

Every MSDU handed to the entry is in its list (or was taken off it), freed, or in a
slot of a node, and in one of them only. The one way to lose an MSDU is to free a
node with MSDUs in its ring: before a node is freed, its ring is flushed up to the
mask, but only if the session is active.

* `Entry.Conserved`: the MSDUs handed in are those in the list, fetched, freed and
  held, as multisets;
* `skb_conserved`: this is so along every run in which no node is freed with MSDUs
  the flush does not reach (`Frees`), and a step that does so breaks it;
* `delba_leaks`: a session deactivated by a second ADDBA and ended.

The MSDUs of the entry are multisets, so that the sum over all places is an equation that the steps
keep or do not keep. A step is `Balanced` for the MSDUs that it loses: what was handed in before and
what it takes, less these, is in some place after it. This is closed under composition
(`Balanced.trans`), so that a DELBA on several TIDs is a sequence of steps on one node each.

How the theorem is proved: a step works on the node of one session, and what happens to the MSDUs of
this one is known from `W132d.Reorder.Slots` (`balanced_of_conserves`); the lists of the entry get
what it hands up and frees. What is freed with a node is lost, unless the flush has reached it
(`endSession_held`). As multisets can be cancelled, a step that loses something breaks the equation,
so that the condition is exact for each step (`entry_step_conserved`).
-/

namespace W132d.Reorder

/-! ## Flushing a ring -/

section

variable {d : RxBaNodeDesc} {n : RxBaNode}

/-- The flush frees what is in the slots it goes over, and touches no other. -/
theorem flushReorderBufferLoop_held (num i : ℕ) (d : RxBaNodeDesc)
    (h : (flushReorderBufferLoop num i d).2.oob = false) :
    (flushReorderBufferLoop num i d).1.slots = d.slots ∧
      (flushReorderBufferLoop num i d).2.up = [] ∧
      (flushReorderBufferLoop num i d).1.held + ↑(flushReorderBufferLoop num i d).2.freed =
        d.held ∧
      ∀ j, (flushReorderBufferLoop num i d).1.reorderBuffer j =
        if i ≤ j ∧ j < i + num then .zero else d.reorderBuffer j := by
  induction num generalizing i d with
  | zero =>
    refine ⟨rfl, rfl, add_zero _, fun j => ?_⟩
    rw [if_neg (by omega)]
    rfl
  | succ num ih =>
    rw [flushReorderBufferLoop] at h ⊢
    dsimp only at h ⊢
    rw [Out.append_oob, Out.append_oob, Bool.or_eq_false_iff, Bool.or_eq_false_iff] at h
    obtain ⟨hi, hacc⟩ := access_eq h.1.1
    obtain ⟨hslots, hup, hheld, hring⟩ := ih (i + 1) (d.setPkt i .zero) h.2
    refine ⟨hslots, ?_, ?_, fun j => ?_⟩
    · rw [hacc, Out.append_up, Out.append_up, hup]
      rfl
    · -- What was in the slot is freed here.
      have hset : (d.setPkt i .zero).held + ↑(d.reorderBuffer i).skb = d.held :=
        (@held_update d (d.setPkt i .zero) i .zero hi rfl rfl).trans (add_zero _)
      rw [hacc, Out.append_freed, Out.append_freed, ← hset, ← hheld, List.nil_append,
        ← Multiset.coe_add]
      abel
    · rw [hring j]
      by_cases hj : j = i
      · rw [hj, if_neg (by omega), if_pos (by omega), RxBaNodeDesc.setPkt_self]
      · rw [RxBaNodeDesc.setPkt_of_ne hj]
        exact if_congr (by omega) rfl rfl

/-- The slots that are flushed before the node is freed hold nothing after it; the
    others are left as they are. -/
def NothingLeft (n : RxBaNode) : Prop :=
  ∀ i < n.rxBa.slots, (n.active → n.rxBa.indexMask < i) → (n.rxBa.reorderBuffer i).skb = []

theorem held_eq_zero : d.held = 0 ↔ ∀ i < d.slots, (d.reorderBuffer i).skb = [] := by
  rw [RxBaNodeDesc.held, Finset.sum_eq_zero_iff]
  simp only [Finset.mem_range, Multiset.coe_eq_zero]

/-- What is done to a ring before its node is freed conserves its MSDUs, and leaves
    none exactly if there is nothing it does not reach. -/
theorem endSession_held (drain : Bool) (h : (endSession drain n).2.oob = false) :
    (endSession drain n).1.held + ↑(endSession drain n).2.up + ↑(endSession drain n).2.freed =
        n.rxBa.held ∧
      ((endSession drain n).1.held = 0 ↔ NothingLeft n) := by
  unfold endSession at h ⊢
  by_cases hact : n.active
  · rw [if_pos hact] at h ⊢
    set r := if drain then betweenSeqloSeqhi n.rxBa else (n.rxBa, {}) with hr
    obtain ⟨hdrain, hflush⟩ := Bool.or_eq_false_iff.1 h
    -- The drain hands on what it takes from the ring.
    have hsends : Sends n.rxBa r.1 r.2 := by
      rw [hr] at hdrain ⊢
      split_ifs at hdrain ⊢
      · exact betweenSeqloSeqhi_sends hdrain
      · exact .refl _
    obtain ⟨hslots, hmask, -⟩ := hsends.frame
    obtain ⟨hslots', hup, hheld, hring⟩ :=
      flushReorderBufferLoop_held (r.1.indexMask + 1) 0 r.1 hflush
    have hd' : (flushReorderBuffer r.1).1.held =
        (flushReorderBufferLoop (r.1.indexMask + 1) 0 r.1).1.held := held_congr rfl rfl
    refine ⟨?_, ?_⟩
    · rw [← hsends.held, ← hheld, Out.append_up, Out.append_freed, hd', flushReorderBuffer, hup,
        List.append_nil, ← Multiset.coe_add]
      abel
    · rw [hd', held_eq_zero, hslots', hslots]
      refine forall₂_congr fun i hi => ?_
      rw [hring i, hmask]
      by_cases hlt : n.rxBa.indexMask < i
      · rw [if_neg (by omega), hsends.kept hlt]
        exact ⟨fun h _ => h, fun h => h fun _ => hlt⟩
      · rw [if_pos (by omega)]
        exact ⟨fun _ habove => absurd (habove hact) hlt, fun _ => rfl⟩
  · rw [if_neg hact]
    refine ⟨by simp, ?_⟩
    rw [held_eq_zero]
    exact forall₂_congr fun i hi => ⟨fun h _ => h, fun h => h fun ha => absurd ha hact⟩

end

/-! ## The MSDUs of the entry -/

namespace Entry

/-- The MSDUs in the ring of a session, if it has a node. -/
def heldAt (e : Entry) (k : Key) : Multiset Skb := (e.hlist k).elim 0 (·.rxBa.held)

/-- The MSDUs in the slots of the nodes. -/
def held (e : Entry) : Multiset Skb := ∑ k, e.heldAt k

/-- The MSDUs in the list, fetched, freed and held. -/
def places (e : Entry) : Multiset Skb := ↑e.skbList + ↑e.fetched + ↑e.freed + e.held

/-- Every MSDU handed in is in one place. -/
def Conserved (e : Entry) : Prop := (↑e.handed : Multiset Skb) = e.places

end Entry

/-- The MSDUs `lost` are those of a step that are in no place after it. -/
def Balanced (e e' : Entry) (lost : Multiset Skb) : Prop :=
  e'.places + lost + ↑e.handed = e.places + ↑e'.handed

section

variable {e e' e'' : Entry} {k : Key} {n n' : RxBaNode} {out : Out} {lost lost' : Multiset Skb}

theorem Balanced.refl (e : Entry) : Balanced e e 0 := by rw [Balanced, add_zero]

theorem Balanced.trans (h : Balanced e e' lost) (h' : Balanced e' e'' lost') :
    Balanced e e'' (lost + lost') := by
  rw [Balanced] at h h' ⊢
  have hsum : e''.places + (lost + lost') + ↑e.handed + (e'.places + ↑e'.handed) =
      e.places + ↑e''.handed + (e'.places + ↑e'.handed) := by
    calc e''.places + (lost + lost') + ↑e.handed + (e'.places + ↑e'.handed)
        = (e''.places + lost' + ↑e'.handed) + (e'.places + lost + ↑e.handed) := by abel
      _ = (e'.places + ↑e''.handed) + (e.places + ↑e'.handed) := by rw [h, h']
      _ = e.places + ↑e''.handed + (e'.places + ↑e'.handed) := by abel
  exact add_right_cancel hsum

/-- A step keeps the MSDUs conserved exactly if it loses none. -/
theorem Balanced.conserved_iff (h : Balanced e e' lost) (he : e.Conserved) :
    e'.Conserved ↔ lost = 0 := by
  rw [Balanced, he.symm, add_comm _ (↑e'.handed : Multiset Skb)] at h
  have h' : e'.places + lost = ↑e'.handed := add_right_cancel h
  rw [Entry.Conserved, ← h']
  exact add_eq_left

/-- A step that works on the node of a session, hands up and frees. -/
theorem balanced_of_node {o : Option RxBaNode} {ins : List Skb}
    (hlist : e'.hlist = Function.update e.hlist k o) (hhanded : e'.handed = e.handed ++ ins)
    (hup : e'.skbList = e.skbList ++ out.up) (hfreed : e'.freed = e.freed ++ out.freed)
    (hfetched : e'.fetched = e.fetched)
    (hheld : o.elim 0 (·.rxBa.held) + lost + ↑out.up + ↑out.freed = e.heldAt k + ↑ins) :
    Balanced e e' lost := by
  have hsum : e'.held + e.heldAt k = e.held + o.elim 0 (·.rxBa.held) := by
    have hupd := Cyclic.sum_update (fun o : Option RxBaNode => o.elim 0 (·.rxBa.held)) e.hlist
      (Finset.mem_univ k) o
    rwa [← hlist] at hupd
  rw [Balanced, Entry.places, Entry.places, hup, hfreed, hfetched, hhanded]
  simp only [← Multiset.coe_add]
  refine add_right_cancel (?_ : _ + e.heldAt k = _ + e.heldAt k)
  calc ↑e.skbList + ↑out.up + ↑e.fetched + (↑e.freed + ↑out.freed) + e'.held + lost +
        ↑e.handed + e.heldAt k
      = ↑e.skbList + ↑e.fetched + ↑e.freed + (e'.held + e.heldAt k) +
        (lost + ↑out.up + ↑out.freed) + ↑e.handed := by abel
    _ = ↑e.skbList + ↑e.fetched + ↑e.freed + e.held +
        (o.elim 0 (·.rxBa.held) + lost + ↑out.up + ↑out.freed) + ↑e.handed := by
        rw [hsum]
        abel
    _ = ↑e.skbList + ↑e.fetched + ↑e.freed + e.held + (↑e.handed + ↑ins) + e.heldAt k := by
        rw [hheld]
        abel

/-- A step that conserves the MSDUs of a node loses none. -/
theorem balanced_of_conserves {ins : List Skb} (hn : e.hlist k = some n)
    (hc : Conserves ins n.rxBa n'.rxBa out)
    (hlist : e'.hlist = Function.update e.hlist k (some n')) (hhanded : e'.handed = e.handed ++ ins)
    (hup : e'.skbList = e.skbList ++ out.up) (hfreed : e'.freed = e.freed ++ out.freed)
    (hfetched : e'.fetched = e.fetched) : Balanced e e' 0 := by
  refine balanced_of_node hlist hhanded hup hfreed hfetched ?_
  rw [Entry.heldAt, hn, add_zero]
  exact hc.held

/-- A step that leaves the nodes alone. -/
theorem balanced_of_lists (hlist : e'.hlist = e.hlist)
    (hsum : (↑e'.skbList : Multiset Skb) + ↑e'.fetched + ↑e'.freed + ↑e.handed =
      ↑e.skbList + ↑e.fetched + ↑e.freed + ↑e'.handed) : Balanced e e' 0 := by
  have hheld : e'.held = e.held := by
    rw [Entry.held, Entry.held]
    simp only [Entry.heldAt, hlist]
  rw [Balanced, Entry.places, Entry.places, hheld, add_zero, add_right_comm, hsum,
    add_right_comm]

/-- Working on the node found, or on none. -/
theorem balanced_onNode {absent : Entry} {staLutIndex : Fin (2 ^ 8)} {tid : ℕ} {ins : List Skb}
    {f : RxBaNode → Option (RxBaNode × Out)} (ha : Balanced e absent 0)
    (hf : ∀ n r, f n = some r → Conserves ins n.rxBa r.1.rxBa r.2)
    (hstep : { e with handed := e.handed ++ ins }.onNode staLutIndex tid absent f = some e') :
    Balanced e e' 0 := by
  rcases Entry.onNode_eq_some hstep with ⟨-, rfl⟩ | ⟨k, n, r, -, hn, hr, rfl⟩
  · exact ha
  · exact balanced_of_conserves hn (hf n r hr) rfl rfl rfl rfl rfl

theorem balanced_onNode_self {staLutIndex : Fin (2 ^ 8)} {tid : ℕ}
    {f : RxBaNode → Option (RxBaNode × Out)}
    (hf : ∀ n r, f n = some r → Conserves [] n.rxBa r.1.rxBa r.2)
    (hstep : e.onNode staLutIndex tid e f = some e') : Balanced e e' 0 := by
  rcases Entry.onNode_eq_some hstep with ⟨-, rfl⟩ | ⟨k, n, r, -, hn, hr, rfl⟩
  · exact .refl e'
  · exact balanced_of_conserves hn (hf n r hr) rfl (List.append_nil _).symm rfl rfl rfl

/-- Freeing a node loses what is left in its ring. -/
theorem balanced_freeBaNode {drain : Bool} {staLutIndex : Fin (2 ^ 8)} {tid : ℕ}
    (h : freeBaNode drain e staLutIndex tid = some e') :
    ∃ lost, Balanced e e' lost ∧
      (lost = 0 ↔ ∀ k ∈ e.findBaNode staLutIndex tid, ∀ n ∈ e.hlist k, NothingLeft n) ∧
      ∀ k, k.2.1 ≠ tid → e'.hlist k = e.hlist k := by
  rcases freeBaNode_cases h with ⟨hfind, rfl⟩ | ⟨k, n, hfind, hn, hoob, rfl⟩
  · refine ⟨0, .refl e', iff_of_true rfl fun k hk => ?_, fun _ _ => rfl⟩
    rw [hfind] at hk
    exact absurd hk (Option.not_mem_none k)
  · obtain ⟨hheld, hzero⟩ := endSession_held drain hoob
    refine ⟨(endSession drain n).1.held, ?_, ?_, fun k' hk' => ?_⟩
    · refine balanced_of_node rfl (List.append_nil e.handed).symm rfl rfl rfl ?_
      rw [Entry.heldAt, hn, Option.elim_none, Option.elim_some, zero_add, hheld]
      exact (add_zero _).symm
    · rw [hzero]
      refine ⟨fun h k' hk' n' hn' => ?_, fun h => h k hfind n hn⟩
      obtain rfl : k = k' := Option.some.inj (hfind.symm.trans hk')
      rwa [← Option.some.inj (hn.symm.trans hn')]
    · obtain ⟨ht, rfl⟩ := Entry.findBaNode_eq_some hfind
      refine Function.update_of_ne (fun hkk => hk' ?_) ..
      rw [hkk]

/-- Ending the sessions of a station on several TIDs. -/
theorem balanced_peerEntryDelba {lutIndex : Fin (2 ^ 8)} {l : List (Fin numTids)} (hl : l.Nodup)
    (h : l.foldlM (peerDelbaNode lutIndex) e = some e') :
    ∃ lost, Balanced e e' lost ∧
      (lost = 0 ↔ ∀ tid ∈ l, ∀ n ∈ e.hlist (lutIndex, tid), NothingLeft n) := by
  induction l generalizing e with
  | nil =>
    rw [List.foldlM_nil] at h
    obtain rfl := Option.some.inj h
    exact ⟨0, .refl e, by simp⟩
  | cons tid l ih =>
    rw [List.foldlM_cons] at h
    obtain ⟨e₁, h₁, h⟩ := Option.bind_eq_some_iff.1 h
    obtain ⟨hnot, hl⟩ := List.nodup_cons.1 hl
    obtain ⟨lost₁, hb₁, hiff₁, hkept⟩ := balanced_freeBaNode h₁
    obtain ⟨lost₂, hb₂, hiff₂⟩ := ih hl h
    refine ⟨lost₁ + lost₂, hb₁.trans hb₂, ?_⟩
    rw [add_eq_zero, hiff₁, hiff₂, List.forall_mem_cons]
    refine and_congr ?_ (forall₂_congr fun tid' htid' => ?_)
    · -- The node found is the one of the session, or there is none.
      cases hfind : e.findBaNode lutIndex tid with
      | none =>
        have hnone := Entry.findBaNode_eq_none hfind tid.2
        refine iff_of_true (fun k hk => absurd hk (Option.not_mem_none k)) fun n hn => ?_
        exact absurd (hnone.symm.trans hn) (by simp)
      | some k =>
        obtain ⟨ht, rfl⟩ := Entry.findBaNode_eq_some hfind
        exact ⟨fun h => h _ rfl, fun h k hk => Option.some.inj hk ▸ h⟩
    · have hne : tid'.1 ≠ tid.1 := fun heq => hnot (Fin.ext heq ▸ htid')
      rw [hkept (lutIndex, tid') hne]

end

/-! ## Every run -/

/-- No node is freed with MSDUs that the flush does not reach. -/
def Frees (e : Entry) : EntryEvent → Prop
  | .delba staLutIndex tid => ∀ k ∈ e.findBaNode staLutIndex tid, ∀ n ∈ e.hlist k, NothingLeft n
  | .peerDelba lutIndex => ∀ tid, ∀ n ∈ e.hlist (lutIndex, tid), NothingLeft n
  | _ => True

section

variable {e e' : Entry}

/-- What a step loses: nothing, exactly if it frees no node with MSDUs left. -/
theorem entry_step_balanced {ev : EntryEvent} (hstep : entry.step e ev = some e') :
    ∃ lost, Balanced e e' lost ∧ (lost = 0 ↔ Frees e ev) := by
  cases ev with
  | data skb =>
    refine ⟨0, ?_, iff_of_true rfl trivial⟩
    -- A frame that no node takes is handed over as it came.
    have hpass : Balanced e ({ e with handed := e.handed ++ [skb] }.emit { up := [skb] }) 0 := by
      refine balanced_of_lists rfl ?_
      simp only [Entry.emit, List.append_nil, ← Multiset.coe_add]
      abel
    rcases reorderDataProcess_cases hstep with rfl | hstep
    · exact hpass
    · exact balanced_onNode hpass (fun n r hr => (nodeStep_slots hr).1) hstep
  | filter staLutIndex tid seqNum =>
    refine ⟨0, ?_, iff_of_true rfl trivial⟩
    have hf : ∀ n r, nodeStep n (.filter seqNum) = some r → Conserves [] n.rxBa r.1.rxBa r.2 :=
      fun n r hr => (nodeStep_slots hr).1
    exact balanced_onNode_self hf hstep
  | timeout k =>
    refine ⟨0, ?_, iff_of_true rfl trivial⟩
    rcases timeout_cases hstep with ⟨-, rfl⟩ | ⟨n, r, hn, hr, rfl⟩
    · exact .refl e'
    · exact balanced_of_conserves hn (nodeStep_slots hr).1 rfl (List.append_nil _).symm rfl rfl rfl
  | addba b =>
    refine ⟨0, ?_, iff_of_true rfl trivial⟩
    obtain ⟨⟨e'', ret⟩, hb, rfl⟩ := Option.map_eq_some_iff.1 hstep
    rcases wlanAddbaEvent_cases hb with ⟨k, n, hk, hn, -, rfl⟩ | ⟨-, rfl⟩ | ⟨k, -, hn, -, rfl⟩
    · -- A node that is there keeps its ring.
      have hheld : (addbaNode n b.winStart b.winSize).rxBa.held = n.rxBa.held :=
        held_congr rfl rfl
      have hc : Conserves [] n.rxBa (addbaNode n b.winStart b.winSize).rxBa {} :=
        ⟨rfl, by simp [hheld]⟩
      exact balanced_of_conserves hn hc rfl (List.append_nil _).symm (List.append_nil _).symm
        (List.append_nil _).symm rfl
    · exact .refl e''
    · -- The ring of a new node is empty.
      have hheld : (addbaNode (createBaNode b.staLutIndex b.tid b.indexSize)
          b.winStart b.winSize).rxBa.held = 0 := Finset.sum_eq_zero fun i _ => rfl
      refine @balanced_of_node e _ k {} 0 _ [] rfl (List.append_nil _).symm
        (List.append_nil _).symm (List.append_nil _).symm rfl ?_
      rw [Entry.heldAt, hn, Option.elim_some, hheld]
      rfl
  | activate staLutIndex tid =>
    refine ⟨0, ?_, iff_of_true rfl trivial⟩
    refine balanced_onNode_self (fun n r hr => ?_) hstep
    rw [← Option.some.inj hr]
    exact SameRing.conserves ⟨rfl, rfl, rfl, rfl⟩ rfl
  | delba staLutIndex tid =>
    obtain ⟨lost, hb, hiff, -⟩ := balanced_freeBaNode hstep
    exact ⟨lost, hb, hiff⟩
  | peerDelba lutIndex =>
    obtain ⟨lost, hb, hiff⟩ := balanced_peerEntryDelba (List.nodup_finRange _) hstep
    exact ⟨lost, hb, hiff.trans (by simp [Frees])⟩
  | resetPn lutId =>
    refine ⟨0, ?_, iff_of_true rfl trivial⟩
    -- By induction on the nodes of the station, none of which loses an MSDU.
    refine foldlM_invariant (I := fun e'' => Balanced e e'' 0) (fun e₁ tid e₂ hb h => ?_)
      (.refl e) hstep
    have hnode : Balanced e₁ e₂ 0 := balanced_onNode_self (fun n r hr => by
      rw [← Option.some.inj hr]
      exact SameRing.conserves ⟨rfl, rfl, rfl, rfl⟩ rfl) h
    have hall := hb.trans hnode
    rwa [add_zero] at hall
  | fetch =>
    refine ⟨0, ?_, iff_of_true rfl trivial⟩
    obtain rfl := Option.some.inj hstep
    refine balanced_of_lists rfl ?_
    simp only [reorderGetSkbList, Multiset.coe_nil, ← Multiset.coe_add]
    abel

/-- A step keeps every MSDU in one place exactly if it frees no node with MSDUs left. -/
theorem entry_step_conserved {ev : EntryEvent} (hc : e.Conserved)
    (hstep : entry.step e ev = some e') : e'.Conserved ↔ Frees e ev := by
  obtain ⟨lost, hb, hiff⟩ := entry_step_balanced hstep
  exact (hb.conserved_iff hc).trans hiff

theorem entry_conserved {es : List EntryEvent} (hfrees : entry.Along Frees Entry.init es)
    (hrun : entry.run Entry.init es = some e) : e.Conserved := by
  have hinit : Entry.init.Conserved := by
    have hheld : Entry.init.held = 0 := Finset.sum_eq_zero fun k _ => rfl
    rw [Entry.Conserved, Entry.places, hheld]
    rfl
  exact Machine.invariant (fun e ev e' hc hf hstep => (entry_step_conserved hc hstep).2 hf)
    hinit hfrees hrun

/-- Along every run in which no node is freed with MSDUs left, every MSDU is in one
    place; a further step keeps it so exactly if it does not either. -/
theorem skb_conserved {es : List EntryEvent} (hfrees : entry.Along Frees Entry.init es)
    (hrun : entry.run Entry.init es = some e) :
    e.Conserved ∧ (∀ x, e.skbList.count x + e.fetched.count x + e.freed.count x +
        e.held.count x = e.handed.count x) ∧
      ∀ ev e', entry.step e ev = some e' → (e'.Conserved ↔ Frees e ev) := by
  have hc := entry_conserved hfrees hrun
  refine ⟨hc, fun x => ?_, fun ev e' hstep => entry_step_conserved hc hstep⟩
  have hcount := congrArg (Multiset.count x) hc
  rw [Entry.places] at hcount
  simpa only [Multiset.count_add, Multiset.coe_count] using hcount.symm

end

instance (n : RxBaNode) : Decidable (NothingLeft n) :=
  inferInstanceAs (Decidable (∀ i < n.rxBa.slots, _ → _))

instance (e : Entry) : ∀ ev, Decidable (Frees e ev)
  | .delba staLutIndex tid =>
    inferInstanceAs (Decidable (∀ k ∈ e.findBaNode staLutIndex tid, ∀ n ∈ e.hlist k, _))
  | .peerDelba lutIndex => inferInstanceAs (Decidable (∀ tid, ∀ n ∈ e.hlist (lutIndex, tid), _))
  | .data _ | .filter _ _ _ | .timeout _ | .addba _ | .activate _ _ | .resetPn _ | .fetch =>
    .isTrue trivial

/-- A session with an MSDU buffered that is ended while it is active. -/
theorem skb_conserved_delba :
    ∃ e, entry.run Entry.init [.addba (addbaOf 16), .activate 1 0, .data (qosMpdu 0 1),
        .delba 1 0] = some e ∧ e.freed = [qosMpdu 0 1] ∧ e.Conserved := by
  obtain ⟨e, hrun, hfreed⟩ : ∃ e, entry.run Entry.init [.addba (addbaOf 16), .activate 1 0,
      .data (qosMpdu 0 1), .delba 1 0] = some e ∧ e.freed = [qosMpdu 0 1] :=
    Machine.exists_run (by decide +kernel)
  exact ⟨e, hrun, hfreed, (skb_conserved (by decide +kernel) hrun).1⟩

/-- The session is deactivated by a second ADDBA, which keeps the MSDU in its ring, and
    ended: the node is freed with the MSDU, which is in no place. -/
theorem delba_leaks :
    ∃ e, entry.run Entry.init [.addba (addbaOf 16), .activate 1 0, .data (qosMpdu 0 1),
        .addba (addbaOf 16), .delba 1 0] = some e ∧ e.handed = [qosMpdu 0 1] ∧
      e.skbList = [] ∧ e.fetched = [] ∧ e.freed = [] ∧ e.hlist (1, 0) = none ∧
      ¬e.Conserved := by
  obtain ⟨e, e', hrun, hstep, hno, hlists⟩ : ∃ e e', entry.run Entry.init [.addba (addbaOf 16),
      .activate 1 0, .data (qosMpdu 0 1), .addba (addbaOf 16)] = some e ∧
      entry.step e (.delba 1 0) = some e' ∧ ¬Frees e (.delba 1 0) ∧
      e'.handed = [qosMpdu 0 1] ∧ e'.skbList = [] ∧ e'.fetched = [] ∧ e'.freed = [] ∧
      (e'.hlist (1, 0)).isNone := Machine.exists_run_step (by decide +kernel)
  obtain ⟨h₁, h₂, h₃, h₄, h₅⟩ := hlists
  refine ⟨e', Machine.run_concat hrun hstep, h₁, h₂, h₃, h₄, Option.isNone_iff_eq_none.1 h₅, ?_⟩
  exact fun hc => hno ((entry_step_conserved (entry_conserved (by decide +kernel) hrun) hstep).1 hc)

end W132d.Reorder
