import W132d.Reorder.Entry
import W132d.Reorder.Slots

/-!
# Restarting sessions

An ADDBA for a session that has a node sets the node up anew. It resets the window
and the count, but neither frees what the ring holds nor allocates a larger ring:
a session may start with MSDUs of the one before, and with a mask for more slots
than it has.

* `addba_clean`: a session starts clean exactly if it has no node yet, or its ring is
  empty and large enough. This is so along every run whose ADDBAs find nothing
  counted in the ring (`Tidy`);
* `addba_unclean`: both failures.

A ring with nothing counted is empty as long as all MSDUs in it were counted
(`Counted`), which only an ADDBA breaks.

How the theorem is proved: what an ADDBA does to the ring is computed for both cases, a new node and
one that is there (`clean_createBaNode`, `clean_addbaNode`). Along a run, `AllCounted` is kept by
the steps of `W132d.Reorder.Slots`, for the node that a step is about; the others are left alone. So
a ring with nothing counted is empty, and what a tidy ADDBA asks of the count is enough.
-/

namespace W132d.Reorder

/-- The session starts clean: nothing in the ring, nothing counted, and a mask for no
    more slots than were allocated. -/
def Clean (d : RxBaNodeDesc) : Prop :=
  (∀ i < d.slots, (d.reorderBuffer i).skb = []) ∧ d.buffCnt = 0 ∧ d.indexMask + 1 ≤ d.slots

/-- The session of an ADDBA has no node, or one with an empty ring that is large enough. -/
def Restartable (e : Entry) (k : Key) (b : AddbaEvent) : Prop :=
  ∀ n, e.hlist k = some n →
    (∀ i < n.rxBa.slots, (n.rxBa.reorderBuffer i).skb = []) ∧ b.indexSize ≤ n.rxBa.slots

/-- The count of the node a session has is not at its maximum. -/
def CountsOn (e : Entry) (staLutIndex : Fin (2 ^ 8)) (tid : ℕ) : Prop :=
  ∀ k ∈ e.findBaNode staLutIndex tid, ∀ n ∈ e.hlist k, n.rxBa.buffCnt < 2 ^ 16 - 1

instance (e : Entry) (staLutIndex : Fin (2 ^ 8)) (tid : ℕ) :
    Decidable (CountsOn e staLutIndex tid) :=
  inferInstanceAs (Decidable (∀ k ∈ e.findBaNode staLutIndex tid, ∀ n ∈ e.hlist k, _))

/-- An ADDBA that finds a node finds nothing counted in its ring, and the ring large
    enough; no event wraps a count. -/
def Tidy (e : Entry) : EntryEvent → Prop
  | .data skb => CountsOn e skb.staLutIndex skb.desc.tid
  | .filter staLutIndex tid _ => CountsOn e staLutIndex tid
  | .addba b => ∀ k ∈ b.key?, ∀ n ∈ e.hlist k,
    n.rxBa.buffCnt = 0 ∧ b.indexSize ≤ n.rxBa.slots
  | _ => True

instance (e : Entry) : ∀ ev, Decidable (Tidy e ev)
  | .data _ => inferInstanceAs (Decidable (CountsOn e _ _))
  | .filter _ _ _ => inferInstanceAs (Decidable (CountsOn e _ _))
  | .addba b => inferInstanceAs (Decidable (∀ k ∈ b.key?, ∀ n ∈ e.hlist k, _ ∧ _))
  | .timeout _ | .activate _ _ | .delba _ _ | .peerDelba _ | .resetPn _ | .fetch => .isTrue trivial

/-- Every ring counts its slots in use. -/
def AllCounted (e : Entry) : Prop := ∀ k n, e.hlist k = some n → Counted n.rxBa

section

variable {e e' absent : Entry} {k : Key} {n : RxBaNode} {b : AddbaEvent}

/-- Doubling `MIN_INDEX_SIZE` does not give zero. -/
theorem indexSize_pos (b : AddbaEvent) : 0 < b.indexSize := by
  obtain ⟨k, -, heq, -⟩ := getIndexSizeLoop_eq (2 * b.winSize) 6 32
    (by have := b.winSize.2; omega)
  rw [AddbaEvent.indexSize, getIndexSize, minIndexSize, show 1 <<< 6 = 2 ^ 6 from rfl, heq]
  exact Nat.two_pow_pos k

/-- A node that is set up anew keeps its ring. -/
theorem clean_addbaNode :
    Clean (addbaNode n b.winStart b.winSize).rxBa ↔
      (∀ i < n.rxBa.slots, (n.rxBa.reorderBuffer i).skb = []) ∧ b.indexSize ≤ n.rxBa.slots := by
  have hmask : (addbaNode n b.winStart b.winSize).rxBa.indexMask + 1 = b.indexSize :=
    Nat.sub_add_cancel (indexSize_pos b)
  rw [Clean, hmask]
  exact ⟨fun h => ⟨h.1, h.2.2⟩, fun h => ⟨h.1, rfl, h.2⟩⟩

theorem clean_createBaNode :
    Clean (addbaNode (createBaNode b.staLutIndex b.tid b.indexSize) b.winStart b.winSize).rxBa :=
  clean_addbaNode.2 ⟨fun _ _ => rfl, le_rfl⟩

/-- A blank ring is counted. -/
theorem counted_of_blank {d : RxBaNodeDesc} (hmask : d.indexMask < d.slots)
    (hblank : ∀ i < d.slots, d.reorderBuffer i = .zero) : Counted d := by
  refine ⟨hmask, ?_⟩
  have hused : d.used = ∅ := Finset.filter_false_of_mem fun i hi =>
    not_not.2 (hblank i (Finset.mem_range.1 hi))
  rw [hused, Finset.card_empty]
  exact Nat.zero_le _

/-- A ring with nothing counted is blank. -/
theorem Counted.blank {d : RxBaNodeDesc} (h : Counted d) (hcnt : d.buffCnt = 0) :
    ∀ i < d.slots, d.reorderBuffer i = .zero := by
  intro i hi
  have hempty : d.used = ∅ := Finset.card_eq_zero.1 (Nat.le_zero.1 (hcnt ▸ h.card_le))
  by_contra hne
  have hmem : i ∈ d.used := Finset.mem_filter.2 ⟨Finset.mem_range.2 hi, hne⟩
  rw [hempty] at hmem
  exact absurd hmem (Finset.notMem_empty i)

/-! ## The counts along every run -/

theorem AllCounted.update (h : AllCounted e) (hn : Counted n.rxBa) {e' : Entry}
    (hlist : e'.hlist = Function.update e.hlist k (some n)) : AllCounted e' := by
  intro k' n' hn'
  rw [hlist] at hn'
  by_cases hk : k' = k
  · subst hk
    rw [Function.update_self, Option.some_inj] at hn'
    exact hn' ▸ hn
  · rw [Function.update_of_ne hk] at hn'
    exact h k' n' hn'

theorem AllCounted.free (h : AllCounted e) (out : Out) :
    AllCounted ((e.delNode k).emit out) := by
  intro k' n' hn'
  change Function.update e.hlist k none k' = some n' at hn'
  by_cases hk : k' = k
  · subst hk
    rw [Function.update_self] at hn'
    exact absurd hn' (by simp)
  · rw [Function.update_of_ne hk] at hn'
    exact h k' n' hn'

theorem AllCounted.onNode {staLutIndex : Fin (2 ^ 8)} {tid : ℕ}
    {f : RxBaNode → Option (RxBaNode × Out)} (h : AllCounted e) (ha : AllCounted absent)
    (hf : ∀ k n r, e.findBaNode staLutIndex tid = some k → e.hlist k = some n → f n = some r →
      Counted n.rxBa → Counted r.1.rxBa)
    (hstep : e.onNode staLutIndex tid absent f = some e') : AllCounted e' := by
  rcases Entry.onNode_eq_some hstep with ⟨-, rfl⟩ | ⟨k, n, r, hk, hn, hr, rfl⟩
  · exact ha
  · exact h.update (hf k n r hk hn hr (h k n hn)) rfl

theorem AllCounted.freeBaNode {drain : Bool} {staLutIndex : Fin (2 ^ 8)} {tid : ℕ}
    (h : AllCounted e) (hstep : freeBaNode drain e staLutIndex tid = some e') :
    AllCounted e' := by
  rcases freeBaNode_cases hstep with ⟨-, rfl⟩ | ⟨k, n, -, -, -, rfl⟩
  · exact h
  · exact h.free _

/-- A tidy step keeps every ring counted. -/
theorem entry_step_counted {ev : EntryEvent} (h : AllCounted e) (ht : Tidy e ev)
    (hstep : entry.step e ev = some e') : AllCounted e' := by
  cases ev with
  | data skb =>
    have h₁ : AllCounted { e with handed := e.handed ++ [skb] } := h
    have h₂ : AllCounted ({ e with handed := e.handed ++ [skb] }.emit { up := [skb] }) := h
    rcases reorderDataProcess_cases hstep with rfl | hstep
    · exact h₂
    · refine h₁.onNode h₂ (fun k n r hk hn hr hc => ?_) hstep
      exact (nodeStep_slots hr).2 hc fun _ => ht k hk n hn
  | filter staLutIndex tid seqNum =>
    refine h.onNode h (fun k n r hk hn hr hc => ?_) hstep
    exact (nodeStep_slots hr).2 hc fun _ => ht k hk n hn
  | timeout k =>
    rcases timeout_cases hstep with ⟨-, rfl⟩ | ⟨n, r, hn, hr, rfl⟩
    · exact h
    · exact h.update ((nodeStep_slots hr).2 (h k n hn) fun hsome => absurd hsome (by decide)) rfl
  | addba b =>
    obtain ⟨⟨e'', ret⟩, hb, rfl⟩ := Option.map_eq_some_iff.1 hstep
    have hmask : b.indexSize - 1 < b.indexSize := Nat.sub_lt (indexSize_pos b) Nat.one_pos
    rcases wlanAddbaEvent_cases hb with ⟨k, n, hk, hn, -, rfl⟩ | ⟨-, rfl⟩ | ⟨k, -, -, -, rfl⟩
    · -- Nothing was counted, so that the ring is blank and its new count is right.
      obtain ⟨hcnt, hsize⟩ := ht k hk n hn
      have hc : Counted (addbaNode n b.winStart b.winSize).rxBa :=
        counted_of_blank (hmask.trans_le hsize) ((h k n hn).blank hcnt)
      exact h.update hc rfl
    · exact h
    · -- The ring of a new node is blank.
      have hc : Counted (addbaNode (createBaNode b.staLutIndex b.tid b.indexSize)
          b.winStart b.winSize).rxBa := counted_of_blank hmask fun _ _ => rfl
      exact h.update hc rfl
  | activate staLutIndex tid =>
    refine h.onNode h (fun k n r _ _ hr hc => ?_) hstep
    rw [← Option.some.inj hr]
    exact hc
  | delba staLutIndex tid => exact h.freeBaNode hstep
  | peerDelba lutIndex => exact foldlM_invariant (fun e tid e' h => h.freeBaNode) h hstep
  | resetPn lutId =>
    refine foldlM_invariant (I := AllCounted) (fun e tid e' h hstep => ?_) h hstep
    refine h.onNode h (fun k n r _ _ hr hc => ?_) hstep
    rw [← Option.some.inj hr]
    exact ⟨hc.mask_lt, hc.card_le⟩
  | fetch => exact Option.some.inj hstep ▸ h

/-! ## Clean starts -/

/-- After an ADDBA that succeeds, the ring is clean exactly if it was restartable; it is
    along every tidy run. -/
theorem addba_clean {es : List EntryEvent} (hrun : entry.run Entry.init es = some e)
    (hb : wlanAddbaEvent e b = some (e', 0)) :
    ∃ k n, b.key? = some k ∧ e'.hlist k = some n ∧ (Clean n.rxBa ↔ Restartable e k b) ∧
      (entry.Along Tidy Entry.init (es ++ [.addba b]) → Clean n.rxBa) := by
  rcases wlanAddbaEvent_cases hb with ⟨k, n, hk, hn, -, rfl⟩ | ⟨hret, -⟩ | ⟨k, hk, hn, -, rfl⟩
  · -- A node was found: its ring is kept.
    have hiff : Clean (addbaNode n b.winStart b.winSize).rxBa ↔ Restartable e k b := by
      rw [clean_addbaNode, Restartable]
      refine ⟨fun h n' hn' => ?_, fun h => h n hn⟩
      rwa [← Option.some.inj (hn.symm.trans hn')]
    refine ⟨k, _, hk, Function.update_self .., hiff, fun htidy => hiff.2 ?_⟩
    obtain ⟨halong, hlast⟩ := Machine.along_concat hrun htidy
    have hall : AllCounted e := Machine.invariant (fun e ev e' => entry_step_counted)
      (fun k n hn => absurd hn (by simp [Entry.init])) halong hrun
    intro n' hn'
    obtain ⟨hcnt, hsize⟩ := hlast k hk n' hn'
    refine ⟨fun i hi => ?_, hsize⟩
    rw [(hall k n' hn').blank hcnt i hi]
    rfl
  · exact absurd hret (by decide)
  · refine ⟨k, _, hk, Function.update_self .., ?_, fun _ => clean_createBaNode⟩
    exact iff_of_true clean_createBaNode fun n hn' => absurd (hn.symm.trans hn') (by simp)

end

/-- An ADDBA for the first station and TID 0, with a window from 0 on. -/
def addbaOf (winSize : Fin (2 ^ 16)) : AddbaEvent where
  staLutIndex := 1
  tid := 0
  winStart := 0
  winSize := winSize
  allocOk := true

/-- A QoS MSDU of the first station and TID 0 that is an MPDU of its own. -/
def qosMpdu (id seqNum : ℕ) : Skb :=
  ⟨id, { filterDesc seqNum with qosFlag := true, staLutIndex := 1, staLutIndex_lt := by decide }⟩

/-- A session that is set up, activated and set up again. -/
theorem addba_clean_again :
    ∃ e e', entry.run Entry.init [.addba (addbaOf 16), .activate 1 0] = some e ∧
      wlanAddbaEvent e (addbaOf 32) = some (e', 0) ∧
      ∃ k n, (addbaOf 32).key? = some k ∧ e'.hlist k = some n ∧ Clean n.rxBa := by
  obtain ⟨e, hrun, h⟩ : ∃ e, entry.run Entry.init [.addba (addbaOf 16), .activate 1 0] = some e ∧
      (wlanAddbaEvent e (addbaOf 32)).any (fun r => r.2 = 0) = true :=
    Machine.exists_run (by decide)
  obtain ⟨⟨e', ret⟩, he', hret⟩ := (Option.any_eq_true ..).1 h
  obtain rfl : ret = 0 := of_decide_eq_true hret
  obtain ⟨k, n, hk, hn, -, hclean⟩ := addba_clean hrun he'
  exact ⟨e, e', hrun, he', k, n, hk, hn, hclean (by decide +kernel)⟩

/-- A second ADDBA keeps the MSDU of the session before, and asks for a larger ring
    than there is. -/
theorem addba_unclean :
    ∃ e e' n, entry.run Entry.init
        [.addba (addbaOf 16), .activate 1 0, .data (qosMpdu 0 1)] = some e ∧
      wlanAddbaEvent e (addbaOf 64) = some (e', 0) ∧ e'.hlist (1, 0) = some n ∧
      (n.rxBa.reorderBuffer 1).skb = [qosMpdu 0 1] ∧ n.rxBa.slots < n.rxBa.indexMask + 1 ∧
      ¬Clean n.rxBa := by
  obtain ⟨e, hrun, h⟩ : ∃ e, entry.run Entry.init
      [.addba (addbaOf 16), .activate 1 0, .data (qosMpdu 0 1)] = some e ∧
      (wlanAddbaEvent e (addbaOf 64)).any (fun r => r.2 = 0 && (r.1.hlist (1, 0)).any fun n =>
        (n.rxBa.reorderBuffer 1).skb = [qosMpdu 0 1] && n.rxBa.slots < n.rxBa.indexMask + 1) =
        true := Machine.exists_run (by decide)
  obtain ⟨⟨e', ret⟩, he', h⟩ := (Option.any_eq_true ..).1 h
  obtain ⟨hret, h⟩ := (Bool.and_eq_true ..).mp h
  obtain rfl : ret = 0 := of_decide_eq_true hret
  obtain ⟨n, hn, h⟩ := (Option.any_eq_true ..).1 h
  obtain ⟨hskb, hslots⟩ := (Bool.and_eq_true ..).mp h
  have hlt := of_decide_eq_true hslots
  refine ⟨e, e', n, hrun, he', hn, of_decide_eq_true hskb, hlt, fun hclean => ?_⟩
  exact absurd hclean.2.2 (not_le.2 hlt)

end W132d.Reorder
