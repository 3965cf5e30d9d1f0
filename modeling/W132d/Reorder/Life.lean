import W132d.Reorder.Entry

/-!
# The life of a node

A node of the entry is created by an ADDBA, and freed by a DELBA or with its peer. In between, the
events of the entry that are about its station and its TID work on it, and the others leave it
alone.

* `life`: a node, as a machine of its own, whose events are what is done to it (`LifeEvent`);
* `lifeEvent?`: what an event of the entry does to a node;
* `entry_step_some`, `entry_step_none`: what a step of the entry does to a node that is there, and
  where a node comes from;
* `node_life`: the nodes of the entry have lives.

The lemmas about the entry are of two kinds: what a function does to the node of a given station and
TID, and that it leaves the others. They are used to carry a statement about one node over to the
entry: what holds along all lives holds of every node of every run. `W132d.Reorder.Replay` does so
for the replay check, and `W132d.Reorder.BaEvents` for the masks of the rings.

A node is found through `current`, the one that was found last, or through the list of its TID. Both
lead to the same node as long as the one found last is there (`Valid`), which every step keeps.
-/

namespace W132d.Reorder

/-! ## Lives -/

/-- What is done to a node. -/
inductive LifeEvent
  | node (e : NodeEvent)
  | addba (winStart winSize : ℕ)
  | activate
  | resetPn
  | endSession (drain : Bool)
  deriving DecidableEq, Repr

/-- `reset_pn`, of a node. -/
def RxBaNode.armPn (n : RxBaNode) : RxBaNode := { n with rxBa := { n.rxBa with resetPn := true } }

/-- The effect on the node; a node whose session was ended is freed after it. -/
def lifeStep (n : RxBaNode) : LifeEvent → Option RxBaNode
  | .node e => (nodeStep n e).map Prod.fst
  | .addba winStart winSize => some (addbaNode n winStart winSize)
  | .activate => some (activeBaNode n)
  | .resetPn => some n.armPn
  | .endSession drain =>
    some { n with active := false, rxBa := (Reorder.endSession drain n).1 }

/-- A node, as a machine. -/
def life : Machine RxBaNode LifeEvent where
  step := lifeStep

/-! ## The events of the entry -/

/-- The node of a station and a TID, if there is a list for it. -/
def key? (staLutIndex : Fin (2 ^ 8)) (tid : ℕ) : Option Key :=
  if h : tid < numTids then some (staLutIndex, ⟨tid, h⟩) else none

/-- What an event does to the node `k`, unless it frees it. -/
def lifeEvent? (k : Key) : EntryEvent → Option LifeEvent
  | .data skb =>
    if !skb.desc.bcMcFlag && skb.desc.qosFlag && key? skb.staLutIndex skb.desc.tid = some k then
      some (.node (.msdu skb))
    else none
  | .filter staLutIndex tid seqNum =>
    if key? staLutIndex tid = some k then some (.node (.filter seqNum)) else none
  | .timeout k' => if k' = k then some (.node .timeout) else none
  | .addba b => if b.key? = some k then some (.addba b.winStart b.winSize) else none
  | .activate staLutIndex tid => if key? staLutIndex tid = some k then some .activate else none
  | .resetPn lutId => if lutId = k.1 then some .resetPn else none
  | .delba _ _ | .peerDelba _ | .fetch => none

section

variable {e e' absent : Entry} {k k' : Key} {n n' : RxBaNode} {staLutIndex : Fin (2 ^ 8)} {tid : ℕ}
  {f : RxBaNode → Option (RxBaNode × Out)}

theorem findBaNode_key (h : e.findBaNode staLutIndex tid = some k) :
    key? staLutIndex tid = some k := by
  obtain ⟨ht, rfl⟩ := Entry.findBaNode_eq_some h
  exact dif_pos ht

/-- A node that is there is found. -/
theorem findBaNode_of_some (hk : key? staLutIndex tid = some k) (hn : e.hlist k = some n) :
    e.findBaNode staLutIndex tid = some k := by
  obtain ⟨ht, hk⟩ := Option.dite_none_right_eq_some.1 hk
  obtain rfl := Option.some.inj hk
  rw [Entry.findBaNode, dif_pos ht]
  refine if_pos ?_
  rw [hn, Option.isSome_some, Bool.or_true]

/-- Working on the node that is found leaves the others alone. -/
theorem onNode_some (h : e.onNode staLutIndex tid absent f = some e')
    (habs : absent.hlist = e.hlist) (hn : e.hlist k = some n) :
    if key? staLutIndex tid = some k then ∃ r, f n = some r ∧ e'.hlist k = some r.1
    else e'.hlist k = some n := by
  rcases Entry.onNode_eq_some h with ⟨hfind, rfl⟩ | ⟨k', n', r, hfind, hn', hr, rfl⟩
  · rw [habs, if_neg fun hk => ?_]
    · exact hn
    · exact absurd ((findBaNode_of_some hk hn).symm.trans hfind) (by simp)
  · rw [findBaNode_key hfind]
    change if some k' = some k then _ else Function.update e.hlist k' (some r.1) k = some n
    by_cases hk : k' = k
    · subst hk
      obtain rfl := Option.some.inj (hn'.symm.trans hn)
      rw [if_pos rfl]
      exact ⟨r, hr, Function.update_self ..⟩
    · rw [if_neg fun heq => hk (Option.some.inj heq), Function.update_of_ne (Ne.symm hk)]
      exact hn

/-- Working on a node creates none. -/
theorem onNode_none (h : e.onNode staLutIndex tid absent f = some e')
    (habs : absent.hlist = e.hlist) (hn : e.hlist k = none) : e'.hlist k = none := by
  rcases Entry.onNode_eq_some h with ⟨-, rfl⟩ | ⟨k', n', r, -, hn', -, rfl⟩
  · rw [habs, hn]
  · change Function.update e.hlist k' (some r.1) k = none
    have hk : k ≠ k' := by
      rintro rfl
      exact absurd (hn'.symm.trans hn) (by simp)
    rw [Function.update_of_ne hk, hn]

/-- Freeing a node leaves the others alone. -/
theorem freeBaNode_hlist {drain : Bool} (h : freeBaNode drain e staLutIndex tid = some e')
    (k : Key) :
    e'.hlist k = e.hlist k ∨ e'.hlist k = none := by
  rcases freeBaNode_cases h with ⟨-, rfl⟩ | ⟨k', n, -, -, -, rfl⟩
  · exact .inl rfl
  · change Function.update e.hlist k' none k = _ ∨ Function.update e.hlist k' none k = none
    by_cases hk : k = k'
    · exact .inr (hk ▸ Function.update_self ..)
    · exact .inl (Function.update_of_ne hk ..)

theorem peerEntryDelba_hlist {lutIndex : Fin (2 ^ 8)} (h : peerEntryDelba e lutIndex = some e')
    (k : Key) :
    e'.hlist k = e.hlist k ∨ e'.hlist k = none := by
  refine foldlM_invariant (I := fun s : Entry => s.hlist k = e.hlist k ∨ s.hlist k = none)
    (fun s tid s' hs hstep => ?_) (.inl rfl) h
  rcases freeBaNode_hlist hstep k with heq | heq
  · rw [heq]
    exact hs
  · exact .inr heq

/-- `reset_pn` arms the node of its station in every list. -/
theorem resetPn_some {lutId : Fin (2 ^ 8)} (h : resetPn e lutId = some e')
    (hn : e.hlist k = some n) :
    e'.hlist k = if lutId = k.1 then some n.armPn else some n := by
  suffices hloop : ∀ (l : List (Fin numTids)) (e : Entry) (n : RxBaNode),
      l.foldlM (resetPnNode lutId) e = some e' → e.hlist k = some n →
        e'.hlist k = if lutId = k.1 ∧ k.2 ∈ l then some n.armPn else some n by
    rw [hloop _ e n h hn]
    simp only [List.mem_finRange, and_true]
  intro l
  induction l with
  | nil =>
    intro e n h hn
    rw [List.foldlM_nil] at h
    rw [← Option.some.inj h, hn, if_neg fun hk => List.not_mem_nil hk.2]
  | cons tid l ih =>
    intro e n h hn
    rw [List.foldlM_cons] at h
    obtain ⟨t, ht, h⟩ := Option.bind_eq_some_iff.1 h
    have hturn := onNode_some ht rfl hn
    have hkey : key? lutId tid = some k ↔ lutId = k.1 ∧ k.2 = tid := by
      rw [key?, dif_pos tid.2, Option.some_inj, Prod.ext_iff]
      exact and_congr_right fun _ => eq_comm
    by_cases hk : key? lutId tid = some k
    · rw [if_pos hk] at hturn
      obtain ⟨r, hr, hturn⟩ := hturn
      obtain rfl := Option.some.inj hr
      obtain ⟨hlut, htid⟩ := hkey.1 hk
      rw [if_pos ⟨hlut, List.mem_cons.2 (.inl htid)⟩, ih t _ h hturn]
      -- Arming it once more changes nothing.
      exact ite_self (c := lutId = k.1 ∧ k.2 ∈ l) (some n.armPn)
    · rw [if_neg hk] at hturn
      rw [ih t n h hturn]
      refine if_congr (and_congr_right fun hlut => ?_) rfl rfl
      rw [List.mem_cons]
      exact (or_iff_right fun htid => hk (hkey.2 ⟨hlut, htid⟩)).symm

theorem resetPn_none {lutId : Fin (2 ^ 8)} (h : resetPn e lutId = some e')
    (hn : e.hlist k = none) : e'.hlist k = none :=
  foldlM_invariant (I := fun s : Entry => s.hlist k = none)
    (fun _ _ _ hs hstep => onNode_none hstep rfl hs) hn h

/-- The node of an ADDBA is set up anew if it is there, and created otherwise. -/
theorem wlanAddbaEvent_hlist {b : AddbaEvent} {ret : ℤ}
    (h : wlanAddbaEvent e b = some (e', ret)) (k : Key) :
    (e'.hlist k = e.hlist k ∧ (b.key? = some k → e.hlist k = none)) ∨
    (b.key? = some k ∧ ((∃ n, e.hlist k = some n ∧
        e'.hlist k = some (addbaNode n b.winStart b.winSize)) ∨
      (e.hlist k = none ∧ b.allocOk ∧ e'.hlist k = some (addbaNode
        (createBaNode b.staLutIndex b.tid b.indexSize) b.winStart b.winSize)))) := by
  -- Only the node of this key is set.
  have hset (k' : Key) (n : RxBaNode) (hk : b.key? = some k') (hne : k ≠ k') :
      (e.setNode k' n).hlist k = e.hlist k ∧ (b.key? = some k → e.hlist k = none) :=
    ⟨Function.update_of_ne hne .., fun hk' => absurd (Option.some.inj (hk'.symm.trans hk)) hne⟩
  unfold wlanAddbaEvent at h
  split at h
  · rename_i k' hfind
    have hk' : b.key? = some k' := findBaNode_key hfind
    split at h
    · exact absurd h (by simp)
    · rename_i n hn
      rw [Option.some_inj, Prod.mk.injEq] at h
      rw [← h.1]
      by_cases hk : k = k'
      · subst hk
        exact .inr ⟨hk', .inl ⟨n, hn, Function.update_self ..⟩⟩
      · exact .inl (hset k' _ hk' hk)
  · rename_i hfind
    have hnone (hk : b.key? = some k) : e.hlist k = none := by
      obtain ⟨ht, hk⟩ := Option.dite_none_right_eq_some.1 hk
      exact Option.some.inj hk ▸ Entry.findBaNode_eq_none hfind ht
    split_ifs at h with halloc
    · rw [Option.some_inj, Prod.mk.injEq] at h
      exact .inl ⟨by rw [← h.1], hnone⟩
    · split at h
      · exact absurd h (by simp)
      · rename_i k' hk'
        rw [Option.some_inj, Prod.mk.injEq] at h
        rw [← h.1]
        by_cases hk : k = k'
        · subst hk
          have hok : b.allocOk = true := by simpa using halloc
          exact .inr ⟨hk', .inr ⟨hnone hk', hok, Function.update_self ..⟩⟩
        · exact .inl (hset k' _ hk' hk)

/-! ## What a step of the entry does to its nodes -/

/-- A node that is there is left alone, or what the event does to it is done; or it is freed. -/
theorem entry_step_some {ev : EntryEvent} (hstep : entry.step e ev = some e')
    (hn : e.hlist k = some n) (hn' : e'.hlist k = some n') :
    match lifeEvent? k ev with
    | some le => lifeStep n le = some n'
    | none => n' = n := by
  have hkept (h : e'.hlist k = some n) : n' = n := Option.some.inj (hn'.symm.trans h)
  -- The entry that is worked on has the nodes of `e`, whatever was handed up before.
  have hdone {staLutIndex : Fin (2 ^ 8)} {tid : ℕ} {e₁ absent : Entry} (le : LifeEvent)
      {f : RxBaNode → Option (RxBaNode × Out)}
      (h : e₁.onNode staLutIndex tid absent f = some e') (hlist : e₁.hlist = e.hlist)
      (habs : absent.hlist = e.hlist) (hf : ∀ r, f n = some r → lifeStep n le = some r.1) :
      if key? staLutIndex tid = some k then lifeStep n le = some n' else n' = n := by
    have hturn := onNode_some h (habs.trans hlist.symm) (hlist ▸ hn)
    split_ifs at hturn ⊢
    · obtain ⟨r, hr, hturn⟩ := hturn
      rw [hf r hr, ← hturn, hn']
    · exact hkept hturn
  cases ev with
  | data skb =>
    rw [lifeEvent?]
    by_cases hqos : (!skb.desc.bcMcFlag && skb.desc.qosFlag) = true
    · rw [hqos, Bool.true_and]
      have h := (if_pos hqos).symm.trans hstep
      have hturn := hdone (.node (.msdu skb)) h rfl rfl fun r hr =>
        congrArg (Option.map Prod.fst) hr
      by_cases hk : key? skb.staLutIndex skb.desc.tid = some k
      · rw [if_pos hk] at hturn
        rw [if_pos (decide_eq_true hk)]
        exact hturn
      · rw [if_neg hk] at hturn
        rw [if_neg (by simpa using hk)]
        exact hturn
    · -- The MSDU is handed up.
      have h := (if_neg hqos).symm.trans hstep
      rw [Bool.eq_false_iff.2 hqos, Bool.false_and, if_neg Bool.false_ne_true]
      exact hkept (Option.some.inj h ▸ hn)
  | filter staLutIndex tid seqNum =>
    have hturn := hdone (.node (.filter seqNum)) hstep rfl rfl fun r hr =>
      congrArg (Option.map Prod.fst) hr
    rw [lifeEvent?]
    split_ifs at hturn ⊢
    · exact hturn
    · exact hturn
  | timeout k' =>
    rw [lifeEvent?]
    rcases timeout_cases hstep with ⟨hnone, rfl⟩ | ⟨n₁, r, hn₁, hr, rfl⟩
    · rw [if_neg fun hk => ?_]
      · exact hkept hn
      · exact absurd ((hk ▸ hnone).symm.trans hn) (by simp)
    · change Function.update e.hlist k' (some r.1) k = some n' at hn'
      split_ifs with hk
      · subst hk
        obtain rfl := Option.some.inj (hn₁.symm.trans hn)
        rw [Function.update_self] at hn'
        change (nodeStep n₁ .timeout).map Prod.fst = some n'
        rw [hr, ← hn', Option.map_some]
      · rw [Function.update_of_ne (Ne.symm hk)] at hn'
        exact Option.some.inj (hn'.symm.trans hn)
  | addba b =>
    obtain ⟨⟨e'', ret⟩, hb, rfl⟩ := Option.map_eq_some_iff.1 hstep
    rw [lifeEvent?]
    rcases wlanAddbaEvent_hlist hb k with ⟨hsame, hnone⟩ | ⟨hk, ⟨n₁, hn₁, hset⟩ | ⟨hnone, -, -⟩⟩
    · rw [if_neg fun hk => ?_]
      · exact hkept (hsame.trans hn)
      · exact absurd ((hnone hk).symm.trans hn) (by simp)
    · rw [if_pos hk]
      obtain rfl := Option.some.inj (hn₁.symm.trans hn)
      exact hset.symm.trans hn'
    · exact absurd (hnone.symm.trans hn) (by simp)
  | activate staLutIndex tid =>
    have hturn := hdone .activate hstep rfl rfl fun r hr => by
      rw [← Option.some.inj hr]
      rfl
    rw [lifeEvent?]
    split_ifs at hturn ⊢
    · exact hturn
    · exact hturn
  | delba staLutIndex tid =>
    rcases freeBaNode_hlist hstep k with heq | heq
    · exact hkept (heq.trans hn)
    · exact absurd (heq.symm.trans hn') (by simp)
  | peerDelba lutIndex =>
    rcases peerEntryDelba_hlist hstep k with heq | heq
    · exact hkept (heq.trans hn)
    · exact absurd (heq.symm.trans hn') (by simp)
  | resetPn lutId =>
    have hset := resetPn_some hstep hn
    rw [lifeEvent?]
    split_ifs at hset ⊢
    · exact hset.symm.trans hn'
    · exact hkept hset
  | fetch => exact hkept (Option.some.inj hstep ▸ hn)

/-- A node that was not there was created by an ADDBA. -/
theorem entry_step_none {ev : EntryEvent} (hstep : entry.step e ev = some e')
    (hn : e.hlist k = none) (hn' : e'.hlist k = some n') :
    ∃ b : AddbaEvent, ev = .addba b ∧ b.allocOk ∧ b.key? = some k ∧
      n' = addbaNode (createBaNode b.staLutIndex b.tid b.indexSize) b.winStart b.winSize := by
  have hkept (h : e'.hlist k = none) : False := absurd (h.symm.trans hn') (by simp)
  -- Only a request for a session makes a node. All other events leave the place empty, or find no
  -- node there.
  cases ev with
  | addba b =>
    obtain ⟨⟨e'', ret⟩, hb, rfl⟩ := Option.map_eq_some_iff.1 hstep
    rcases wlanAddbaEvent_hlist hb k with ⟨hsame, -⟩ | ⟨hk, ⟨n₁, hn₁, -⟩ | ⟨-, hok, hset⟩⟩
    · exact (hkept (hsame.trans hn)).elim
    · exact absurd (hn.symm.trans hn₁) (by simp)
    · exact ⟨b, rfl, hok, hk, Option.some.inj (hn'.symm.trans hset)⟩
  | data skb =>
    rcases reorderDataProcess_cases hstep with rfl | hstep
    · exact (hkept hn).elim
    · exact (hkept (onNode_none hstep rfl hn)).elim
  | filter staLutIndex tid seqNum => exact (hkept (onNode_none hstep rfl hn)).elim
  | timeout k' =>
    rcases timeout_cases hstep with ⟨-, rfl⟩ | ⟨n₁, r, hn₁, -, rfl⟩
    · exact (hkept hn).elim
    · have hk : k ≠ k' := by
        rintro rfl
        exact absurd (hn.symm.trans hn₁) (by simp)
      exact (hkept ((Function.update_of_ne hk ..).trans hn)).elim
  | activate staLutIndex tid => exact (hkept (onNode_none hstep rfl hn)).elim
  | delba staLutIndex tid =>
    exact (hkept ((freeBaNode_hlist hstep k).elim (·.trans hn) id)).elim
  | peerDelba lutIndex =>
    exact (hkept ((peerEntryDelba_hlist hstep k).elim (·.trans hn) id)).elim
  | resetPn lutId => exact (hkept (resetPn_none hstep hn)).elim
  | fetch => exact (hkept (Option.some.inj hstep ▸ hn)).elim

/-- The nodes of the entry have lives, with a reset only where the entry has one. -/
theorem node_life {es : List EntryEvent} (hrun : entry.run Entry.init es = some e)
    (hn : e.hlist k = some n) :
    ∃ slots les, life.run (createBaNode k.1 k.2 slots) les = some n ∧
      les.count .resetPn ≤ es.count (.resetPn k.1) := by
  let Lives (es : List EntryEvent) (e : Entry) : Prop := ∀ n, e.hlist k = some n →
    ∃ slots les, life.run (createBaNode k.1 k.2 slots) les = some n ∧
      les.count .resetPn ≤ es.count (.resetPn k.1)
  suffices hlives : Lives es e from hlives n hn
  -- The invariant is about the history: the events of the entry that were about this key, from its
  -- last `addba` that has made the node.
  refine Machine.invariant_history (m := entry) (G := fun _ _ => True) (I := Lives)
    (fun es e ev e' hI _ hstep n' hn' => ?_) (fun n hn => absurd hn (by simp [Entry.init]))
    Machine.along_true hrun
  cases hn : e.hlist k with
  -- The node is made by this event, and its life begins with it.
  | none =>
    obtain ⟨b, -, -, hk, rfl⟩ := entry_step_none hstep hn hn'
    obtain ⟨ht, hk⟩ := Option.dite_none_right_eq_some.1 hk
    obtain rfl := Option.some.inj hk
    exact ⟨b.indexSize, [.addba b.winStart b.winSize], rfl, Nat.zero_le _⟩
  -- The node was there, and this event is one of its life, or passes it by.
  | some n =>
    obtain ⟨slots, les, hlife, hcount⟩ := hI n hn
    have hturn := entry_step_some hstep hn hn'
    rw [List.count_append]
    split at hturn
    · rename_i le hle
      refine ⟨slots, les ++ [le], Machine.run_concat hlife hturn, ?_⟩
      rw [List.count_append]
      refine add_le_add hcount ?_
      by_cases hreset : le = .resetPn
      · -- The event is the reset of the station.
        subst hreset
        cases ev <;> simp only [lifeEvent?, reduceCtorEq, Option.ite_none_right_eq_some,
          Option.some_inj, and_false] at hle
        rw [hle.1]
        exact (List.count_singleton_self).le.trans (List.count_singleton_self).ge
      · rw [List.count_singleton, beq_eq_false_iff_ne.2 hreset]
        exact Nat.zero_le _
    · exact ⟨slots, les, hturn ▸ hlife, hcount.trans (Nat.le_add_right _ _)⟩

end

end W132d.Reorder
