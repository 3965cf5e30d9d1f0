import W132d.Reorder.Checked
import W132d.Reorder.Entry

/-!
# The list of the MSDUs handed up

The driver keeps the list of the entry by its first and its last `sk_buff`.
`reorder_set_skb_list` links a chain of MSDUs to the list, and writes the `next` of the last one
without looking whether there is one.

* `Entry.calls`: the calls of `reorder_set_skb_list` in a step of the entry, with what they are
  given;
* `reorderSetSkbList`: what a call does to the two pointers of the entry;
* `entryEnds_run`: the two pointers are the ends of the list of the entry, along every run;
* `setsSound_iff`: a step gives no null pointer to the list, but for a filter event of a session
  that is not active.

How the theorem is proved: a chain of MSDUs is given to the list by its two ends, and linking chains
one after the other gives the ends of what they make together (`Links`). The calls of a step are
those of the MPDUs whose checks pass (`W132d.Reorder.Checked`), each of which has an MSDU, so that
what is linked is what the step hands up (`nodeCalls_links`). The one call of another kind is that
of a session which is not active: it gives what it has to the list, and a filter event has no MSDU.
The list of the entry is then followed along a run by the two pointers (`entryEnds_run`).
-/

namespace W132d.Reorder

/-! ## The two ends -/

/-- The pointers to the first and to the last MSDU of a chain (`skb_head`, `skb_last`). -/
structure Ends where
  skbHead : Option Skb
  skbLast : Option Skb
  deriving DecidableEq, Repr

/-- The ends of a chain of MSDUs. -/
def Ends.of (l : List Skb) : Ends := ⟨l.head?, l.getLast?⟩

/-- `reorder_set_skb_list`, on the two pointers of the entry. It crashes where it writes the `next`
    of an MSDU that is not there. -/
def reorderSetSkbList (l c : Ends) : Option Ends :=
  if l.skbHead.isSome && l.skbLast.isNone then none
  else if c.skbLast.isNone then none
  else some ⟨l.skbHead.or c.skbHead, c.skbLast⟩

/-! ## The calls -/

/-- An MPDU that passes its check is given to the list. -/
def checkedCalls (l : List Checked) : List Ends :=
  (l.filter Checked.passed).map fun c => .of c.pkt.skb

/-- The calls of `reorder_msdu_process`: an inactive session gives what it has to the list, without
    a check. -/
def reorderMsduProcessCalls (m : RxMsduDesc) (skb : Option Skb) (n : RxBaNode) : List Ends :=
  if n.active then checkedCalls (reorderActiveChecks m skb n) else [⟨skb, skb⟩]

/-- The calls in a step of a session. -/
def nodeCalls (n : RxBaNode) : NodeEvent → List Ends
  | .msdu skb => reorderMsduProcessCalls skb.desc (some skb) n
  | .filter seqNum => reorderMsduProcessCalls (filterDesc seqNum) none n
  | .timeout => checkedCalls (nodeChecks n .timeout)

namespace Entry

variable (e : Entry)

/-- The calls on the node found, if any. -/
def onNodeCalls (staLutIndex : Fin (2 ^ 8)) (tid : ℕ) (absent : List Ends)
    (f : RxBaNode → List Ends) : List Ends :=
  match e.findBaNode staLutIndex tid with
  | none => absent
  | some k => (e.hlist k).elim [] f

/-- The calls of `reorder_set_skb_list` in a step of the entry. -/
def calls : EntryEvent → List Ends
  | .data skb =>
    if !skb.desc.bcMcFlag && skb.desc.qosFlag then
      e.onNodeCalls skb.staLutIndex skb.desc.tid [⟨some skb, some skb⟩] (nodeCalls · (.msdu skb))
    else [⟨some skb, some skb⟩]
  | .filter staLutIndex tid seqNum =>
    e.onNodeCalls staLutIndex tid [] (nodeCalls · (.filter seqNum))
  | .timeout k => (e.hlist k).elim [] (nodeCalls · .timeout)
  | .delba staLutIndex tid =>
    e.onNodeCalls staLutIndex tid [] fun n => checkedCalls (endSessionChecks true n)
  -- The sessions of a peer that goes away are not drained.
  | .peerDelba _ | .addba _ | .activate _ _ | .resetPn _ | .fetch => []

/-- The pointers of the entry after a step. -/
def setEnds (l : Ends) : EntryEvent → Option Ends
  | .fetch => some ⟨none, none⟩
  | ev => (e.calls ev).foldlM reorderSetSkbList l

/-- The list is given MSDUs only, and has a last one after the step if it has a first one: it is
    the last one of the list. -/
structure SetsSound (l : Ends) (ev : EntryEvent) : Prop where
  calls : ∀ c ∈ e.calls ev, c.skbHead.isSome ∧ c.skbLast.isSome
  ends : ∃ l', e.setEnds l ev = some l' ∧ (l'.skbHead.isSome → l'.skbLast.isSome) ∧
    ∀ e', entry.step e ev = some e' → l' = .of e'.skbList

/-- A filter event finds a session that is not active. -/
def FiltersInactive : EntryEvent → Prop
  | .filter staLutIndex tid _ =>
    ((e.findBaNode staLutIndex tid).bind e.hlist).any (!·.active) = true
  | _ => False

instance : DecidablePred e.FiltersInactive
  | .filter _ _ _ => inferInstanceAs (Decidable (_ = true))
  | .data _ | .timeout _ | .addba _ | .activate _ _ | .delba _ _ | .peerDelba _ | .resetPn _
  | .fetch => .isFalse id

variable {e} in
theorem filtersInactive_iff {staLutIndex tid : Fin (2 ^ 8)} {seqNum : ℕ} :
    e.FiltersInactive (.filter staLutIndex tid seqNum) ↔
      ∃ k n, e.findBaNode staLutIndex tid = some k ∧ e.hlist k = some n ∧ n.active = false := by
  rw [FiltersInactive, Option.any_eq_true]
  simp only [Option.bind_eq_some_iff, Bool.not_eq_true']
  exact ⟨fun ⟨n, ⟨k, hfind, hn⟩, hact⟩ => ⟨k, n, hfind, hn, hact⟩,
    fun ⟨k, n, hfind, hn, hact⟩ => ⟨n, ⟨k, hfind, hn⟩, hact⟩⟩

end Entry

/-! ## Chains that are linked to the list -/

/-- Calls that link some MSDUs to the list, whatever is in it. -/
structure Links (cs : List Ends) (up : List Skb) : Prop where
  full : ∀ c ∈ cs, c.skbHead.isSome ∧ c.skbLast.isSome
  linked : ∀ l : List Skb, cs.foldlM reorderSetSkbList (.of l) = some (.of (l ++ up))

section

variable {cs cs' : List Ends} {up up' : List Skb}

theorem Ends.of_tailed (l : List Skb) :
    (Ends.of l).skbHead.isSome → (Ends.of l).skbLast.isSome := by
  cases l with
  | nil => exact id
  | cons skb l => exact fun _ => by rw [Ends.of, List.getLast?_cons]; rfl

theorem Links.nil : Links [] [] :=
  ⟨fun _ hc => absurd hc List.not_mem_nil, fun l => by rw [List.append_nil, List.foldlM_nil]; rfl⟩

theorem Links.append (h : Links cs up) (h' : Links cs' up') : Links (cs ++ cs') (up ++ up') := by
  refine ⟨fun c hc => (List.mem_append.1 hc).elim (h.full c) (h'.full c), fun l => ?_⟩
  rw [List.foldlM_append, h.linked, Option.bind_eq_bind, Option.bind_some, h'.linked,
    List.append_assoc]

/-- A chain of MSDUs is linked. -/
theorem Links.chain (hne : up ≠ []) : Links [.of up] up := by
  obtain ⟨skb, hhead⟩ := Option.isSome_iff_exists.1 (List.isSome_head?.2 hne)
  obtain ⟨last, hlast⟩ := Option.isSome_iff_exists.1 (List.getLast?_isSome.2 hne)
  refine ⟨fun c hc => ?_, fun l => ?_⟩
  · rw [List.mem_singleton.1 hc, Ends.of, hhead, hlast]
    exact ⟨rfl, rfl⟩
  · have hcall : reorderSetSkbList (.of l) (.of up) = some (.of (l ++ up)) := by
      have htail : ¬((Ends.of l).skbHead.isSome && (Ends.of l).skbLast.isNone) = true := by
        rw [Bool.and_eq_true, Option.isNone_iff_eq_none, not_and]
        intro hsome hnone
        exact absurd (Ends.of_tailed l hsome) (by rw [hnone]; exact Bool.false_ne_true)
      rw [reorderSetSkbList, if_neg htail,
        if_neg (by rw [Ends.of, hlast]; exact Bool.false_ne_true), Ends.of, Ends.of, Ends.of,
        List.head?_append, List.getLast?_append, hlast, Option.some_or]
    rw [List.foldlM_cons, hcall]
    rfl

/-- The MPDUs that pass are linked, since a check is made of one with MSDUs only. -/
theorem Checks.links {d d' : RxBaNodeDesc} {l : List Checked} (h : Checks d d' l) :
    Links (checkedCalls l) (handedUp l) := by
  induction h with
  | keep h => exact .nil
  | @check d d' pkt hne h =>
    rw [checkedCalls, handedUp, List.flatMap_singleton, Checked.up]
    by_cases hok : (Reorder.check pkt d).passed = true
    · rw [List.filter_cons_of_pos hok, if_pos hok]
      exact .chain hne
    · rw [List.filter_cons_of_neg hok, if_neg hok]
      exact .nil
  | @trans d d' d'' l l' _ _ ih ih' =>
    rw [checkedCalls, handedUp, List.filter_append, List.map_append, List.flatMap_append]
    exact ih.append ih'

/-! ## What a step of a session links -/

/-- A session links what it hands up, unless it is inactive and has no MSDU. -/
theorem nodeCalls_links (n : RxBaNode) (ev : NodeEvent)
    (hev : n.active = true ∨ ∀ seqNum, ev ≠ .filter seqNum) :
    ∃ up, Links (nodeCalls n ev) up ∧ ∀ r, nodeStep n ev = some r → r.2.up = up := by
  -- In an active session, what is linked and handed up are the MSDUs that were checked.
  have hprocess (m : RxMsduDesc) (skb : Option Skb) (hact : n.active = true) :
      Links (reorderMsduProcessCalls m skb n) (handedUp (reorderActiveChecks m skb n)) := by
    rw [reorderMsduProcessCalls, if_pos hact]
    exact (reorderActive_passes m skb n).checks.links
  have hup (m : RxMsduDesc) (skb : Option Skb) (hact : n.active = true) (r : RxBaNode × Out)
      (hr : reorderMsduProcess m skb n = some r) :
      r.2.up = handedUp (reorderActiveChecks m skb n) := by
    unfold reorderMsduProcess at hr
    rw [if_pos hact] at hr
    obtain ⟨-, hr⟩ := Option.ite_none_left_eq_some.1 hr
    rw [← Option.some.inj hr]
    exact (reorderActive_passes m skb n).up
  cases ev with
  | msdu skb =>
    cases hact : n.active with
    | true => exact ⟨_, hprocess _ _ hact, hup _ _ hact⟩
    -- Without a session, the MSDU is handed up alone.
    | false =>
      refine ⟨[skb], ?_, fun r hr => ?_⟩
      · rw [nodeCalls, reorderMsduProcessCalls, if_neg (Bool.eq_false_iff.1 hact)]
        exact .chain (List.cons_ne_nil skb [])
      · rw [nodeStep, reorderMsduProcess, if_neg (Bool.eq_false_iff.1 hact)] at hr
        rw [← Option.some.inj hr]
  | filter seqNum =>
    have hact := hev.resolve_right fun h => h seqNum rfl
    exact ⟨_, hprocess _ _ hact, hup _ _ hact⟩
  -- The timer has its own checks.
  | timeout =>
    refine ⟨handedUp (nodeChecks n .timeout), ?_, fun r hr => (nodeStep_passes (.inr rfl) hr).up⟩
    rw [nodeCalls, nodeChecks]
    split_ifs
    · exact (baReorderTimeout_passes { n with timerPending := false }).checks.links
    · exact .nil

end

/-! ## What a step of the entry links -/

section

variable {e e' : Entry}

/-- On a node that is found, the calls are those of the node. -/
theorem onNodeCalls_links (e absent : Entry) (staLutIndex : Fin (2 ^ 8)) (tid : ℕ)
    {cs : List Ends} {up : List Skb} {calls : RxBaNode → List Ends}
    {f : RxBaNode → Option (RxBaNode × Out)} (hcs : Links cs up)
    (habsent : absent.skbList = e.skbList ++ up)
    (hnode : ∀ k n, e.findBaNode staLutIndex tid = some k → e.hlist k = some n →
      ∃ up, Links (calls n) up ∧ ∀ r, f n = some r → r.2.up = up) :
    ∃ up, Links (e.onNodeCalls staLutIndex tid cs calls) up ∧
      ∀ e', e.onNode staLutIndex tid absent f = some e' → e'.skbList = e.skbList ++ up := by
  unfold Entry.onNodeCalls Entry.onNode
  cases hfind : e.findBaNode staLutIndex tid with
  | none => exact ⟨up, hcs, fun e' he' => Option.some.inj he' ▸ habsent⟩
  | some k =>
    dsimp only
    cases hn : e.hlist k with
    | none => exact ⟨[], .nil, fun e' he' => absurd he' (by simp)⟩
    | some n =>
      obtain ⟨up, hlinks, hup⟩ := hnode k n hfind hn
      refine ⟨up, hlinks, fun e' he' => ?_⟩
      obtain ⟨r, hr, rfl⟩ := Option.map_eq_some_iff.1 he'
      rw [← hup r hr]
      rfl

/-- Ending a session hands up what it drains. -/
theorem freeBaNode_skbList {drain : Bool} {staLutIndex : Fin (2 ^ 8)} {tid : ℕ}
    (h : freeBaNode drain e staLutIndex tid = some e') :
    e'.skbList = e.skbList ++
      match e.findBaNode staLutIndex tid with
      | none => []
      | some k => (e.hlist k).elim [] fun n => handedUp (endSessionChecks drain n) := by
  rcases freeBaNode_cases h with ⟨hfind, rfl⟩ | ⟨k, n, hfind, hn, -, rfl⟩
  · rw [hfind, List.append_nil]
  · rw [hfind]
    dsimp only
    rw [hn, Option.elim_some, ← (endSession_passes drain n).up]
    rfl

theorem peerEntryDelba_skbList {lutIndex : Fin (2 ^ 8)} (h : peerEntryDelba e lutIndex = some e') :
    e'.skbList = e.skbList := by
  refine foldlM_invariant (I := fun s : Entry => s.skbList = e.skbList)
    (fun s tid s' hs hstep => ?_) rfl h
  rw [freeBaNode_skbList hstep, hs]
  -- A session that is not drained hands nothing up.
  have hnone (n : RxBaNode) : handedUp (endSessionChecks false n) = [] := by
    rw [endSessionChecks, if_neg fun h => Bool.false_ne_true h.2]
    rfl
  split
  · exact List.append_nil _
  · rename_i k _
    cases s.hlist k with
    | none => exact List.append_nil _
    | some n => rw [Option.elim_some, hnone, List.append_nil]

theorem onNode_skbList {staLutIndex : Fin (2 ^ 8)} {tid : ℕ} {f : RxBaNode → RxBaNode}
    (h : e.onNode staLutIndex tid e (fun n => some (f n, {})) = some e') :
    e'.skbList = e.skbList := by
  rcases Entry.onNode_eq_some h with ⟨-, rfl⟩ | ⟨k, n, r, -, -, hr, rfl⟩
  · rfl
  · rw [← Option.some.inj hr]
    exact List.append_nil _

/-- A step links what it adds to the list, unless it filters an inactive session. -/
theorem calls_links {ev : EntryEvent} (hev : ¬e.FiltersInactive ev) :
    ∃ up, Links (e.calls ev) up ∧
      ∀ e', entry.step e ev = some e' → ev ≠ .fetch → e'.skbList = e.skbList ++ up := by
  cases ev with
  | data skb =>
    -- What is handed on at once is a list of its own.
    have hskb : Links [⟨some skb, some skb⟩] [skb] := .chain (List.cons_ne_nil skb [])
    rw [Entry.calls]
    change ∃ up, Links _ up ∧ ∀ e', reorderDataProcess e skb = some e' → _ → _
    unfold reorderDataProcess
    dsimp only
    split_ifs
    · obtain ⟨up, hlinks, hup⟩ := onNodeCalls_links { e with handed := e.handed ++ [skb] }
        ({ e with handed := e.handed ++ [skb] }.emit { up := [skb] }) skb.staLutIndex skb.desc.tid
        hskb rfl fun _ n _ _ => nodeCalls_links n (.msdu skb) (.inr fun _ => by simp)
      exact ⟨up, hlinks, fun e' he' _ => hup e' he'⟩
    · exact ⟨[skb], hskb, fun e' he' _ => Option.some.inj he' ▸ rfl⟩
  | filter staLutIndex tid seqNum =>
    obtain ⟨up, hlinks, hup⟩ := onNodeCalls_links e e staLutIndex tid .nil
      (List.append_nil _).symm fun k n hfind hn =>
        nodeCalls_links n (.filter seqNum) <| .inl <| by
          by_contra hact
          exact hev (Entry.filtersInactive_iff.2 ⟨k, n, hfind, hn, Bool.eq_false_iff.2 hact⟩)
    exact ⟨up, hlinks, fun e' he' _ => hup e' he'⟩
  | timeout k =>
    rw [Entry.calls]
    change ∃ up, Links _ up ∧ ∀ e', e.timeout k = some e' → _ → _
    unfold Entry.timeout
    cases hn : e.hlist k with
    | none => exact ⟨[], .nil, fun e' he' _ => Option.some.inj he' ▸ (List.append_nil _).symm⟩
    | some n =>
      obtain ⟨up, hlinks, hup⟩ := nodeCalls_links n .timeout (.inr fun _ => by simp)
      refine ⟨up, hlinks, fun e' he' _ => ?_⟩
      obtain ⟨r, hr, rfl⟩ := Option.map_eq_some_iff.1 he'
      rw [← hup r hr]
      rfl
  | delba staLutIndex tid =>
    refine ⟨_, ?_, fun e' he' _ => freeBaNode_skbList he'⟩
    rw [Entry.calls, Entry.onNodeCalls]
    split
    · exact .nil
    · rename_i k _
      cases e.hlist k with
      | none => exact .nil
      | some n => exact (endSession_passes true n).checks.links
  | addba b =>
    refine ⟨[], .nil, fun e' he' _ => ?_⟩
    obtain ⟨⟨e'', ret⟩, hb, rfl⟩ := Option.map_eq_some_iff.1 he'
    rw [List.append_nil]
    rcases wlanAddbaEvent_cases hb with ⟨k, n, -, -, -, rfl⟩ | ⟨-, rfl⟩ | ⟨k, -, -, -, rfl⟩
    · rfl
    · rfl
    · rfl
  | activate staLutIndex tid =>
    exact ⟨[], .nil, fun e' he' _ => (onNode_skbList he').trans (List.append_nil _).symm⟩
  | peerDelba lutIndex =>
    exact ⟨[], .nil, fun e' he' _ => (peerEntryDelba_skbList he').trans (List.append_nil _).symm⟩
  | resetPn lutId =>
    refine ⟨[], .nil, fun e' he' _ => ?_⟩
    rw [List.append_nil]
    exact foldlM_invariant (I := fun s : Entry => s.skbList = e.skbList)
      (fun s tid s' hs hstep => (onNode_skbList hstep).trans hs) rfl he'
  | fetch => exact ⟨[], .nil, fun _ _ hne => absurd rfl hne⟩

/-! ## The list along a run -/

/-- The pointers of the entry after a step are the ends of its list. -/
theorem setEnds_of {ev : EntryEvent} (hev : ¬e.FiltersInactive ev) :
    ∃ l : List Skb, e.setEnds (.of e.skbList) ev = some (.of l) ∧
      ∀ e', entry.step e ev = some e' → e'.skbList = l := by
  obtain ⟨up, hlinks, hup⟩ := calls_links hev
  by_cases hfetch : ev = .fetch
  · subst hfetch
    exact ⟨[], rfl, fun e' he' => Option.some.inj he' ▸ rfl⟩
  · refine ⟨e.skbList ++ up, ?_, fun e' he' => hup e' he' hfetch⟩
    rw [← hlinks.linked]
    cases ev with
    | fetch => exact absurd rfl hfetch
    | _ => rfl

/-- A filter event of an inactive session gives the list a null pointer. -/
theorem calls_filtersInactive {ev : EntryEvent} (hev : e.FiltersInactive ev) :
    e.calls ev = [⟨none, none⟩] ∧ entry.step e ev = none := by
  cases ev with
  | filter staLutIndex tid seqNum =>
    obtain ⟨k, n, hfind, hn, hact⟩ := Entry.filtersInactive_iff.1 hev
    have hno := Bool.eq_false_iff.1 hact
    refine ⟨?_, ?_⟩
    · rw [Entry.calls, Entry.onNodeCalls, hfind]
      dsimp only
      rw [hn, Option.elim_some, nodeCalls, reorderMsduProcessCalls, if_neg hno]
    · change wlanFilterEvent e staLutIndex tid seqNum = none
      rw [wlanFilterEvent, Entry.onNode, hfind]
      dsimp only
      rw [hn]
      dsimp only
      rw [nodeStep, reorderMsduProcess, if_neg hno, Option.map_none]
  | _ => exact hev.elim

/-- The entry with the two pointers of the driver. -/
def entryEnds : Machine (Entry × Ends) EntryEvent where
  step s ev := (entry.step s.1 ev).bind fun e => (s.1.setEnds s.2 ev).map fun l => (e, l)

/-- Along every run, the two pointers of the driver are the ends of the list. -/
theorem entryEnds_run {es : List EntryEvent} (h : entry.run Entry.init es = some e) :
    entryEnds.run (Entry.init, ⟨none, none⟩) es = some (e, .of e.skbList) := by
  refine Machine.invariant_history (m := entry) (G := fun _ _ => True)
    (I := fun es e => entryEnds.run (Entry.init, ⟨none, none⟩) es = some (e, .of e.skbList))
    (fun es e ev e' hI _ hstep => Machine.run_concat hI ?_) rfl Machine.along_true h
  have hev : ¬e.FiltersInactive ev := fun hev =>
    absurd ((calls_filtersInactive hev).2.symm.trans hstep) (by simp)
  obtain ⟨l, hset, hl⟩ := setEnds_of hev
  change (entry.step e ev).bind _ = _
  rw [hstep, Option.bind_some, hset, Option.map_some, hl e' hstep]

/-- In every state that is reached, a step gives the list no null pointer, and leaves its tail
    valid, unless it filters a session that is not active. -/
theorem setsSound_iff {es : List EntryEvent} (h : entry.run Entry.init es = some e)
    (ev : EntryEvent) :
    (∃ l, entryEnds.run (Entry.init, ⟨none, none⟩) es = some (e, l) ∧ e.SetsSound l ev) ↔
      ¬e.FiltersInactive ev := by
  refine ⟨fun ⟨l, _, hsound⟩ hev => ?_, fun hev => ⟨_, entryEnds_run h, ?_⟩⟩
  · have hcall := hsound.calls ⟨none, none⟩
      ((calls_filtersInactive hev).1 ▸ List.mem_singleton_self _)
    exact Bool.false_ne_true hcall.1
  · obtain ⟨l, hset, hl⟩ := setEnds_of hev
    obtain ⟨up, hlinks, -⟩ := calls_links hev
    exact ⟨hlinks.full, .of l, hset, Ends.of_tailed l, fun e' he' => by rw [hl e' he']⟩

end

/-- A filter event of a session that was activated. -/
theorem setsSound_activated :
    ∃ e, entry.run Entry.init [.addba ⟨0, 0, 0, 64, true⟩, .activate 0 0] = some e ∧
      ∃ l, entryEnds.run (Entry.init, ⟨none, none⟩) [.addba ⟨0, 0, 0, 64, true⟩, .activate 0 0] =
        some (e, l) ∧ e.SetsSound l (.filter 0 0 0) := by
  obtain ⟨e, hrun, hev⟩ : ∃ e,
      entry.run Entry.init [.addba ⟨0, 0, 0, 64, true⟩, .activate 0 0] = some e ∧
        ¬e.FiltersInactive (.filter 0 0 0) := Machine.exists_run (by decide)
  exact ⟨e, hrun, (setsSound_iff hrun _).2 hev⟩

/-- A filter event between the ADDBA and the activation of its session. -/
theorem not_setsSound : ¬∀ (es : List EntryEvent) (e : Entry) (ev : EntryEvent),
    entry.run Entry.init es = some e → ∀ c ∈ e.calls ev, c.skbHead.isSome ∧ c.skbLast.isSome :=
  fun h => absurd (h [.addba ⟨0, 0, 0, 64, true⟩] _ (.filter 0 0 0) rfl ⟨none, none⟩
    (List.mem_singleton_self _)).1 Bool.false_ne_true

end W132d.Reorder
