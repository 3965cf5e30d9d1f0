import W132d.Defrag.Basic

/-!
# What a reassembled frame is made of

* `Collected`: the fragments of a frame in progress are numbered from `0` on and of one frame;
* `Alive`: a further fragment is given to a node that has fragments queued. The driver looks
  at the numbers the node was left with only, which are there in a zeroed node, and after the
  frame is complete or its memory could not be had;
* `defrag_sound`: if this never happens, a reassembled frame is made of all its fragments;
* `not_defrag_sound`: otherwise it may be made of the last one alone.
-/

namespace W132d.Defrag

variable {received frags : List Skb} {d : Skb} {list list' pre post : List Node} {node : Node}
  {e : Event} {out : Option Skb}

/-! ## The fragments of a frame -/

/-- The length of a frame of these fragments, as the driver adds it up. -/
def frameLen : List Skb → ℕ
  | [] => 0
  | first :: rest =>
    (first :: rest).foldl (fun n f => (n + fragLen f) % 2 ^ 32)
      (headerLen first + msduOffset first)

theorem frameLen_concat (h : frags ≠ []) :
    frameLen (frags ++ [d]) = (frameLen frags + fragLen d) % 2 ^ 32 := by
  cases frags with
  | nil => exact absurd rfl h
  | cons f frags =>
    rw [List.cons_append, frameLen, frameLen, ← List.cons_append, List.foldl_append,
      List.foldl_cons, List.foldl_nil]

/-- The fragments, received in this order, are those numbered `0` to `lastFragNum` of the
    frame that the node is for. -/
structure Collected (received frags : List Skb) (node : Node) : Prop where
  sublist : frags.Sublist received
  map_fragNum : frags.map fragNum = List.range (node.lastFragNum + 1)
  same : ∀ f ∈ frags, staLutIndex f = node.staLutIndex ∧ tid f = node.tid ∧
    seqNum f = node.seqNum
  len : node.msduLen = frameLen frags

/-- The nodes that have fragments queued are for incomplete frames. -/
def InProgress (received : List Skb) (list : List Node) : Prop :=
  ∀ node ∈ list, node.skbList ≠ [] →
    Collected received node.skbList node ∧ ∀ f ∈ node.skbList, moreFragBit f

theorem Collected.mono (h : Collected received frags node) :
    Collected (received ++ [d]) frags node :=
  { h with sublist := h.sublist.trans (List.sublist_append_left ..) }

theorem InProgress.mono (h : InProgress received list) : InProgress (received ++ [d]) list :=
  fun node hn hq => ⟨(h node hn hq).1.mono, (h node hn hq).2⟩

theorem InProgress.append (hpre : InProgress received pre) (hpost : InProgress received post) :
    InProgress received (pre ++ post) :=
  fun node hn => (List.mem_append.1 hn).elim (hpre node) (hpost node)

theorem InProgress.of_subset (h : InProgress received list) (hsub : list' ⊆ list) :
    InProgress received list' :=
  fun node hn => h node (hsub hn)

/-- The first fragment of a frame. -/
theorem collected_first (hd : fragNum d = 0) :
    Collected (received ++ [d]) [d] ((initFirstFragNode d).queue d) where
  sublist := List.sublist_append_right ..
  map_fragNum := by simp [Node.queue, initFirstFragNode, hd]
  same f hf := by
    rw [List.mem_singleton] at hf
    subst hf
    exact ⟨rfl, rfl, rfl⟩
  len := rfl

/-- A node for the first fragment of a frame. -/
theorem InProgress.first (h : InProgress (received ++ [d]) list) (hd : fragNum d = 0)
    (hmore : moreFragBit d) :
    InProgress (received ++ [d]) ((initFirstFragNode d).queue d :: list) :=
  List.forall_mem_cons.2
    ⟨fun _ => ⟨collected_first hd, fun _ hf => List.mem_singleton.1 hf ▸ hmore⟩, h⟩

/-- A further fragment of the frame that a node is for. -/
theorem Collected.concat (h : Collected received frags node) (hq : frags ≠ [])
    (hof : node.isOf d) (hseq : node.seqNum = seqNum d)
    (hnum : node.lastFragNum + 1 = fragNum d) :
    Collected (received ++ [d]) (frags ++ [d])
      (node.further d) where
  sublist := List.Sublist.append h.sublist (List.Sublist.refl _)
  map_fragNum := by
    have hrange : List.range (fragNum d + 1) = List.range (fragNum d) ++ [fragNum d] :=
      List.range_succ
    rw [List.map_append, h.map_fragNum, hnum, Node.further, Node.queue, hrange, List.map_singleton]
  same f hf := by
    rw [Node.isOf, Bool.and_eq_true, decide_eq_true_eq, decide_eq_true_eq] at hof
    rcases List.mem_append.1 hf with hf | hf
    · exact h.same f hf
    · rw [List.mem_singleton] at hf
      subst hf
      exact ⟨hof.1.symm, hof.2.symm, hseq.symm⟩
  len := by rw [frameLen_concat hq, ← h.len]; rfl

/-! ## The steps -/

/-- A further fragment that a node matches by its numbers is given to one that has fragments
    queued. -/
def Alive (list : List Node) (e : Event) : Prop :=
  fragNum e.pskb ≠ 0 → ∀ node ∈ list.find? (Node.isOf e.pskb),
    node.seqNum = seqNum e.pskb → node.lastFragNum + 1 = fragNum e.pskb → node.skbList ≠ []

instance : Decidable (Alive list e) :=
  inferInstanceAs (Decidable (fragNum e.pskb ≠ 0 →
    ∀ node ∈ list.find? (Node.isOf e.pskb), node.seqNum = seqNum e.pskb →
      node.lastFragNum + 1 = fragNum e.pskb → node.skbList ≠ []))

/-- The node for a further fragment, which has all the fragments before it. -/
theorem InProgress.collected {old : Node} (hI : InProgress received list) (hG : Alive list e)
    (hnum : fragNum e.pskb ≠ 0) (hpick : pick (Node.isOf e.pskb) list = some (pre, old, post))
    (hseq : old.seqNum = seqNum e.pskb) (hlast : old.lastFragNum + 1 = fragNum e.pskb) :
    Collected (received ++ [e.pskb]) (old.skbList ++ [e.pskb])
        (old.further e.pskb) ∧
      ∀ f ∈ old.skbList, moreFragBit f := by
  have hq : old.skbList ≠ [] := hG hnum old (find?_of_pick hpick) hseq hlast
  obtain ⟨hlist, hof, _⟩ := pick_eq_some.1 hpick
  obtain ⟨hc, hmore⟩ := hI old (by simp [hlist]) hq
  exact ⟨hc.concat hq hof hseq hlast, hmore⟩

/-- A step keeps the frames in progress so. -/
theorem InProgress.step (hI : InProgress received list) (hG : Alive list e)
    (h : Step e.pskb e.alloc list list' out) : InProgress (received ++ [e.pskb]) list' := by
  cases h with
  | single h => exact hI.mono
  | drop h => exact hI.mono
  | replace hnum hmore hpick hseq =>
    have hrest := (hI.of_subset (pick_subset hpick)).mono (d := e.pskb)
    exact hrest.first hnum hmore
  | oldest hnum hmore hpick =>
    have hrest := (hI.of_subset fun _ => List.mem_of_mem_dropLast).mono (d := e.pskb)
    exact hrest.first hnum hmore
  | further hnum hmore hpick hseq hlast =>
    obtain ⟨hc, hbits⟩ := hI.collected hG hnum hpick hseq hlast
    have hrest := (hI.of_subset (pick_subset hpick)).mono (d := e.pskb)
    intro n hn hq
    rcases List.mem_append.1 hn with hn | hn
    · exact hrest n (List.mem_append_left _ hn) hq
    · rcases List.mem_cons.1 hn with rfl | hn
      · exact ⟨hc, List.forall_mem_append.2 ⟨hbits, by simpa using hmore⟩⟩
      · exact hrest n (List.mem_append_right _ hn) hq
  | last hnum hmore hpick hseq hlast =>
    -- The queue of the node is empty now.
    have hrest := (hI.of_subset (pick_subset hpick)).mono (d := e.pskb)
    refine hrest.append fun n hn hq => ?_
    rw [List.mem_singleton] at hn
    subst hn
    exact absurd rfl hq

/-- After any frames, along `Alive`, the nodes are for frames in progress. -/
theorem inProgress_of_run {es : List Event} (hG : machine.Along Alive sprdwlDefragInit es)
    (hrun : machine.run sprdwlDefragInit es = some list) :
    InProgress (es.map Event.pskb) list := by
  refine Machine.invariant_history (I := fun es list => InProgress (es.map Event.pskb) list)
    (fun es s e s' hI he hstep => ?_) ?_ hG hrun
  · rw [List.map_append, ← Option.some.inj hstep]
    exact hI.step he (step_defragDataProcess ..)
  · intro node hn hq
    rw [sprdwlDefragInit] at hn
    rw [List.eq_of_mem_replicate hn] at hq
    exact absurd rfl hq

/-! ## The frames -/

/-- `frame` is made of received fragments of one frame, which are numbered from `0` on in the
    order in which they were received, and of which only the last one is not followed by more. -/
def MadeOfAll (received : List Skb) (frame : Skb) : Prop :=
  ∃ frags lut t seq, frags.Sublist received ∧
    frags ≠ [] ∧ frags.map fragNum = List.range frags.length ∧
    (∀ f ∈ frags, staLutIndex f = lut ∧ tid f = t ∧ seqNum f = seq) ∧
    (∀ f ∈ frags.dropLast, moreFragBit f) ∧ (∀ f ∈ frags.getLast?, moreFragBit f = false) ∧
    reassemble (frameLen frags) frags = some frame

/-- What completes a frame is its last fragment, and all the others are queued. -/
theorem InProgress.madeOfAll {frame : Skb} (hI : InProgress received list) (hG : Alive list e)
    (hfrag : isFragment e.pskb) (h : Step e.pskb e.alloc list list' (some frame)) :
    MadeOfAll (received ++ [e.pskb]) frame := by
  generalize hout : some frame = out at h
  cases h with
  | single h => exact absurd hfrag (by simp [h])
  | drop _ | replace | oldest | further => cases hout
  | last hnum hmore hpick hseq hlast =>
    obtain ⟨hc, hbits⟩ := hI.collected hG hnum hpick hseq hlast
    split_ifs at hout with halloc
    have hlen := congrArg List.length hc.map_fragNum
    rw [List.length_map, List.length_range] at hlen
    refine ⟨_, _, _, _, hc.sublist, by simp, ?_, hc.same, ?_, ?_, ?_⟩
    · rw [hc.map_fragNum, hlen]
    · rwa [List.dropLast_concat]
    · intro f hf
      rw [List.getLast?_concat, Option.mem_some_iff] at hf
      exact hf ▸ hmore
    · rw [← hc.len]
      exact hout.symm

/-- **Soundness of reassembly**, as long as further fragments are given to nodes that have
    fragments queued: a frame that is handed on when a fragment arrives is made of all its
    fragments. -/
theorem defrag_sound {es : List Event}
    (hG : machine.Along Alive sprdwlDefragInit (es ++ [e]))
    (hrun : machine.run sprdwlDefragInit es = some list) (hfrag : isFragment e.pskb)
    {frame : Skb} (hout : output list e = some frame) :
    MadeOfAll ((es ++ [e]).map Event.pskb) frame := by
  obtain ⟨hes, he⟩ := Machine.along_concat hrun hG
  rw [List.map_append]
  have hstep := step_defragDataProcess list e.pskb e.alloc
  rw [show (defragDataProcess list e.pskb e.alloc).2 = some frame from hout] at hstep
  exact (inProgress_of_run hes hrun).madeOfAll he hfrag hstep

/-- The bytes of a fragment of station `0` and TID `0`, with the sequence number `16 * seq`: the
    frame begins after the descriptor, and has a header of 12 bytes and four of payload. -/
def fixtureFragment (seq num : UInt8) (more : Bool) (payload : List UInt8) : Skb :=
  [0, 28, 16, 0, 0, 0, 0, 0, 0, 0, 0, 0, 0, 0, 0, seq, 0, 0, 0, 0, 0, 0,
    num + if more then 16 else 0, 0, 0, 0, 0, 0] ++ List.replicate 12 1 ++ payload

/-- A frame in two fragments. -/
theorem defrag_sound_fixture :
    ∃ list frame,
      machine.run sprdwlDefragInit [⟨fixtureFragment 1 0 true [1, 2, 3, 4], true⟩] = some list ∧
      output list ⟨fixtureFragment 1 1 false [5, 6, 7, 8], true⟩ = some frame ∧
      MadeOfAll
        [fixtureFragment 1 0 true [1, 2, 3, 4], fixtureFragment 1 1 false [5, 6, 7, 8]] frame := by
  have hG : machine.Along Alive sprdwlDefragInit
      ([⟨fixtureFragment 1 0 true [1, 2, 3, 4], true⟩] ++
        [⟨fixtureFragment 1 1 false [5, 6, 7, 8], true⟩]) := by decide +kernel
  exact ⟨_, _, rfl, rfl, defrag_sound hG rfl (by decide) rfl⟩

/-- The last fragment alone is handed on as a frame, if it is the first to arrive. -/
theorem not_defrag_sound :
    ¬∀ (es : List Event) (e : Event) (list : List Node) (frame : Skb),
      machine.run sprdwlDefragInit es = some list → isFragment e.pskb →
      output list e = some frame → MadeOfAll ((es ++ [e]).map Event.pskb) frame := by
  intro h
  obtain ⟨frags, _, _, _, hsub, hne, hnum, _⟩ := h [] ⟨fixtureFragment 0 1 false [5, 6, 7, 8], true⟩
    sprdwlDefragInit _ rfl (by decide) rfl
  -- Only the fragment with the number 1 has been received.
  obtain ⟨f, frags, rfl⟩ := List.exists_cons_of_ne_nil hne
  have hf : f ∈ [fixtureFragment 0 1 false [5, 6, 7, 8]] := hsub.subset List.mem_cons_self
  rw [List.mem_singleton] at hf
  rw [List.length_cons, List.range_succ_eq_map, List.map_cons, List.cons.injEq, hf] at hnum
  exact absurd hnum.1 (by decide)

end W132d.Defrag
