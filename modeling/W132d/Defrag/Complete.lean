import W132d.Defrag.Frame
import W132d.Reorder.Ring

/-!
# Frames that are put together

The fragments of a frame arrive in order, between any frames of at most two other pairs of a
station and a TID.

* `Held`: the node of the frame has all the fragments so far, and the nodes before it in the
  list are for different other pairs. So there are at most two of them, and it is not the
  oldest one when a node is needed for a pair that has none;
* `Refused`: a frame of station `0` and TID `0` finds the zeroed nodes, which look like those
  of a frame of its pair with the sequence number `0`. If its own number is not after that,
  then its first fragment is dropped, and no node ever queues it;
* `defrag_complete_iff`: so the frame is put together, unless that happens.

The list has three nodes, of which the oldest one is at the end. A first fragment takes the node of
its pair if there is one, and the oldest one otherwise, and moves it to the front; a node whose
frame is complete goes to the end. So the node of the frame moves back by one place at most for each
other pair, and as there are at most two of them, it is not the oldest one when a node is taken that
is not its own. This is what `Held` keeps; the fragments are queued in order, because each is
checked against the number of the last one.

How the theorem is proved: by induction on what is received, a frame is in its `Phase` (no node was
taken yet, or its node has queued what was received), and the last fragment puts it together. For
station `0` and TID `0`, the zeroed nodes of `init` look like nodes of the frame, and it is shown by
an induction of its own that they are never used, and never replaced by one of the frame, if the
sequence number is not after `0` (`Refused`).
-/

namespace W132d.Defrag

open Reorder (seqnoLeq)

variable {k q r : ℕ × ℕ} {seq : ℕ} {frags done : List Skb} {d : Skb} {e : Event}
  {es : List Event} {list list' pre post : List Node} {node : Node} {out : Option Skb}
  {alloc : Bool}

/-! ## The fragments -/

/-- The fragments of a frame of a station and TID. -/
structure Fragmented (k : ℕ × ℕ) (seq : ℕ) (frags : List Skb) : Prop where
  two_le : 2 ≤ frags.length
  le : frags.length ≤ 16
  key : ∀ f ∈ frags, keyOf f = k
  seqNum : ∀ f ∈ frags, seqNum f = seq
  fragNum : frags.map fragNum = List.range frags.length
  more : ∀ f ∈ frags.dropLast, moreFragBit f
  last : ∀ f ∈ frags.getLast?, moreFragBit f = false
  wellFormed : ∀ f ∈ frags, WellFormed f
  /-- Together they are no longer than what 16 bits, as the length of a frame has, can tell. -/
  len : (frags.map msduTotalLen).sum < 2 ^ 16

/-- The received frames of a station and TID. -/
def own (k : ℕ × ℕ) (es : List Event) : List Skb :=
  (es.map Event.pskb).filter fun d => keyOf d = k

/-- The fragments of a frame of `k` are received in order, the last one by the event `e`,
    between any frames of two other pairs `q` and `r`. -/
structure Fed (k q r : ℕ × ℕ) (frags : List Skb) (es : List Event) (e : Event) : Prop where
  received : own k (es ++ [e]) = frags
  last : keyOf e.pskb = k
  others : ∀ e' ∈ es, keyOf e'.pskb = k ∨ keyOf e'.pskb = q ∨ keyOf e'.pskb = r
  alloc : e.alloc

/-- A fragment with the key is one of its own. -/
theorem own_concat_of_eq (h : keyOf e.pskb = k) : own k (es ++ [e]) = own k es ++ [e.pskb] := by
  simp [own, h]

theorem own_concat_of_ne (h : keyOf e.pskb ≠ k) : own k (es ++ [e]) = own k es := by
  simp [own, h]

/-- A fragment has as its number how many come before it. -/
theorem Fragmented.fragNum_eq (hf : Fragmented k seq frags) {t : List Skb}
    (h : frags = done ++ d :: t) : Defrag.fragNum d = done.length := by
  have hnum := congrArg (fun l => l[done.length]?) hf.fragNum
  subst h
  simpa using hnum

/-! ## Fragments of the frame -/

/-- The node of the frame has queued the fragments `done`, and those before it are for
    different other pairs. -/
structure Held (k q r : ℕ × ℕ) (seq : ℕ) (done : List Skb) (list pre : List Node) (node : Node)
    (post : List Node) : Prop where
  list_eq : list = pre ++ node :: post
  length : list.length = maxDefragNum
  key : node.key = k
  seqNum : node.seqNum = seq
  lastFragNum : node.lastFragNum + 1 = done.length
  skbList : node.skbList = done
  msduLen : node.msduLen = frameLen done
  nodup : (pre.map Node.key).Nodup
  others : ∀ n ∈ pre, n.key ≠ k ∧ (n.key = q ∨ n.key = r)

/-- No node is for a frame of this station and TID, but zeroed nodes for station `0` and
    TID `0`. -/
structure Fresh (k : ℕ × ℕ) (list : List Node) : Prop where
  length : list.length = maxDefragNum
  zero : ∀ n ∈ list, n.key = k → k = (0, 0) ∧ n.seqNum = 0

/-- The frame is in progress with the fragments `done`. -/
def Phase (k q r : ℕ × ℕ) (seq : ℕ) (done : List Skb) (list : List Node) : Prop :=
  if done = [] then Fresh k list else ∃ pre node post, Held k q r seq done list pre node post

/-- The first fragment, which no zeroed node keeps out. -/
theorem Fresh.first (h : Fresh k list) (hkey : keyOf d = k) (hnum : fragNum d = 0)
    (hmore : moreFragBit d) (hseq : k ≠ (0, 0) ∨ seqnoLeq (seqNum d) 0 = false) :
    ∃ node post, Held k q r (seqNum d) [d] (defragDataProcess list d alloc).1 [] node post := by
  have hinit : ∃ post, post.length = 2 ∧
      getDefragNode d list = some ([], initFirstFragNode d, post) := by
    rw [getDefragNode, if_neg (not_not_intro hnum), initFirstDefragNode]
    split
    · rename_i pre old post hpick
      obtain ⟨hlist, hof, _⟩ := pick_eq_some.1 hpick
      have hzero := h.zero old (by simp [hlist]) ((isOf_iff.1 hof).trans hkey)
      rw [hzero.2, if_neg (by simpa using hseq.resolve_left (not_not_intro hzero.1))]
      refine ⟨_, ?_, rfl⟩
      have hlen := h.length
      simp only [hlist, List.length_append, List.length_cons, maxDefragNum] at hlen ⊢
      omega
    · exact ⟨_, by rw [List.length_dropLast, h.length]; rfl, rfl⟩
  obtain ⟨post, hlen, hget⟩ := hinit
  have hfrag : isFragment d = true := by simp [isFragment, hmore]
  refine ⟨(initFirstFragNode d).queue d, post, ?_⟩
  rw [defragDataProcess, if_pos hfrag, defragSingleDataProcess, hget]
  simp only [hmore, if_true]
  exact {
    list_eq := rfl
    length := by simp [hlen, maxDefragNum]
    key := hkey
    seqNum := rfl
    lastFragNum := by simp [Node.queue, initFirstFragNode, hnum]
    skbList := rfl
    msduLen := rfl
    nodup := List.nodup_nil
    others := fun n hn => absurd hn List.not_mem_nil }

/-- None of the nodes is of the pair. -/
theorem key_not_mem (h : ∀ n ∈ list, n.key ≠ keyOf d) : keyOf d ∉ list.map Node.key := by
  intro hmem
  obtain ⟨n, hn, hkey⟩ := List.mem_map.1 hmem
  exact h n hn hkey

/-- If no node is found, none has the key. -/
theorem key_ne_of_pick_eq_none (h : pick (Node.isOf d) list = none) :
    ∀ n ∈ list, n.key ≠ keyOf d :=
  fun n hn => isOf_eq_false_iff.1 (pick_eq_none.1 h n hn)

namespace Held

variable (h : Held k q r seq done list pre node post)

include h

/-- The frame is complete at some time. -/
theorem done_ne_nil : done ≠ [] := by
  intro hdone
  have hlast := h.lastFragNum
  rw [hdone] at hlast
  exact absurd hlast (Nat.succ_ne_zero _)

/-- The node is the one that is found. -/
theorem pick_eq (hkey : keyOf d = k) : pick (Node.isOf d) list = some (pre, node, post) := by
  rw [h.list_eq]
  refine pick_append (fun n hn => ?_) (isOf_iff.2 (h.key.trans hkey.symm))
  exact isOf_eq_false_iff.2 fun hn' => (h.others n hn).1 (hn'.trans hkey)

/-- What becomes of a further fragment. -/
theorem further_eq (hkey : keyOf d = k) (hseq : Defrag.seqNum d = seq)
    (hnum : fragNum d = done.length) :
    defragDataProcess list d alloc =
      if moreFragBit d then (pre ++ node.further d :: post, none)
      else (pre ++ post ++ [(node.further d).emptied],
        if alloc then reassemble (frameLen (done ++ [d])) (done ++ [d]) else none) := by
  have hpos : fragNum d ≠ 0 := by
    rw [hnum, ← h.lastFragNum]
    exact Nat.succ_ne_zero _
  have hfrag : isFragment d = true := by simp [isFragment, hpos]
  have hfind : findDefragNode d list =
      some (pre, { node with lastFragNum := fragNum d }, post) := by
    rw [findDefragNode, h.pick_eq hkey]
    exact if_pos ⟨h.seqNum.trans hseq.symm, h.lastFragNum.trans hnum.symm⟩
  rw [defragDataProcess, if_pos hfrag, defragSingleDataProcess, getDefragNode, if_pos hpos,
    hfind, frameLen_concat h.done_ne_nil]
  simp only [Node.further, Node.queue, h.skbList, h.msduLen]

/-- A further fragment is queued. -/
theorem further (hkey : keyOf d = k) (hseq : Defrag.seqNum d = seq)
    (hnum : fragNum d = done.length) (hmore : moreFragBit d) :
    Held k q r seq (done ++ [d]) (defragDataProcess list d alloc).1 pre
      (node.further d) post := by
  rw [h.further_eq hkey hseq hnum]
  simp only [hmore, if_true]
  have hlen := h.length
  rw [h.list_eq] at hlen
  exact {
    list_eq := rfl
    length := by simpa using hlen
    key := h.key
    seqNum := h.seqNum
    lastFragNum := by simp [Node.further, Node.queue, hnum]
    skbList := by rw [Node.further, Node.queue, h.skbList]
    msduLen := by rw [Node.further, Node.queue, h.msduLen, frameLen_concat h.done_ne_nil]
    nodup := h.nodup
    others := h.others }

/-! ## Frames of the other pairs -/

/-- The node stays as it is, and those before it are still for different other pairs. -/
theorem of_list_eq {pre' post' : List Node} (hlist : list' = pre' ++ node :: post')
    (hlen : list'.length = maxDefragNum) (hnodup : (pre'.map Node.key).Nodup)
    (hothers : ∀ n ∈ pre', n.key ≠ k ∧ (n.key = q ∨ n.key = r)) :
    Held k q r seq done list' pre' node post' :=
  { h with list_eq := hlist, length := hlen, nodup := hnodup, others := hothers }

/-- The nodes before it have other keys. -/
theorem key_not_mem_pre (hpick : pick (Node.isOf d) list = none) : keyOf d ∉ pre.map Node.key := by
  refine key_not_mem fun n hn => key_ne_of_pick_eq_none hpick n ?_
  rw [h.list_eq]
  exact List.mem_append_left _ hn

/-- There are at most two nodes before it, and only one if there is one for another pair. -/
theorem post_ne_nil (hq : keyOf d = q ∨ keyOf d = r) (hpick : pick (Node.isOf d) list = none) :
    post ≠ [] := by
  intro hpost
  have hlen := h.length
  rw [h.list_eq, hpost, List.length_append, List.length_singleton] at hlen
  -- The pairs are all those of `q` and `r` but one.
  have hnodup : (keyOf d :: pre.map Node.key).Nodup :=
    List.nodup_cons.2 ⟨h.key_not_mem_pre hpick, h.nodup⟩
  have hsub : keyOf d :: pre.map Node.key ⊆ [q, r] := by
    refine List.cons_subset.2 ⟨by simpa using hq, fun x hx => ?_⟩
    obtain ⟨n, hn, rfl⟩ := List.mem_map.1 hx
    simpa using (h.others n hn).2
  have hle := (hnodup.subperm hsub).length_le
  simp only [List.length_cons, List.length_map, List.length_nil, maxDefragNum] at hle hlen
  omega

/-- A frame of another pair does not touch the node. -/
theorem other (hkey : keyOf d ≠ k) (hq : keyOf d = q ∨ keyOf d = r)
    (hstep : Step d alloc list list' out) :
    ∃ pre' post', Held k q r seq done list' pre' node post' := by
  have hlist := h.list_eq
  have hlen := h.length
  have hlength := hstep.length_eq (by rw [hlist]; simp)
  rw [hlen] at hlength
  -- What is found is a node of the other pair, not this one.
  have hne : ∀ {pre' old post'}, pick (Node.isOf d) list = some (pre', old, post') →
      old.key = keyOf d ∧ old ≠ node ∧ list = pre' ++ old :: post' ∧
        ∀ n ∈ pre', n.key ≠ keyOf d := by
    intro pre' old post' hpick
    obtain ⟨hl, hof, hpre⟩ := pick_eq_some.1 hpick
    have hold := isOf_iff.1 hof
    refine ⟨hold, fun heq => ?_, hl, fun n hn => isOf_eq_false_iff.1 (hpre n hn)⟩
    exact hkey (hold.symm.trans (heq ▸ h.key))
  cases hstep with
  | single _ => exact ⟨pre, post, h⟩
  | drop _ => exact ⟨pre, post, h⟩
  | @replace pre' old post' hnum hmore hpick hseq =>
    obtain ⟨hold, hne, hl, hpre'⟩ := hne hpick
    rcases append_cons_cases (hl ▸ hlist) hne with ⟨m, rfl, rfl⟩ | ⟨m, rfl, rfl⟩
    · -- The older frame of the pair is before the node.
      refine ⟨(initFirstFragNode d).queue d :: (pre' ++ m), post,
        h.of_list_eq (by simp) hlength ?_ ?_⟩
      · have hperm : (((initFirstFragNode d).queue d :: (pre' ++ m)).map Node.key).Perm
            ((pre' ++ old :: m).map Node.key) := by
          simp only [List.map_cons, List.map_append, hold]
          exact List.perm_middle.symm
        exact hperm.nodup_iff.2 h.nodup
      · refine List.forall_mem_cons.2 ⟨⟨hkey, hq⟩, fun n hn => h.others n ?_⟩
        exact List.append_subset_of_subset_of_subset (List.subset_append_left ..)
          (List.subset_append_of_subset_right _ (List.subset_cons_self ..)) hn
    · refine ⟨(initFirstFragNode d).queue d :: pre, m ++ post',
        h.of_list_eq (by simp) hlength ?_ (List.forall_mem_cons.2 ⟨⟨hkey, hq⟩, h.others⟩)⟩
      have hnone := key_not_mem fun n hn => hpre' n (List.mem_append_left _ hn)
      exact List.nodup_cons.2 ⟨hnone, h.nodup⟩
  | oldest hnum hmore hpick =>
    have hpost := h.post_ne_nil hq hpick
    refine ⟨(initFirstFragNode d).queue d :: pre, post.dropLast,
      h.of_list_eq ?_ hlength ?_ (List.forall_mem_cons.2 ⟨⟨hkey, hq⟩, h.others⟩)⟩
    · rw [hlist, List.dropLast_append_cons, List.dropLast_cons_of_ne_nil hpost,
        List.cons_append]
    · exact List.nodup_cons.2 ⟨h.key_not_mem_pre hpick, h.nodup⟩
  | @further pre' old post' hnum hmore hpick hseq hlast =>
    obtain ⟨hold, hne, hl, _⟩ := hne hpick
    rcases append_cons_cases (hl ▸ hlist) hne with ⟨m, rfl, rfl⟩ | ⟨m, rfl, rfl⟩
    · refine ⟨pre' ++ old.further d :: m, post,
        h.of_list_eq (by simp) hlength ?_ ?_⟩
      · simpa [Node.key, Node.further, Node.queue] using h.nodup
      · have hothers := h.others
        simp only [List.forall_mem_append, List.forall_mem_cons] at hothers ⊢
        exact hothers
    · exact ⟨pre, m ++ old.further d :: post',
        h.of_list_eq (by simp) hlength h.nodup h.others⟩
  | @last pre' old post' hnum hmore hpick hseq hlast =>
    obtain ⟨hold, hne, hl, _⟩ := hne hpick
    rcases append_cons_cases (hl ▸ hlist) hne with ⟨m, rfl, rfl⟩ | ⟨m, rfl, rfl⟩
    · have hsub : (pre' ++ m).Sublist (pre' ++ old :: m) :=
        (List.Sublist.refl _).append (List.sublist_cons_self ..)
      exact ⟨pre' ++ m, post ++ [(old.further d).emptied], h.of_list_eq (by simp) hlength
        ((hsub.map _).nodup h.nodup) fun n hn => h.others n (hsub.subset hn)⟩
    · exact ⟨pre, m ++ post' ++ [(old.further d).emptied],
        h.of_list_eq (by simp) hlength h.nodup h.others⟩

end Held

/-! ## The frame that is put together -/

/-- A frame of another pair leaves the phase as it is. -/
theorem Phase.other (h : Phase k q r seq done list) (hkey : keyOf d ≠ k)
    (hq : keyOf d = q ∨ keyOf d = r) (hstep : Step d alloc list list' out) :
    Phase k q r seq done list' := by
  by_cases hdone : done = []
  · rw [Phase, if_pos hdone] at h ⊢
    have hne : list ≠ [] := by
      rintro rfl
      exact absurd h.length (by decide)
    refine ⟨(hstep.length_eq hne).trans h.length, fun n hn hn' => ?_⟩
    rcases hstep.mem_cases n hn with hn | hn
    · exact h.zero n hn hn'
    · exact absurd (hn.symm.trans hn') hkey
  · rw [Phase, if_neg hdone] at h ⊢
    obtain ⟨pre, node, post, h⟩ := h
    obtain ⟨pre', post', h⟩ := h.other hkey hq hstep
    exact ⟨pre', node, post', h⟩

/-- A fragment of the frame that is not the last one. -/
theorem Phase.own (h : Phase k q r seq done list) (hkey : keyOf d = k)
    (hseq : Defrag.seqNum d = seq) (hnum : fragNum d = done.length) (hmore : moreFragBit d)
    (hzero : k ≠ (0, 0) ∨ seqnoLeq seq 0 = false) :
    Phase k q r seq (done ++ [d]) (defragDataProcess list d alloc).1 := by
  rw [Phase, if_neg (by simp)]
  by_cases hdone : done = []
  · rw [Phase, if_pos hdone] at h
    subst hdone hseq
    obtain ⟨node, post, h⟩ := h.first hkey hnum hmore hzero
    exact ⟨[], node, post, h⟩
  · rw [Phase, if_neg hdone] at h
    obtain ⟨pre, node, post, h⟩ := h
    exact ⟨pre, _, post, h.further hkey hseq hnum hmore⟩

/-- While the fragments arrive, but for the last one. -/
theorem phase_of_run (hf : Fragmented k seq frags)
    (hzero : k ≠ (0, 0) ∨ seqnoLeq seq 0 = false)
    (hothers : ∀ e ∈ es, keyOf e.pskb = k ∨ keyOf e.pskb = q ∨ keyOf e.pskb = r)
    (hown : own k es <+: frags.dropLast)
    (hrun : machine.run sprdwlDefragInit es = some list) : Phase k q r seq (own k es) list := by
  revert hothers hown
  refine Machine.invariant_history
    (I := fun es list => (∀ e ∈ es, keyOf e.pskb = k ∨ keyOf e.pskb = q ∨ keyOf e.pskb = r) →
      own k es <+: frags.dropLast → Phase k q r seq (own k es) list)
    (fun es list e list' ih _ hstep hothers hown => ?_) (fun _ _ => ?_) Machine.along_true hrun
  · obtain rfl : (defragDataProcess list e.pskb e.alloc).1 = list' := Option.some.inj hstep
    have hes := fun e' he' => hothers e' (List.mem_append_left _ he')
    by_cases hkey : keyOf e.pskb = k
    · rw [own_concat_of_eq hkey] at hown ⊢
      obtain ⟨t, ht⟩ := hown
      have hlist : frags = own k es ++ e.pskb :: (t ++ frags.drop (frags.length - 1)) := by
        conv_lhs => rw [← List.take_append_drop (frags.length - 1) frags, ← List.dropLast_eq_take,
          ← ht]
        simp
      have hmem : e.pskb ∈ frags.dropLast := by simp [← ht]
      refine (ih hes ⟨e.pskb :: t, by simpa using ht⟩).own hkey
        (hf.seqNum _ (List.mem_of_mem_dropLast hmem)) (hf.fragNum_eq hlist)
        (hf.more _ hmem) hzero
    · rw [own_concat_of_ne hkey] at hown ⊢
      exact (ih hes hown).other hkey ((hothers e (by simp)).resolve_left hkey)
        (step_defragDataProcess ..)
  · -- The zeroed nodes.
    refine (if_pos (c := own k [] = []) rfl).mpr ⟨rfl, fun n hn hn' => ?_⟩
    rw [sprdwlDefragInit] at hn
    obtain rfl := List.eq_of_mem_replicate hn
    exact ⟨hn'.symm, rfl⟩

/-- The fragments that were fed are those of the frame. -/
theorem Fed.own_eq (h : Fed k q r frags es e) : own k es ++ [e.pskb] = frags := by
  rw [← own_concat_of_eq h.last, h.received]

/-- A frame that no zeroed node keeps out is put together. -/
theorem defrag_complete (hf : Fragmented k seq frags) (hfed : Fed k q r frags es e)
    (hzero : k ≠ (0, 0) ∨ seqnoLeq seq 0 = false)
    (hrun : machine.run sprdwlDefragInit es = some list) :
    output list e = some (frameOf frags) := by
  have hlist := hfed.own_eq
  have hdrop : own k es = frags.dropLast := by rw [← hlist, List.dropLast_concat]
  have hphase := phase_of_run hf hzero hfed.others (hdrop ▸ List.prefix_rfl) hrun
  have hne : own k es ≠ [] := by
    intro hnil
    have htwo := hf.two_le
    rw [← hlist, hnil] at htwo
    exact absurd htwo (by simp)
  rw [Phase, if_neg hne] at hphase
  obtain ⟨pre, node, post, h⟩ := hphase
  have hlast : moreFragBit e.pskb = false := hf.last _ (by rw [← hlist]; simp)
  have hmem : e.pskb ∈ frags := by rw [← hlist]; simp
  rw [output, h.further_eq hfed.last (hf.seqNum _ hmem) (hf.fragNum_eq (t := []) hlist.symm)]
  simp only [hlast, hfed.alloc, if_true, Bool.false_eq_true, if_false]
  rw [hlist]
  refine reassemble_frameLen (fun hnil => ?_) hf.wellFormed hf.len
  exact absurd (hnil ▸ hmem) List.not_mem_nil

/-! ## The frame that is refused -/

/-- The nodes of station `0` and TID `0` have the sequence number of a zeroed node, and no
    first fragment; and those of the other pairs are for different ones. -/
structure Refused (q r : ℕ × ℕ) (received : List Skb) (list : List Node) : Prop where
  length : list.length = maxDefragNum
  zero : ∀ n ∈ list, n.key = (0, 0) → n.seqNum = 0 ∧ n.skbList.Sublist received ∧
    ∀ f ∈ n.skbList, fragNum f ≠ 0
  others : ∀ x ∈ list.map Node.key, x = (0, 0) ∨ x = q ∨ x = r
  nodup : ((list.map Node.key).filter fun x => x ≠ (0, 0)).Nodup

namespace Refused

variable {received : List Skb}

/-- There are more nodes than other pairs. -/
theorem exists_key (h : Refused q r received list) : ∃ n ∈ list, n.key = (0, 0) := by
  by_contra hnone
  push Not at hnone
  have hfilter : (list.map Node.key).filter (fun x => x ≠ (0, 0)) = list.map Node.key := by
    rw [List.filter_eq_self]
    intro x hx
    obtain ⟨n, hn, rfl⟩ := List.mem_map.1 hx
    simpa using hnone n hn
  have hsub : list.map Node.key ⊆ [q, r] := by
    intro x hx
    obtain ⟨n, hn, rfl⟩ := List.mem_map.1 hx
    simpa using (h.others _ hx).resolve_left (hnone n hn)
  have hnodup := h.nodup
  rw [hfilter] at hnodup
  have hle := (hnodup.subperm hsub).length_le
  rw [List.length_map, h.length] at hle
  exact absurd hle (by simp [maxDefragNum])

/-- The pairs are the same ones, or the oldest is replaced by a new one. -/
theorem of_keys (h : Refused q r received list) (hlength : list'.length = maxDefragNum)
    (hzero : ∀ n ∈ list', n.key = (0, 0) → n.seqNum = 0 ∧ n.skbList.Sublist received ∧
      ∀ f ∈ n.skbList, fragNum f ≠ 0)
    (hkeys : (list'.map Node.key).Perm (list.map Node.key) ∨
      ∃ x ∉ list.map Node.key, (x = q ∨ x = r) ∧
        list'.map Node.key = x :: (list.map Node.key).dropLast) :
    Refused q r received list' := by
  rcases hkeys with hperm | ⟨x, hx, hq, hkeys⟩
  · exact ⟨hlength, hzero, fun x hx => h.others x (hperm.mem_iff.1 hx),
      (hperm.filter _).nodup_iff.2 h.nodup⟩
  · have hsub := List.dropLast_sublist (list.map Node.key)
    refine ⟨hlength, hzero, ?_, ?_⟩
    · rw [hkeys]
      exact List.forall_mem_cons.2 ⟨.inr hq, fun y hy => h.others y (hsub.subset hy)⟩
    · have hrest := (hsub.filter fun x => x ≠ (0, 0)).nodup h.nodup
      rw [hkeys, List.filter_cons]
      split
      · refine List.nodup_cons.2 ⟨fun hmem => hx ?_, hrest⟩
        exact hsub.subset (List.mem_of_mem_filter hmem)
      · exact hrest

/-- What was refused is, also when more was received. -/
theorem mono (h : Refused q r received list) {received' : List Skb}
    (hsub : received.Sublist received') : Refused q r received' list :=
  { h with zero := fun n hn hn' => ⟨(h.zero n hn hn').1, (h.zero n hn hn').2.1.trans hsub,
      (h.zero n hn hn').2.2⟩ }

/-- A frame that is no first fragment of station `0` and TID `0`, or is not after the sequence
    number `0`. -/
theorem step (h : Refused q r received list) (hstep : Step d alloc list list' out)
    (hkeys : keyOf d = (0, 0) ∨ keyOf d = q ∨ keyOf d = r)
    (hseq : keyOf d = (0, 0) → seqnoLeq (seqNum d) 0) {received' : List Skb}
    (hsub : received.Sublist received')
    (hd : keyOf d = (0, 0) → received' = received ++ [d]) : Refused q r received' list' := by
  have h' := h.mono hsub
  have hne : list ≠ [] := by
    rintro rfl
    exact absurd h.length (by decide)
  have hlength := (hstep.length_eq hne).trans h.length
  cases hstep with
  | single | drop => exact h'
  | @replace pre old post hnum hmore hpick hseq' =>
    obtain ⟨hlist, hof, _⟩ := pick_eq_some.1 hpick
    have hold : old.key = keyOf d := isOf_iff.1 hof
    -- A node of station `0` and TID `0` has the number `0`, and the frame is not after it.
    have hkey : keyOf d ≠ (0, 0) := by
      intro hkey
      have hzero := (h.zero old (by simp [hlist]) (hold.trans hkey)).1
      rw [hzero, hseq hkey] at hseq'
      cases hseq'
    refine h'.of_keys hlength ?_ (.inl ?_)
    · refine List.forall_mem_cons.2 ⟨fun hn => absurd hn hkey, fun n hn => ?_⟩
      exact h'.zero n (pick_subset hpick hn)
    · have hmap : ((initFirstFragNode d).queue d :: (pre ++ post)).map Node.key =
          (old :: (pre ++ post)).map Node.key := by
        rw [List.map_cons, List.map_cons, hold]
        rfl
      rw [hmap, hlist]
      exact List.perm_middle.symm.map _
  | oldest hnum hmore hpick =>
    have hnone := key_ne_of_pick_eq_none hpick
    -- Some node is of station `0` and TID `0`, and would be found.
    have hkey : keyOf d ≠ (0, 0) := by
      intro hkey
      obtain ⟨n, hn, hn'⟩ := h.exists_key
      exact hnone n hn (hn'.trans hkey.symm)
    refine h'.of_keys hlength ?_ (.inr ⟨keyOf d, key_not_mem hnone, hkeys.resolve_left hkey, ?_⟩)
    · refine List.forall_mem_cons.2 ⟨fun hn => absurd hn hkey, fun n hn => ?_⟩
      exact h'.zero n (List.mem_of_mem_dropLast hn)
    · rw [List.map_cons, List.map_dropLast]
      rfl
  | @further pre old post hnum hmore hpick hseq' hlast =>
    obtain ⟨hlist, hof, _⟩ := pick_eq_some.1 hpick
    have hrest := fun n hn => h'.zero n (pick_subset hpick hn)
    refine h'.of_keys hlength (fun n hn hn' => ?_) (.inl ?_)
    · rcases List.mem_append.1 hn with hn | hn
      · exact hrest n (List.mem_append_left _ hn) hn'
      · rcases List.mem_cons.1 hn with rfl | hn
        · -- The fragment is queued, but it is not a first one.
          obtain ⟨hseq, hskbs, hnums⟩ := h.zero old (by simp [hlist]) hn'
          rw [hd ((isOf_iff.1 hof).symm.trans hn')]
          refine ⟨hseq, hskbs.append (List.Sublist.refl _), ?_⟩
          exact List.forall_mem_append.2 ⟨hnums, by simpa using hnum⟩
        · exact hrest n (List.mem_append_right _ hn) hn'
    · rw [hlist, List.map_append, List.map_append, List.map_cons, List.map_cons]
      exact List.Perm.refl _
  | @last pre old post hnum hmore hpick hseq' hlast =>
    obtain ⟨hlist, hof, _⟩ := pick_eq_some.1 hpick
    refine h'.of_keys hlength (fun n hn hn' => ?_) (.inl ?_)
    · rcases List.mem_append.1 hn with hn | hn
      · exact h'.zero n (pick_subset hpick hn) hn'
      · rw [List.mem_singleton] at hn
        subst hn
        have hseq := (h.zero old (by simp [hlist]) hn').1
        exact ⟨hseq, List.nil_sublist _, fun f hf => absurd hf List.not_mem_nil⟩
    · have hmap : (pre ++ post ++ [(old.further d).emptied]).map Node.key =
          (pre ++ post ++ [old]).map Node.key := by
        simp only [List.map_append, List.map_cons, List.map_nil]
        rfl
      rw [hmap, hlist, List.append_assoc]
      exact ((List.perm_append_singleton old post).append_left pre).map _

end Refused

/-- The nodes after any frames, if no frame of station `0` and TID `0` is after the sequence
    number `0`. -/
theorem refused_of_run
    (hothers : ∀ e ∈ es, keyOf e.pskb = (0, 0) ∨ keyOf e.pskb = q ∨ keyOf e.pskb = r)
    (hseq : ∀ d ∈ own (0, 0) es, seqnoLeq (seqNum d) 0)
    (hrun : machine.run sprdwlDefragInit es = some list) :
    Refused q r (own (0, 0) es) list := by
  revert hothers hseq
  refine Machine.invariant_history
    (I := fun es list =>
      (∀ e ∈ es, keyOf e.pskb = (0, 0) ∨ keyOf e.pskb = q ∨ keyOf e.pskb = r) →
      (∀ d ∈ own (0, 0) es, seqnoLeq (seqNum d) 0) → Refused q r (own (0, 0) es) list)
    (fun es list e list' ih _ hstep hothers hseq => ?_) (fun _ _ => ?_) Machine.along_true hrun
  · obtain rfl : (defragDataProcess list e.pskb e.alloc).1 = list' := Option.some.inj hstep
    have hsub : (own (0, 0) es).Sublist (own (0, 0) (es ++ [e])) := by
      rw [own, own, List.map_append, List.filter_append]
      exact List.sublist_append_left ..
    have hes := ih (fun e' he' => hothers e' (List.mem_append_left _ he'))
      fun d hd => hseq d (hsub.subset hd)
    refine hes.step (step_defragDataProcess ..) (hothers e (by simp)) (fun hkey => ?_) hsub
      own_concat_of_eq
    exact hseq _ (by rw [own_concat_of_eq hkey]; simp)
  · refine ⟨rfl, fun n hn _ => ?_, fun x hx => ?_, by decide⟩
    · rw [sprdwlDefragInit] at hn
      obtain rfl := List.eq_of_mem_replicate hn
      exact ⟨rfl, List.nil_sublist _, fun f hf => absurd hf List.not_mem_nil⟩
    · exact .inl (by simpa [sprdwlDefragInit, maxDefragNum, Node.key, Node.zero] using hx)

/-- The fragment number of a frame is that of the fragment that it begins with. -/
theorem fragNum_head {first rest : Skb} {n m : ℕ} (hm : rxMsduDescSize ≤ m)
    (hlen : rxMsduDescSize ≤ first.length) :
    fragNum ((setMsduLen first n).take m ++ rest) = fragNum first := by
  rw [rxMsduDescSize] at hm hlen
  have hget : ((setMsduLen first n).take m ++ rest)[22]? = first[22]? := by
    rw [List.getElem?_append_left (by rw [List.length_take, length_setMsduLen]; omega),
      List.getElem?_take_of_lt (by omega), setMsduLen, List.getElem?_set_ne (by decide),
      List.getElem?_set_ne (by decide)]
  rw [fragNum, fragNum, byte, byte, hget]

/-- The descriptor is in the buffer. -/
theorem WellFormed.desc_le (h : WellFormed d) :
    rxMsduDescSize ≤ msduTotalLen d ∧ rxMsduDescSize ≤ d.length := by
  have hdesc := h.desc
  have hbuffer := h.buffer
  rw [msduTotalLen] at hbuffer ⊢
  omega

/-- The first fragment begins the frame. -/
theorem fragNum_frameOf (hf : Fragmented k seq frags) : fragNum (frameOf frags) = 0 := by
  have htwo := hf.two_le
  match frags, hf with
  | [], hf => exact absurd htwo (by simp)
  | first :: rest, hf =>
    have hwf := hf.wellFormed first List.mem_cons_self
    rw [frameOf, fragNum_head (hwf.desc.trans (Nat.le_add_right ..)) hwf.desc_le.2]
    exact hf.fragNum_eq (t := rest) (List.nil_append _).symm

/-- A frame that a zeroed node keeps out is not put together. -/
theorem not_defrag_complete (hf : Fragmented (0, 0) seq frags)
    (hfed : Fed (0, 0) q r frags es e) (hseq : seqnoLeq seq 0)
    (hrun : machine.run sprdwlDefragInit es = some list) :
    output list e ≠ some (frameOf frags) := by
  have hlist := hfed.own_eq
  have hmem : ∀ d ∈ own (0, 0) es, d ∈ frags := fun d hd => by
    rw [← hlist]
    exact List.mem_append_left _ hd
  have hrefused := refused_of_run hfed.others
    (fun d hd => (hf.seqNum d (hmem d hd)).symm ▸ hseq) hrun
  have hstep := step_defragDataProcess list e.pskb e.alloc
  intro hout
  rw [show (defragDataProcess list e.pskb e.alloc).2 = some (frameOf frags) from hout] at hstep
  generalize hframe : some (frameOf frags) = out, (defragDataProcess list e.pskb e.alloc).1 = list'
    at hstep
  cases hstep with
  | single h =>
    -- The last fragment is a fragment.
    have hnum := hf.fragNum_eq (t := []) hlist.symm
    have hne : own (0, 0) es ≠ [] := by
      intro hnil
      have htwo := hf.two_le
      rw [← hlist, hnil] at htwo
      exact absurd htwo (by simp)
    rw [isFragment, hnum] at h
    exact hne (by simpa using (Bool.or_eq_false_iff.1 h).1)
  | drop | replace | oldest | further => cases hframe
  | @last pre old post hnum hmore hpick hseq' hlast =>
    rw [hfed.alloc, if_pos rfl] at hframe
    obtain ⟨hl, hof, _⟩ := pick_eq_some.1 hpick
    obtain ⟨_, hskbs, hnums⟩ := hrefused.zero old (by simp [hl])
      ((isOf_iff.1 hof).trans hfed.last)
    -- What is put together begins with a fragment that is not the first one.
    have hsub : (old.skbList ++ [e.pskb]).Sublist frags := by
      rw [← hlist]
      exact hskbs.append (List.Sublist.refl _)
    have hpos : ∀ f ∈ old.skbList ++ [e.pskb], fragNum f ≠ 0 :=
      List.forall_mem_append.2 ⟨hnums, by simpa using hnum⟩
    obtain ⟨first, rest, hcons⟩ := List.exists_cons_of_ne_nil
      (List.append_ne_nil_of_right_ne_nil old.skbList (List.cons_ne_nil e.pskb []))
    rw [hcons] at hsub hpos hframe
    have hwf : ∀ f ∈ first :: rest, WellFormed f := fun f hf' =>
      hf.wellFormed f (hsub.subset hf')
    have hlen := ((hsub.map msduTotalLen).sum_le_sum fun _ _ => Nat.zero_le _).trans_lt hf.len
    rw [reassemble_cons hwf hlen, Option.some_inj] at hframe
    have hfirst := (hwf first List.mem_cons_self).desc_le
    have hzero := fragNum_frameOf hf
    rw [hframe, fragNum_head hfirst.1 hfirst.2] at hzero
    exact hpos first List.mem_cons_self hzero

/-- A sequence number has twelve bits. -/
theorem seqNum_lt (d : Skb) : seqNum d < 4096 := by
  have h₁ := byte_lt d 14
  have h₂ := byte_lt d 15
  rw [seqNum]
  omega

/-- **Completeness of reassembly.** A frame whose fragments arrive in order, between any frames
    of two other pairs, is put together with its last fragment, iff it is not of station `0`
    and TID `0`, or its sequence number is in the half of the sequence space after `0`. -/
theorem defrag_complete_iff (hf : Fragmented k seq frags) (hfed : Fed k q r frags es e)
    (hrun : machine.run sprdwlDefragInit es = some list) :
    output list e = some (frameOf frags) ↔ k ≠ (0, 0) ∨ (1 ≤ seq ∧ seq < 2048) := by
  have hmem : e.pskb ∈ frags := by rw [← hfed.own_eq]; simp
  have hlt : seq < 4096 := hf.seqNum _ hmem ▸ seqNum_lt _
  have hleq : seqnoLeq seq 0 = false ↔ 1 ≤ seq ∧ seq < 2048 := by
    rw [← Bool.not_eq_true, Reorder.seqnoLeq_iff hlt (by decide)]
    simp only [Reorder.seqnoSub]
    omega
  rw [← hleq]
  refine ⟨fun h => ?_, fun hzero => defrag_complete hf hfed hzero hrun⟩
  by_contra hnot
  rw [not_or, not_not, Bool.not_eq_false] at hnot
  obtain ⟨rfl, hseq⟩ := hnot
  exact not_defrag_complete hf hfed hseq hrun h

/-- The fragments of a frame of station `0` and TID `0`, with the sequence number `16 * seq`. -/
def fixtureFragments (seq : UInt8) : List Skb :=
  [fixtureFragment seq 0 true [1, 2, 3, 4], fixtureFragment seq 1 false [5, 6, 7, 8]]

/-- What is received: the first fragment, and a fragment of station `1`. -/
def fixtureEvents (seq : UInt8) : List Event :=
  [⟨fixtureFragment seq 0 true [1, 2, 3, 4], true⟩,
    ⟨(fixtureFragment seq 0 true [0, 0, 0, 0]).set 11 8, true⟩]

/-- The last fragment. -/
def fixtureLast (seq : UInt8) : Event := ⟨fixtureFragment seq 1 false [5, 6, 7, 8], true⟩

/-- The fragments are those of a frame. -/
theorem fragmented_fixture {seq : UInt8} (h : seq = 0 ∨ seq = 1) :
    Fragmented (0, 0) (16 * seq.toNat) (fixtureFragments seq) := by
  rcases h with rfl | rfl <;>
    exact ⟨by decide, by decide, by decide, by decide, by decide, by decide, by decide,
      by decide, by decide⟩

theorem fed_fixture {seq : UInt8} (h : seq = 0 ∨ seq = 1) :
    Fed (0, 0) (1, 0) (1, 0) (fixtureFragments seq) (fixtureEvents seq) (fixtureLast seq) := by
  rcases h with rfl | rfl <;> exact ⟨by decide, by decide, by decide, by decide⟩

/-- The frame is put out. -/
theorem defrag_complete_iff_fixture :
    ∃ list, machine.run sprdwlDefragInit (fixtureEvents 1) = some list ∧
      (output list (fixtureLast 1) = some (frameOf (fixtureFragments 1)) ↔
        ((0, 0) : ℕ × ℕ) ≠ (0, 0) ∨ (1 ≤ 16 * (1 : UInt8).toNat ∧ 16 * (1 : UInt8).toNat < 2048)) :=
  ⟨_, rfl, defrag_complete_iff (fragmented_fixture (.inr rfl)) (fed_fixture (.inr rfl)) rfl⟩

/-- The first frame of station `0` and TID `0` is not put together, if its sequence number is
    `0`. -/
theorem defrag_incomplete :
    ¬∀ (k q r : ℕ × ℕ) (seq : ℕ) (frags : List Skb) (es : List Event) (e : Event)
      (list : List Node), Fragmented k seq frags → Fed k q r frags es e →
      machine.run sprdwlDefragInit es = some list →
      output list e = some (frameOf frags) := by
  intro h
  have hout := h _ _ _ _ _ _ _ _ (fragmented_fixture (.inl rfl)) (fed_fixture (.inl rfl)) rfl
  exact absurd hout (by decide +kernel)

end W132d.Defrag
