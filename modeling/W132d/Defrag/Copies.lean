import W132d.Defrag.Frame

/-!
# Where the fragments are copied

A frame is put together in a buffer of the length that its node has added up. The lengths of the
copies are computed again from the fragments.

* `Copy`, `copies`: the copies that put a frame together, which is what they leave in the buffer
  (`reassemble_eq_copies`);
* `CopiesFit`: no length is computed below zero, and a frame that is complete is copied within
  its buffer and its fragments;
* `Fits`: a fragment has its header, and a node that has no fragments queued does not give it less
  than its header;
* `copies_fit`: so the copies of every run fit.
-/

namespace W132d.Defrag

/-! ## Copies -/

/-- A copy of `len` bytes of a fragment, which ends at `stop`. -/
structure Copy where
  src : Skb
  stop : ℕ
  srcOffset : ℕ
  offset : ℕ
  len : ℕ

/-- The buffer after a copy. -/
def Copy.perform (buf : Skb) (c : Copy) : Skb :=
  memcpy buf c.offset ((c.src.drop c.srcOffset).take c.len)

/-- The copies of the further fragments. -/
def furtherCopies : ℕ → List Skb → List Copy
  | _, [] => []
  | offset, skb :: rest =>
    ⟨skb, msduTotalLen skb, msduOffset skb + headerLen skb, offset, fragLen skb⟩ ::
      furtherCopies ((offset + fragLen skb) % 2 ^ 16) rest

/-- The copies of the queued fragments, of which the first one is given the length of the frame. -/
def copies (len : ℕ) : List Skb → List Copy
  | [] => []
  | first :: rest =>
    let offset := msduTotalLen first % 2 ^ 16
    ⟨setMsduLen first ((len + 2 ^ 16 - msduOffset first) % 2 ^ 16), msduTotalLen first, 0, 0,
      offset⟩ :: furtherCopies offset rest

/-- The number of bytes that are copied of the queued fragments. -/
def copied : List Skb → ℕ
  | [] => 0
  | first :: rest => msduTotalLen first % 2 ^ 16 + (rest.map fragLen).sum

/-- The copies of a frame, of the length `len`, are within its buffer and its fragments. -/
structure Contained (len : ℕ) (skbs : List Skb) : Prop where
  /-- All bytes together are not more than the buffer has. -/
  total : ((copies len skbs).map Copy.len).sum ≤ len
  /-- None of the lengths of the fragments is below zero. -/
  lengths : ∀ f ∈ skbs, headerLen f ≤ msduLen f
  /-- No copy reads behind the end of its fragment. -/
  reads : ∀ c ∈ copies len skbs, c.srcOffset + c.len ≤ c.stop
  /-- No copy writes behind the end of the buffer. -/
  writes : ∀ c ∈ copies len skbs, c.offset + c.len ≤ len

/-- The node of a frame, after the fragment was queued. -/
def queued (list : List Node) (pskb : Skb) : Option Node :=
  if isFragment pskb then (getDefragNode pskb list).map fun x => x.2.1.queue pskb else none

/-- If the fragment is queued, its length is not below zero; if it completes a frame whose buffer
    is allocated, the copies are within the buffer and the fragments. -/
def CopiesFit (list : List Node) (e : Event) : Prop :=
  ∀ node ∈ queued list e.pskb, headerLen e.pskb ≤ msduLen e.pskb ∧
    (moreFragBit e.pskb = false → e.alloc → Contained node.msduLen node.skbList)

/-- A fragment that is queued has its header. If it is a further one, and its node has no
    fragments queued, then the length that the node was left with is not less than what comes
    before the payload, unless the length of the fragment leaves 16 bits. -/
def Fits (list : List Node) (e : Event) : Prop :=
  isFragment e.pskb → getDefragNode e.pskb list ≠ none →
    headerLen e.pskb ≤ msduLen e.pskb ∧
      (fragNum e.pskb ≠ 0 → ∀ node ∈ list.find? (Node.isOf e.pskb), node.skbList = [] →
        msduTotalLen e.pskb % 2 ^ 16 + headerLen e.pskb ≤ node.msduLen + msduLen e.pskb)

instance (list : List Node) (e : Event) : Decidable (Fits list e) :=
  inferInstanceAs (Decidable (isFragment e.pskb → getDefragNode e.pskb list ≠ none →
    headerLen e.pskb ≤ msduLen e.pskb ∧
      (fragNum e.pskb ≠ 0 → ∀ node ∈ list.find? (Node.isOf e.pskb), node.skbList = [] →
        msduTotalLen e.pskb % 2 ^ 16 + headerLen e.pskb ≤ node.msduLen + msduLen e.pskb)))

section

variable {d first : Skb} {skbs rest : List Skb} {list list' pre post : List Node}
  {node old : Node} {e : Event} {es : List Event} {out : Option Skb} {alloc : Bool}
  {offset len : ℕ} {buf : Skb}

/-! ## What the copies leave -/

theorem foldl_furtherCopies :
    (furtherCopies offset rest).foldl Copy.perform buf =
      (rest.foldl copyFragment (buf, offset)).1 := by
  induction rest generalizing buf offset with
  | nil => rfl
  | cons f rest ih => exact ih

/-- The frame is what the copies leave in the buffer. -/
theorem reassemble_eq_copies :
    reassemble len (first :: rest) =
      some ((copies len (first :: rest)).foldl Copy.perform []) := by
  rw [reassemble, copies, List.foldl_cons, foldl_furtherCopies, Copy.perform]
  simp [memcpy]

/-- The frame that a fragment completes is put together from what is queued for it. -/
theorem output_eq (hfrag : isFragment e.pskb) :
    output list e = (queued list e.pskb).bind fun node =>
      if moreFragBit e.pskb = false ∧ e.alloc then reassemble node.msduLen node.skbList
      else none := by
  rw [output, defragDataProcess, if_pos hfrag, queued, if_pos hfrag, defragSingleDataProcess]
  cases getDefragNode e.pskb list with
  | none => rfl
  | some x => cases moreFragBit e.pskb <;> simp

/-! ## The lengths of the copies -/

theorem fragNum_le (skb : Skb) : fragNum skb ≤ 15 := by
  rw [fragNum]
  omega

theorem fragLen_le_max (skb : Skb) : fragLen skb ≤ 65535 := by
  rw [fragLen]
  omega

/-- A fragment with its header has the rest of its frame as the payload. -/
theorem headerLen_add_fragLen (h : headerLen d ≤ msduLen d) :
    headerLen d + fragLen d = msduLen d := by
  have hlen := msduLen_lt d
  rw [fragLen]
  omega

theorem sum_furtherCopies :
    ((furtherCopies offset rest).map Copy.len).sum = (rest.map fragLen).sum := by
  induction rest generalizing offset with
  | nil => rfl
  | cons f rest ih => rw [furtherCopies, List.map_cons, List.sum_cons, ih, List.map_cons,
      List.sum_cons]

theorem sum_copies : ((copies len skbs).map Copy.len).sum = copied skbs := by
  cases skbs with
  | nil => rfl
  | cons first rest => rw [copies, List.map_cons, List.sum_cons, sum_furtherCopies, copied]

theorem copied_concat (h : skbs ≠ []) : copied (skbs ++ [d]) = copied skbs + fragLen d := by
  cases skbs with
  | nil => exact absurd rfl h
  | cons first rest =>
    rw [List.cons_append, copied, copied, List.map_append, List.sum_append, ← Nat.add_assoc]
    rfl

/-- A copy of a further fragment ends where the fragment does, and in the buffer not behind all
    that is copied. -/
theorem furtherCopies_le (hlen : ∀ f ∈ rest, headerLen f ≤ msduLen f) :
    ∀ c ∈ furtherCopies offset rest, c.srcOffset + c.len ≤ c.stop ∧
      c.offset + c.len ≤ offset + (rest.map fragLen).sum := by
  induction rest generalizing offset with
  | nil => exact fun c hc => absurd hc List.not_mem_nil
  | cons f rest ih =>
    rw [List.forall_mem_cons] at hlen
    rw [furtherCopies, List.map_cons, List.sum_cons]
    refine List.forall_mem_cons.2 ⟨⟨?_, ?_⟩, fun c hc => ?_⟩
    · have hf := headerLen_add_fragLen hlen.1
      dsimp only [msduTotalLen]
      omega
    · exact Nat.add_le_add_left (Nat.le_add_right ..) offset
    · -- The offset of 16 bits is not more than what has been copied.
      obtain ⟨hread, hwrite⟩ := ih hlen.2 c hc
      have hmod := Nat.mod_le (offset + fragLen f) (2 ^ 16)
      exact ⟨hread, by omega⟩

/-- The copies are contained if not more is copied than the node has added up. -/
theorem contained (hlen : ∀ f ∈ skbs, headerLen f ≤ msduLen f) (hcopied : copied skbs ≤ len) :
    Contained len skbs := by
  refine ⟨sum_copies.trans_le hcopied, hlen, fun c hc => ?_, fun c hc => ?_⟩ <;> cases skbs with
  | nil => exact absurd hc List.not_mem_nil
  | cons first rest =>
    have hrest (c : Copy) (hc : c ∈ furtherCopies (msduTotalLen first % 2 ^ 16) rest) :=
      furtherCopies_le (List.forall_mem_cons.1 hlen).2 c hc
    rw [copied] at hcopied
    rcases List.mem_cons.1 hc with rfl | hc
    · have hmod := Nat.mod_le (msduTotalLen first) (2 ^ 16)
      dsimp only
      omega
    · have hc := hrest c hc
      omega

/-! ## The node of a fragment -/

/-- What a fragment is queued at: a node for the first one, or the one that was found. -/
theorem queued_eq_some (h : queued list d = some node) :
    (fragNum d = 0 ∧ node = (initFirstFragNode d).queue d) ∨
    ∃ pre old post, fragNum d ≠ 0 ∧ pick (Node.isOf d) list = some (pre, old, post) ∧
      old.lastFragNum + 1 = fragNum d ∧ node = old.further d := by
  rw [queued] at h
  split_ifs at h
  obtain ⟨⟨pre, node', post⟩, hget, rfl⟩ := Option.map_eq_some_iff.1 h
  rw [getDefragNode] at hget
  split_ifs at hget with hnum
  · obtain ⟨old, hpick, -, hlast, rfl⟩ := findDefragNode_eq_some hget
    exact .inr ⟨pre, old, post, hnum, hpick, hlast, rfl⟩
  · rw [initFirstDefragNode] at hget
    refine .inl ⟨not_not.1 hnum, ?_⟩
    split at hget
    · split_ifs at hget
      cases hget
      rfl
    · cases hget
      rfl

/-- A fragment that is queued is one, and a node is found for it. -/
theorem get_of_queued (h : queued list d = some node) :
    isFragment d ∧ getDefragNode d list ≠ none := by
  rw [queued] at h
  split_ifs at h with hfrag
  refine ⟨hfrag, fun hnone => ?_⟩
  rw [hnone] at h
  cases h

theorem getDefragNode_subset (h : getDefragNode d list = some (pre, node, post)) :
    pre ++ post ⊆ list := by
  rw [getDefragNode] at h
  split_ifs at h
  · obtain ⟨old, hpick, -⟩ := findDefragNode_eq_some h
    exact pick_subset hpick
  · rw [initFirstDefragNode] at h
    split at h
    · rename_i hpick
      split_ifs at h
      cases h
      exact (List.nil_append _).symm ▸ pick_subset hpick
    · cases h
      exact fun _ => List.mem_of_mem_dropLast

/-- A step changes only the node of the fragment, whose queue it may empty. -/
theorem mem_defragDataProcess {n : Node} (hn : n ∈ (defragDataProcess list d alloc).1) :
    n ∈ list ∨ ∃ node, queued list d = some node ∧ (n = node ∨ n = node.emptied) := by
  rw [defragDataProcess] at hn
  split_ifs at hn with hfrag
  · rw [defragSingleDataProcess] at hn
    split at hn
    · exact .inl hn
    · rename_i pre node post hget
      have hsub := getDefragNode_subset hget
      have hqueued : queued list d = some (node.queue d) := by rw [queued, if_pos hfrag, hget]; rfl
      dsimp only at hn
      split at hn
      · rcases List.mem_append.1 hn with hn | hn
        · exact .inl (hsub (List.mem_append_left _ hn))
        · rcases List.mem_cons.1 hn with rfl | hn
          · exact .inr ⟨_, hqueued, .inl rfl⟩
          · exact .inl (hsub (List.mem_append_right _ hn))
      · rcases List.mem_append.1 hn with hn | hn
        · exact .inl (hsub hn)
        · exact .inr ⟨_, hqueued, .inr (List.mem_singleton.1 hn)⟩
  · exact .inl hn

/-! ## What a node has added up -/

/-- A node has added up at least what will be copied of its fragments, and 16 bits for a fragment
    at most. -/
structure Room (node : Node) : Prop where
  copied : copied node.skbList ≤ node.msduLen
  lengths : ∀ f ∈ node.skbList, headerLen f ≤ msduLen f
  lastFragNum : node.lastFragNum ≤ 15
  msduLen : node.msduLen ≤ 269 + 65535 * (node.lastFragNum + 1)

/-- The first fragment of a frame. -/
theorem room_first (hlen : headerLen d ≤ msduLen d) : Room ((initFirstFragNode d).queue d) := by
  have hfrag := fragLen_le_max d
  have hsum := headerLen_add_fragLen hlen
  have hoffset := byte_lt d 1
  have hheader : headerLen d ≤ 14 := by
    rw [headerLen]
    split_ifs <;> decide
  have hmsdu : ((initFirstFragNode d).queue d).msduLen = msduTotalLen d := by
    change (headerLen d + msduOffset d + fragLen d) % 2 ^ 32 = _
    rw [msduTotalLen, msduOffset]
    omega
  refine ⟨?_, List.forall_mem_singleton.2 hlen, fragNum_le d, ?_⟩
  · rw [hmsdu]
    exact Nat.mod_le ..
  · rw [hmsdu, msduTotalLen, msduOffset]
    omega

/-- A further one, of a node whose length is enough if it has no fragments queued. -/
theorem Room.further (h : Room old) (hlen : headerLen d ≤ Defrag.msduLen d)
    (hlast : old.lastFragNum + 1 = fragNum d)
    (hempty : old.skbList = [] → msduTotalLen d % 2 ^ 16 + headerLen d ≤
      old.msduLen + Defrag.msduLen d) : Room (old.further d) := by
  have hnum := fragNum_le d
  have hfrag := fragLen_le_max d
  have hsum := headerLen_add_fragLen hlen
  have hold := h.msduLen
  have hcopied := h.copied
  have hmsdu : (old.further d).msduLen = old.msduLen + fragLen d := by
    refine Nat.mod_eq_of_lt ?_
    change old.msduLen + fragLen d < 2 ^ 32
    omega
  refine ⟨?_, List.forall_mem_append.2 ⟨h.lengths, List.forall_mem_singleton.2 hlen⟩, hnum, ?_⟩
  · rw [hmsdu]
    change Defrag.copied (old.skbList ++ [d]) ≤ _
    by_cases hq : old.skbList = []
    · have hle := hempty hq
      rw [hq]
      change msduTotalLen d % 2 ^ 16 ≤ _
      omega
    · rw [copied_concat hq]
      exact Nat.add_le_add_right hcopied _
  · rw [hmsdu]
    change _ ≤ 269 + 65535 * (fragNum d + 1)
    omega

/-- A node that a fragment is queued at has added up enough. -/
theorem room_queued (hroom : ∀ n ∈ list, Room n) (hfits : Fits list e)
    (h : queued list e.pskb = some node) : Room node := by
  obtain ⟨hfrag, hget⟩ := get_of_queued h
  obtain ⟨hlen, hempty⟩ := hfits hfrag hget
  rcases queued_eq_some h with ⟨hnum, rfl⟩ | ⟨pre, old, post, hnum, hpick, hlast, rfl⟩
  · exact room_first hlen
  · have hold : Room old := hroom old (by rw [(pick_eq_some.1 hpick).1]; simp)
    exact hold.further hlen hlast (hempty hnum old (find?_of_pick hpick))

/-- So have all nodes after a step. -/
theorem room_step (hroom : ∀ n ∈ list, Room n) (hfits : Fits list e)
    (hstep : machine.step list e = some list') : ∀ n ∈ list', Room n := by
  obtain rfl : (defragDataProcess list e.pskb e.alloc).1 = list' := Option.some.inj hstep
  intro n hn
  rcases mem_defragDataProcess hn with hn | ⟨node, hqueued, rfl | rfl⟩
  · exact hroom n hn
  · exact room_queued hroom hfits hqueued
  · have hnode := room_queued hroom hfits hqueued
    exact ⟨Nat.zero_le _, fun f hf => absurd hf List.not_mem_nil, hnode.lastFragNum, hnode.msduLen⟩

theorem room_zero : Room .zero :=
  ⟨le_rfl, fun _ hf => absurd hf List.not_mem_nil, Nat.zero_le _, Nat.zero_le _⟩

/-! ## The copies of a run -/

/-- The copies of a step fit. -/
theorem copiesFit_of_fits (hroom : ∀ n ∈ list, Room n) (hfits : Fits list e) :
    CopiesFit list e := by
  intro node hnode
  obtain ⟨hfrag, hget⟩ := get_of_queued hnode
  have hnode' := room_queued hroom hfits hnode
  exact ⟨(hfits hfrag hget).1, fun _ _ => contained hnode'.lengths hnode'.copied⟩

/-- The copies of a step that completes a frame fit only then. -/
theorem copiesFit_iff (hroom : ∀ n ∈ list, Room n) (hmore : moreFragBit e.pskb = false)
    (halloc : e.alloc) : CopiesFit list e ↔ Fits list e := by
  refine ⟨fun h hfrag hget => ?_, copiesFit_of_fits hroom⟩
  obtain ⟨x, hx⟩ := Option.ne_none_iff_exists'.1 hget
  have hqueued : queued list e.pskb = some (x.2.1.queue e.pskb) := by
    rw [queued, if_pos hfrag, hx]
    rfl
  obtain ⟨hlen, hcontained⟩ := h _ hqueued
  refine ⟨hlen, fun hnum node hfind hempty => ?_⟩
  rcases queued_eq_some hqueued with ⟨hzero, -⟩ | ⟨pre, old, post, -, hpick, hlast, hnode⟩
  · exact absurd hzero hnum
  -- The node that is found, of which no fragments are copied but this one.
  obtain rfl : old = node := Option.some.inj ((find?_of_pick hpick).symm.trans hfind)
  have htotal := (hcontained hmore halloc).total
  have hcopied : copied ((old.further e.pskb).skbList) = msduTotalLen e.pskb % 2 ^ 16 := by
    rw [Node.further, Node.queue]
    dsimp only
    rw [hempty]
    rfl
  rw [hnode, sum_copies, hcopied] at htotal
  have hsum := headerLen_add_fragLen hlen
  have hmod : (old.further e.pskb).msduLen ≤ old.msduLen + fragLen e.pskb := Nat.mod_le ..
  omega

/-- If every fragment has its header, and no node without fragments gives it less than that, then
    the copies of a run fit. -/
theorem copies_fit (hfits : machine.Along Fits sprdwlDefragInit es) :
    machine.Along CopiesFit sprdwlDefragInit es :=
  Machine.Along.imp (I := fun list => ∀ n ∈ list, Room n)
    (fun _ _ _ hroom hfits hstep => room_step hroom hfits hstep)
    (fun _ _ hroom hfits => copiesFit_of_fits hroom hfits)
    (fun _ hn => List.eq_of_mem_replicate hn ▸ room_zero) hfits

end

/-- The copies of a frame in two fragments. -/
theorem copies_fit_fixture :
    machine.Along CopiesFit sprdwlDefragInit
      [⟨fixtureFragment 1 0 true [1, 2, 3, 4], true⟩,
        ⟨fixtureFragment 1 1 false [5, 6, 7, 8], true⟩] :=
  copies_fit (by decide +kernel)

/-- A last fragment that a zeroed node matches by its numbers is copied with its header, for which
    the node has added up nothing. -/
theorem not_copies_fit :
    ¬∀ es : List Event, machine.Along CopiesFit sprdwlDefragInit es := by
  intro h
  have hfit := (h [⟨fixtureFragment 0 1 false [5, 6, 7, 8], true⟩]).1
  have htotal := ((hfit _ rfl).2 (by decide) rfl).total
  rw [sum_copies] at htotal
  exact absurd htotal (by decide)

end W132d.Defrag
