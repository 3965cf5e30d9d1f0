import W132d.Credit
import W132d.Cyclic

/-!
# Credits and the colours of packets

How many packets of a mode are sent, and with the credits of which colours, is computed in four
places of `tx_msg.c`: to plan a batch, to begin it, to tag its packets, and to take the credits.

* `available`: the credits of the mode's own colour and of the colours without a mode;
* `sharedLoop_spec`, `takeCredits_spec`, `getSendNum_spec`: what a batch takes, and from whom;
* `testSendNum_eq`: what was planned, of a sum of the credits in an `int`;
* `count_colorBitLoop`: as many packets get a colour as the batch takes of its credits;
* `agrees_iff`: all four agree exactly if the sum does not overflow, or wraps to enough;
  `not_agrees`: it wraps to a negative one.

The four functions go over the colours in the same order, but differ in how they add up: the plan
adds the credits in an `int`, which may overflow, while the batch is counted down from the number of
packets. So the plan is a sum modulo 2 ^ 32 (`testSendNum_eq`), and the batch is the minimum of the
packets and the true sum (`getSendNum_spec`).

How the theorem is proved: as the credits are not negative, the numbers of the batch add up to what
is sent, each at most the credits of its colour. The loop that tags a packet looks for the colour
within whose numbers the packet is, so that as many packets get a colour as its number says
(`count_colorBitLoop`, by induction on the colours). What is taken of the credits are these numbers
(`handleTxReturn_flow`). So the last three always agree, and the plan agrees with them exactly if
the sum is right as far as the packets go.
-/

namespace W132d.Credit

variable {priv : Priv} {tx tx' : TxMsg} {mode : Mode}

/-! ## What a batch may take -/

/-- The credits of a colour that any mode may take. -/
def free (tx : TxMsg) (i : Fin maxColorBit) : ℤ :=
  if (tx.flowCtrl i).mode = .none then (tx.flowCtrl i).flow else 0

/-- The credits that a mode with colour `k` may take. -/
def available (tx : TxMsg) (k : Fin maxColorBit) : ℤ :=
  (tx.flowCtrl k).flow + ∑ i, free tx i

/-- The first colour of a mode. -/
def ownColor (tx : TxMsg) (mode : Mode) : Option (Fin maxColorBit) :=
  colors.find? fun i => (tx.flowCtrl i).mode = mode

theorem free_nonneg (h : NonNeg tx) (i : Fin maxColorBit) : 0 ≤ free tx i := by
  rw [free]
  split_ifs
  · exact (h i).1
  · exact le_rfl

theorem available_congr (h : tx'.flowCtrl = tx.flowCtrl) (k : Fin maxColorBit) :
    available tx' k = available tx k := by
  have hfree : free tx' = free tx := by
    funext i
    rw [free, free, h]
  rw [available, available, h, hfree]

theorem sum_free_nonneg (h : NonNeg tx) (is : List (Fin maxColorBit)) :
    0 ≤ (is.map (free tx)).sum :=
  List.sum_nonneg (List.forall_mem_map.2 fun i _ => free_nonneg h i)

theorem sum_colors (f : Fin maxColorBit → ℤ) : (colors.map f).sum = ∑ i, f i :=
  (Fin.sum_univ_def f).symm

/-- Overwriting the number of a colour. -/
theorem sum_update (f : Fin maxColorBit → ℤ) (k : Fin maxColorBit) (n : ℤ) :
    ∑ i, Function.update f k n i = ∑ i, f i - f k + n := by
  have hsum := Cyclic.sum_update id f (Finset.mem_univ k) n
  simp only [id] at hsum
  omega

/-- A colour that gets a mode no other one has is the first one that has it. -/
theorem find?_update {fc : Fin maxColorBit → FlowControl} {k : Fin maxColorBit} {x : FlowControl}
    (hx : x.mode = mode) (hnone : ∀ j, (fc j).mode ≠ mode) :
    (colors.find? fun j => (Function.update fc k x j).mode = mode) = some k := by
  cases hfind : colors.find? fun j => (Function.update fc k x j).mode = mode with
  | none =>
    have hself := List.find?_eq_none.1 hfind k (List.mem_finRange k)
    rw [Function.update_self, hx, decide_eq_true_eq] at hself
    exact absurd rfl hself
  | some j =>
    have hj := List.find?_some hfind
    rw [decide_eq_true_eq] at hj
    by_cases hjk : j = k
    · rw [hjk]
    · rw [Function.update_of_ne hjk] at hj
      exact absurd hj (hnone j)

/-- The colour that is found for a mode is the first one that has it now. -/
theorem ownColor_findColorPerMode {k : Fin maxColorBit} (hmode : mode ≠ .none)
    (h : findColorPerMode priv tx mode = (tx', some k)) : ownColor tx' mode = some k := by
  rw [findColorPerMode] at h
  split at h
  · rename_i i hfind
    rw [Prod.mk.injEq, Option.some_inj] at h
    obtain ⟨rfl, rfl⟩ := h
    exact hfind
  · rename_i hnone
    dsimp only at h
    split at h
    · rename_i i _
      rw [Prod.mk.injEq, Option.some_inj] at h
      obtain ⟨rfl, rfl⟩ := h
      refine find?_update rfl fun j => ?_
      have hother := List.find?_eq_none.1 hnone j (List.mem_finRange j)
      rw [decide_eq_true_eq] at hother
      split_ifs
      · exact hmode.symm
      · exact hother
    · rw [Prod.mk.injEq] at h
      exact absurd h.2 (Option.some_ne_none k).symm

/-- Finding the colour of a mode is not about what a batch takes. -/
theorem findColorPerMode_colorNum (colorNum : Fin maxColorBit → ℤ) :
    findColorPerMode priv { tx with colorNum } mode =
      ({ (findColorPerMode priv tx mode).1 with colorNum }, (findColorPerMode priv tx mode).2) := by
  simp only [findColorPerMode]
  cases colors.find? fun i => (tx.flowCtrl i).mode = mode with
  | some i => rfl
  | none =>
    dsimp only
    cases colors.find? fun i => (if (tx.flowCtrl i).mode ≠ .none ∧
        priv.fwStat (tx.flowCtrl i).mode = .close then { tx.flowCtrl i with mode := .none }
        else tx.flowCtrl i).mode = .none with
    | some i => rfl
    | none => rfl

/-! ## What a batch takes -/

/-- What is shared: as many credits as are needed, or all there are, and these are the credits of
    colours without a mode. -/
theorem sharedLoop_spec {num : ℤ} (hnum : num < 2 ^ 8) (h : NonNeg tx)
    {is : List (Fin maxColorBit)} (hnodup : is.Nodup) {colorNum : Fin maxColorBit → ℤ} {shared : ℤ}
    (hzero : ∀ i ∈ is, colorNum i = 0) (hpos : 0 ≤ shared) (hle : shared ≤ num) :
    (sharedLoop tx num is colorNum shared).2 = min num (shared + (is.map (free tx)).sum) ∧
      (is.map (sharedLoop tx num is colorNum shared).1).sum =
        (sharedLoop tx num is colorNum shared).2 - shared ∧
      (∀ i ∉ is, (sharedLoop tx num is colorNum shared).1 i = colorNum i) ∧
      ∀ i ∈ is, (sharedLoop tx num is colorNum shared).1 i ≠ 0 →
        (tx.flowCtrl i).mode = .none := by
  induction is generalizing colorNum shared with
  | nil =>
    refine ⟨?_, ?_, fun _ _ => rfl, fun _ hi => absurd hi List.not_mem_nil⟩
    · rw [sharedLoop, List.map_nil, List.sum_nil, add_zero, min_eq_right hle]
    · rw [sharedLoop, List.map_nil, List.sum_nil, sub_self]
  | cons k is ih =>
    obtain ⟨hk, hk'⟩ := h k
    obtain ⟨hkis, hnodup⟩ := List.nodup_cons.1 hnodup
    obtain ⟨hzk, hzero⟩ := List.forall_mem_cons.1 hzero
    have hrest := sum_free_nonneg h is
    rw [sharedLoop, u32_eq hk (by omega), u32_eq (by omega) (by omega), u8_eq (by omega) (by omega),
      List.map_cons, List.map_cons, List.sum_cons, List.sum_cons]
    split_ifs with hshared henough
    · -- The credits of this colour are enough, and the loop ends.
      have hfree : free tx k = (tx.flowCtrl k).flow := if_pos hshared.1
      have hothers : (is.map (Function.update colorNum k (num - shared))).sum = 0 := by
        refine List.sum_eq_zero (List.forall_mem_map.2 fun i hi => ?_)
        rw [Function.update_of_ne (ne_of_mem_of_not_mem hi hkis), hzero i hi]
      refine ⟨?_, ?_, fun i hi => ?_, fun i hi hne => ?_⟩
      · rw [hfree]
        dsimp only
        omega
      · dsimp only
        rw [hothers, Function.update_self]
        omega
      · exact Function.update_of_ne (List.ne_of_not_mem_cons hi) ..
      · rcases List.mem_cons.1 hi with rfl | hi
        · exact hshared.1
        · dsimp only at hne
          rw [Function.update_of_ne (ne_of_mem_of_not_mem hi hkis)] at hne
          exact absurd (hzero i hi) hne
    · -- All of them are taken, and the loop goes on.
      have hfree : free tx k = (tx.flowCtrl k).flow := if_pos hshared.1
      rw [u8_eq hk (by omega), s32_eq (by omega) (by omega), hfree]
      obtain ⟨hnum', hsum, hout, hmode⟩ := @ih hnodup
        (Function.update colorNum k (tx.flowCtrl k).flow) (shared + (tx.flowCtrl k).flow)
        (fun i hi => by rw [Function.update_of_ne (ne_of_mem_of_not_mem hi hkis), hzero i hi])
        (by omega) (by omega)
      refine ⟨?_, ?_, fun i hi => ?_, fun i hi hne => ?_⟩
      · rw [hnum', add_assoc]
      · rw [hsum, hout k hkis, Function.update_self]
        omega
      · rw [hout i (List.not_mem_of_not_mem_cons hi),
          Function.update_of_ne (List.ne_of_not_mem_cons hi)]
      · rcases List.mem_cons.1 hi with rfl | hi
        · exact hshared.1
        · exact hmode i hi hne
    · -- This colour has a mode or no credits.
      have hfree : free tx k = 0 := by
        rw [free]
        split_ifs with hmode
        · by_contra hne
          exact hshared ⟨hmode, hne⟩
        · rfl
      obtain ⟨hnum', hsum, hout, hmode⟩ := ih hnodup hzero hpos hle
      refine ⟨?_, ?_, fun i hi => ?_, fun i hi hne => ?_⟩
      · rw [hnum', hfree, zero_add]
      · rw [hsum, hout k hkis, hzk, zero_add]
      · exact hout i (List.not_mem_of_not_mem_cons hi)
      · rcases List.mem_cons.1 hi with rfl | hi
        · exact absurd (hout i hkis ▸ hzk) hne
        · exact hmode i hi hne

/-- A batch takes as many credits as it has packets, or all it may take, of the mode's own colour
    and of colours without a mode. -/
theorem takeCredits_spec (h : NonNeg tx) (hzero : tx.colorNum = fun _ => 0)
    {k : Fin maxColorBit} (hmode : (tx.flowCtrl k).mode ≠ .none) {dataNum : ℤ} (hpos : 0 < dataNum)
    (hle : dataNum ≤ 100) :
    (takeCredits tx k dataNum).2 = min dataNum (available tx k) ∧
      ∑ i, (takeCredits tx k dataNum).1.colorNum i = (takeCredits tx k dataNum).2 ∧
      ∀ i, (takeCredits tx k dataNum).1.colorNum i ≠ 0 →
        i = k ∨ (tx.flowCtrl i).mode = .none := by
  obtain ⟨hk, hk'⟩ := h k
  have hfree : 0 ≤ ∑ i, free tx i := Finset.sum_nonneg fun i _ => free_nonneg h i
  rw [takeCredits, available]
  dsimp only
  split_ifs with henough
  · rw [u8_eq hpos.le (by omega), min_eq_left (by omega), sum_update, hzero]
    refine ⟨rfl, by simp, fun i hne => ?_⟩
    by_contra hi
    rw [not_or] at hi
    dsimp only at hne
    rw [Function.update_of_ne hi.1] at hne
    exact hne rfl
  · obtain ⟨hnum, hsum, -, hshared⟩ := @sharedLoop_spec tx (dataNum - (tx.flowCtrl k).flow)
      (by omega) h colors (List.nodup_finRange _) tx.colorNum 0 (fun i _ => congrFun hzero i)
      le_rfl (by omega)
    rw [sum_colors] at hnum hsum
    -- The mode's own colour is not among those that are shared.
    have hown : (sharedLoop tx (dataNum - (tx.flowCtrl k).flow) colors tx.colorNum 0).1 k = 0 := by
      by_contra hne
      exact hmode (hshared k (List.mem_finRange k) hne)
    rw [getSharedNum, u8_eq hk (by omega), u8_eq (by omega) (by omega)]
    dsimp only
    rw [s32_eq (by omega) (by omega), sum_update, hown, hsum]
    refine ⟨by omega, by omega, fun i hne => ?_⟩
    by_contra hi
    rw [not_or] at hi
    rw [Function.update_of_ne hi.1] at hne
    exact hi.2 (hshared i (List.mem_finRange i) hne)

/-- A batch that begins, of a mode for which a colour is found. -/
theorem getSendNum_eq (hpcie : priv.pcie = false) (hcredit : priv.noCredit = false)
    (hmode : mode ≠ .none) {dataNum : ℤ} (hdata : 0 < dataNum) :
    getSendNum priv tx mode dataNum =
      match findColorPerMode priv tx mode with
      | (tx', none) => ({ tx' with colorNum := fun _ => 0 }, -enomem)
      | (tx', some k) =>
        let (tx, sendNum) := takeCredits { tx' with colorNum := fun _ => 0 } k (min dataNum 100)
        if sendNum ≤ 0 then (tx, -enomem) else (tx, sendNum) := by
  rw [getSendNum, if_neg (not_or.2 ⟨not_le.2 hdata, hmode⟩), hpcie, hcredit]
  simp only [Bool.false_eq_true, if_false]
  have hfind := @findColorPerMode_colorNum priv tx mode fun _ => 0
  rw [hfind]
  rcases findColorPerMode priv tx mode with ⟨tx', - | k⟩ <;> rfl

/-- A batch that begins: its colours, and what it takes of them. -/
theorem getSendNum_spec (hpcie : priv.pcie = false) (hcredit : priv.noCredit = false)
    (h : NonNeg tx) {dataNum : ℤ} (hdata : 0 < dataNum)
    (hsend : 0 < (getSendNum priv tx mode dataNum).2) :
    mode ≠ .none ∧ ∃ tx' k, findColorPerMode priv tx mode = (tx', some k) ∧
      (getSendNum priv tx mode dataNum).1.flowCtrl = tx'.flowCtrl ∧
      (getSendNum priv tx mode dataNum).2 = min (min dataNum 100) (available tx' k) ∧
      ∑ i, (getSendNum priv tx mode dataNum).1.colorNum i =
        (getSendNum priv tx mode dataNum).2 ∧
      ∀ i, (getSendNum priv tx mode dataNum).1.colorNum i ≠ 0 →
        i = k ∨ (tx'.flowCtrl i).mode = .none := by
  have hmode : mode ≠ .none := by
    rintro rfl
    rw [getSendNum, if_pos (.inr rfl)] at hsend
    exact lt_irrefl _ hsend
  refine ⟨hmode, ?_⟩
  rw [getSendNum_eq hpcie hcredit hmode hdata] at hsend ⊢
  rcases hfind : findColorPerMode priv tx mode with ⟨tx', - | k⟩
  · rw [hfind] at hsend
    exact absurd hsend (not_lt.2 (neg_nonpos.2 (by decide)))
  · rw [hfind] at hsend
    have hflow := fun i => (@findColorPerMode_flow priv tx mode i).1
    rw [hfind] at hflow
    have hnonneg : NonNeg { tx' with colorNum := fun _ => 0 } := h.congr hflow
    -- The colour that was found is one of the mode.
    have hk : (tx'.flowCtrl k).mode = mode := by
      have hown := List.find?_some (ownColor_findColorPerMode hmode hfind)
      rwa [decide_eq_true_eq] at hown
    obtain ⟨hnum, hsum, hcharged⟩ := takeCredits_spec hnonneg rfl (hk ▸ hmode)
      (lt_min hdata (by decide)) (min_le_right ..)
    have hsame := (@takeCredits_covered _ hnonneg rfl k (min dataNum 100)
      (lt_min hdata (by decide)) (min_le_right ..)).1
    dsimp only at hsend ⊢
    split_ifs at hsend ⊢ with hle
    · exact absurd hsend (not_lt.2 (neg_nonpos.2 (by decide)))
    · exact ⟨tx', k, rfl, hsame, hnum, hsum, hcharged⟩

/-! ## What was planned -/

theorem s32_s32_add (a b : ℤ) : s32 (s32 a + b) = s32 (a + b) := by
  unfold s32
  omega

/-- The credits that are shared, added up in an `int`. -/
theorem testSharedNum_eq (h : NonNeg tx) : testSharedNum tx = s32 (∑ i, free tx i) := by
  -- Each addition wraps around, so that only the sum has to be cut down to 32 bits.
  have hfold : ∀ (is : List (Fin maxColorBit)) (a : ℤ), is.foldl (fun shared i =>
      let colorFlow := u32 (tx.flowCtrl i).flow
      if (tx.flowCtrl i).mode = .none ∧ colorFlow ≠ 0 then s32 (shared + colorFlow) else shared)
        (s32 a) = s32 (a + (is.map (free tx)).sum) := by
    intro is
    induction is with
    | nil => exact fun a => by rw [List.foldl_nil, List.map_nil, List.sum_nil, add_zero]
    | cons k is ih =>
      intro a
      obtain ⟨hk, hk'⟩ := h k
      have hnext : (if (tx.flowCtrl k).mode = .none ∧ (tx.flowCtrl k).flow ≠ 0 then
          s32 (s32 a + (tx.flowCtrl k).flow) else s32 a) = s32 (a + free tx k) := by
        rw [s32_s32_add, free]
        by_cases hmode : (tx.flowCtrl k).mode = .none
        · by_cases hflow : (tx.flowCtrl k).flow = 0
          · rw [if_neg (fun hand => hand.2 hflow), if_pos hmode, hflow, add_zero]
          · rw [if_pos ⟨hmode, hflow⟩, if_pos hmode]
        · rw [if_neg (fun hand => hmode hand.1), if_neg hmode, add_zero]
      rw [List.foldl_cons, u32_eq hk (by omega)]
      dsimp only
      rw [hnext, ih, List.map_cons, List.sum_cons, add_assoc]
  have hzero := hfold colors 0
  rw [zero_add, sum_colors] at hzero
  exact hzero

/-- What is planned: the credits that may be taken are added up in an `int`. -/
theorem testSendNum_eq (hpcie : priv.pcie = false) (hcredit : priv.noCredit = false)
    (h : NonNeg tx) (hmode : mode ≠ .none) {dataNum : ℤ} (hdata : 0 < dataNum)
    {k : Fin maxColorBit} (hfind : findColorPerMode priv tx mode = (tx', some k)) :
    (testSendNum priv tx mode dataNum).2 =
      if s32 (available tx' k) ≤ 0 then -enomem
      else min (s32 (available tx' k)) (min dataNum 100) := by
  have hcond : ¬(dataNum ≤ 0 ∨ mode = .none) := not_or.2 ⟨not_le.2 hdata, hmode⟩
  have hflow := fun i => (@findColorPerMode_flow priv tx mode i).1
  rw [hfind] at hflow
  have hsum : s32 ((tx'.flowCtrl k).flow + testSharedNum tx') = s32 (available tx' k) := by
    rw [testSharedNum_eq (h.congr hflow), add_comm, s32_s32_add, add_comm, available]
  rw [testSendNum, if_neg hcond, hpcie, hcredit, hfind]
  simp only [Bool.false_eq_true, if_false]
  rw [hsum]
  split_ifs <;> rfl

/-! ## The colours of the packets -/

/-- The colours that `sprdwl_intf_tx_list` gives to `txCount` packets. -/
def intfTxList (priv : Priv) (tx : TxMsg) (txCount : ℕ) : List ℕ :=
  (List.range txCount).map fun i : ℕ => setColorBit priv tx (i + 1)

/-- As many packets get a colour as `colorNum` says, if there are as many as it says of all
    colours. The first ones are behind `base` packets of other colours. -/
theorem count_colorBitLoop {is : List (Fin maxColorBit)} (hnodup : is.Nodup)
    (hpos : ∀ i, 0 ≤ tx.colorNum i) {n : ℕ} (hn : (n : ℤ) = (is.map tx.colorNum).sum) (base : ℤ)
    (c : Fin maxColorBit) :
    ((((List.range n).map fun j : ℕ => colorBitLoop tx (base + (j + 1)) is base).count (c : ℕ) : ℕ)
      : ℤ) = if c ∈ is then tx.colorNum c else 0 := by
  induction is generalizing n base with
  | nil =>
    rw [List.map_nil, List.sum_nil, Int.natCast_eq_zero] at hn
    rw [hn, if_neg List.not_mem_nil]
    rfl
  | cons k is ih =>
    obtain ⟨hk, hnodup⟩ := List.nodup_cons.1 hnodup
    obtain ⟨a, ha⟩ := Int.eq_ofNat_of_zero_le (hpos k)
    have hrest : 0 ≤ (is.map tx.colorNum).sum :=
      List.sum_nonneg (List.forall_mem_map.2 fun i _ => hpos i)
    obtain ⟨m, hm⟩ := Int.eq_ofNat_of_zero_le hrest
    rw [List.map_cons, List.sum_cons, ha, hm] at hn
    obtain rfl : n = a + m := by omega
    -- The first `a` packets get the colour `k`, and the other ones those behind it.
    have hfirst :
        (List.range a).map (fun j : ℕ => colorBitLoop tx (base + (j + 1)) (k :: is) base) =
          List.replicate a (k : ℕ) := by
      refine List.eq_replicate_iff.2 ⟨by rw [List.length_map, List.length_range],
        List.forall_mem_map.2 fun j hj => ?_⟩
      rw [List.mem_range] at hj
      rw [colorBitLoop, if_pos (by omega)]
    have hothers :
        (List.range m).map
            ((fun j : ℕ => colorBitLoop tx (base + (j + 1)) (k :: is) base) ∘ (a + ·)) =
          (List.range m).map fun j : ℕ =>
            colorBitLoop tx (base + tx.colorNum k + (j + 1)) is (base + tx.colorNum k) := by
      refine List.map_congr_left fun j _ => ?_
      rw [Function.comp_apply, colorBitLoop, if_neg (by push_cast; omega)]
      congr 1
      push_cast
      omega
    rw [List.range_add, List.map_append, List.map_map, hfirst, hothers, List.count_append,
      List.count_replicate, Nat.cast_add, ih hnodup hm.symm]
    rcases eq_or_ne c k with rfl | hck
    · rw [if_neg hk, if_pos List.mem_cons_self, ha, add_zero, beq_self_eq_true, if_pos rfl]
    · have hne : ((k : ℕ) == (c : ℕ)) = false := beq_false_of_ne fun heq => hck (Fin.ext heq).symm
      rw [hne, if_neg Bool.false_ne_true, Nat.cast_zero, zero_add]
      exact if_congr (List.mem_cons.trans (or_iff_right hck)).symm rfl rfl

/-! ## All four agree -/

/-- What is sent of `dataNum` packets of the mode, and of the credits of which colours, is what was
    planned, what the packets are tagged with, and what is taken of the credits. -/
structure Agrees (priv : Priv) (tx : TxMsg) (mode : Mode) (dataNum : ℤ) : Prop where
  /-- As many packets are sent as there are credits of the own colour and of those without a mode,
      which only are charged. -/
  own : ∃ k, ownColor (getSendNum priv tx mode dataNum).1 mode = some k ∧
    (getSendNum priv tx mode dataNum).2 =
      min (min dataNum 100) (available (getSendNum priv tx mode dataNum).1 k) ∧
    ∀ i, (getSendNum priv tx mode dataNum).1.colorNum i ≠ 0 →
      i = k ∨ ((getSendNum priv tx mode dataNum).1.flowCtrl i).mode = .none
  covered : ∀ i, 0 ≤ (getSendNum priv tx mode dataNum).1.colorNum i ∧
    (getSendNum priv tx mode dataNum).1.colorNum i ≤ (tx.flowCtrl i).flow
  sum : ∑ i, (getSendNum priv tx mode dataNum).1.colorNum i = (getSendNum priv tx mode dataNum).2
  planned : (testSendNum priv tx mode dataNum).2 = (getSendNum priv tx mode dataNum).2
  tagged : ∀ c : Fin maxColorBit, ((intfTxList priv (getSendNum priv tx mode dataNum).1
    (getSendNum priv tx mode dataNum).2.toNat).count (c : ℕ) : ℤ) =
      (getSendNum priv tx mode dataNum).1.colorNum c
  taken : ∀ c : Fin maxColorBit, ((handleTxReturn priv (getSendNum priv tx mode dataNum).1
    (getSendNum priv tx mode dataNum).2 0).flowCtrl c).flow =
      (tx.flowCtrl c).flow - (getSendNum priv tx mode dataNum).1.colorNum c

/-- The credits that the packets of a mode may take. -/
def creditsFor (priv : Priv) (tx : TxMsg) (mode : Mode) : ℤ :=
  match findColorPerMode priv tx mode with
  | (tx, some k) => available tx k
  | (_, none) => 0

/-- The packets of a batch are tagged with the colours of its credits. -/
theorem count_intfTxList (hcredit : priv.noCredit = false) (hpos : ∀ i, 0 ≤ tx.colorNum i) {n : ℤ}
    (hsum : ∑ i, tx.colorNum i = n) (c : Fin maxColorBit) :
    ((intfTxList priv tx n.toNat).count (c : ℕ) : ℤ) = tx.colorNum c := by
  have hn : (n.toNat : ℤ) = (colors.map tx.colorNum).sum := by
    rw [sum_colors, hsum, Int.toNat_of_nonneg (hsum ▸ Finset.sum_nonneg fun i _ => hpos i)]
  have hcount := count_colorBitLoop (List.nodup_finRange _) hpos hn 0 c
  rw [if_pos (List.mem_finRange c)] at hcount
  rw [← hcount, intfTxList]
  simp only [setColorBit, hcredit, Bool.false_eq_true, if_false, zero_add]
  rfl

/-- The credits of a batch are taken. -/
theorem handleTxReturn_flow (hcredit : priv.noCredit = false) (h : NonNeg tx)
    (hcovered : Covered tx) (n : ℤ) (c : Fin maxColorBit) :
    ((handleTxReturn priv tx n 0).flowCtrl c).flow = (tx.flowCtrl c).flow - tx.colorNum c := by
  obtain ⟨hc, hc'⟩ := h c
  obtain ⟨hpos, hle⟩ := hcovered c
  rw [handleTxReturn, if_neg (not_not.2 rfl), hcredit]
  simp only [Bool.false_eq_true, if_false]
  split_ifs with hzero
  · rw [hzero, sub_zero]
  · exact s32_eq (by omega) (by omega)

/-- If packets are sent, all four agree exactly if the credits of the mode's own colour and of the
    colours without a mode add up to less than `2 ^ 31`, or wrap to an `int` that is enough for the
    packets. -/
theorem agrees_iff (hpcie : priv.pcie = false) (hcredit : priv.noCredit = false) (h : NonNeg tx)
    {dataNum : ℤ} (hdata : 0 < dataNum) (hsend : 0 < (getSendNum priv tx mode dataNum).2) :
    Agrees priv tx mode dataNum ↔
      creditsFor priv tx mode < 2 ^ 31 ∨ min dataNum 100 ≤ s32 (creditsFor priv tx mode) := by
  obtain ⟨hmode, tx', k, hfind, hflow, hnum, hsum, hcharged⟩ :=
    getSendNum_spec hpcie hcredit h hdata hsend
  obtain ⟨hsame, hcovered⟩ := getSendNum_covered hpcie hcredit h hdata hmode
  have htest := testSendNum_eq hpcie hcredit h hmode hdata hfind
  have hfor : creditsFor priv tx mode = available tx' k := by
    rw [creditsFor, hfind]
  -- Of all that the functions agree on, only this depends on the sum.
  have hplanned : (testSendNum priv tx mode dataNum).2 = (getSendNum priv tx mode dataNum).2 ↔
      creditsFor priv tx mode < 2 ^ 31 ∨ min dataNum 100 ≤ s32 (creditsFor priv tx mode) := by
    have henomem : enomem = 12 := rfl
    rw [hnum] at hsend
    rw [htest, hnum, hfor, henomem]
    unfold s32
    split_ifs <;> omega
  rw [← hplanned]
  refine ⟨fun hagrees => hagrees.planned, fun hplanned => ⟨⟨k, ?_, ?_, ?_⟩, fun i => ?_, hsum,
    hplanned, count_intfTxList hcredit (fun i => (hcovered i).1) hsum, fun c => ?_⟩⟩
  · rw [ownColor, hflow]
    exact ownColor_findColorPerMode hmode hfind
  · rw [hnum, available_congr hflow]
  · rw [hflow]
    exact hcharged
  · rw [← hsame i]
    exact hcovered i
  · rw [handleTxReturn_flow hcredit (h.congr hsame) hcovered, hsame c]

/-- The station has three credits of its own colour, and three hundred of each other one are
    free. -/
theorem agrees_iff_station :
    let tx : TxMsg := ⟨fun i => if i = firstColor then ⟨.station, 0, 3⟩ else ⟨.none, i, 300⟩,
      fun _ => 0, 0, 0⟩
    Agrees ⟨false, false, fun _ => .open⟩ tx .station 50 ↔
      creditsFor ⟨false, false, fun _ => .open⟩ tx .station < 2 ^ 31 ∨
        min 50 100 ≤ s32 (creditsFor ⟨false, false, fun _ => .open⟩ tx .station) :=
  agrees_iff rfl rfl (by rw [NonNeg]; decide) (by decide) (by decide)

/-- The credits of two colours add up to `2 ^ 31`, and no packet is planned while one is sent. -/
theorem not_agrees :
    let tx : TxMsg := ⟨fun i => if i = firstColor then ⟨.station, 0, 2 ^ 31 - 1⟩
      else ⟨.none, i, if (i : ℕ) = 1 then 1 else 0⟩, fun _ => 0, 0, 0⟩
    NonNeg tx ∧ 0 < (getSendNum ⟨false, false, fun _ => .open⟩ tx .station 1).2 ∧
      ¬Agrees ⟨false, false, fun _ => .open⟩ tx .station 1 := by
  intro tx
  refine ⟨by rw [NonNeg]; decide, by decide, fun hagrees => ?_⟩
  exact absurd hagrees.planned (by decide)

end W132d.Credit
