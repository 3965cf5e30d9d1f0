import W132d.TxPool.Qos

/-!
# The priorities of the categories

The credits are shared out in the order of the priorities, a fixed percentage of what is left to
each category. The percentages are rounded down, so that a category is given none of a single
credit, which then goes to the one after it.

* `moved`: the messages that are moved from a category;
* `moved_acs`: the credits of the four categories;
* `respects_iff`: a category is never passed over for a lower one exactly if none of them meets a
  single credit while a lower one has messages, too (`Inverts`).

How the theorem is proved: the credits of a category with a ratio are a function of the credits, of
its messages and of those behind it (`share`). If there is more than one credit, a share by one of
the ratios is at least a half of the credits, so that the others, who share what is left, get no
more than this, or the category has all that it needs (`le_share`, `share_iff`). With a single
credit the share is rounded down to none, and the credit goes to the others (`share_one`). When a
category meets a single credit depends on what the ones before it have left, which is worked out for
the ratios of the driver (`share_vo_eq`, `share_vi_eq`).
-/

namespace W132d.TxPool

open Credit (u32 s32)

/-! ## Priorities -/

/-- The order of the categories; the first one has the highest priority. -/
def Ac.order : Ac → ℕ
  | .vo => 0
  | .vi => 1
  | .be => 2
  | .bk => 3

/-- The messages that are moved from a category. -/
def moved (moves : List (Queue × ℤ)) (i : Ac) : ℤ :=
  ((moves.filter fun x => x.1.1 = i).map Prod.snd).sum

/-- From a category, at least as many messages are moved as from a lower one, or all it has. -/
def Respects (num : Queue → ℤ) (moves : List (Queue × ℤ)) : Prop :=
  ∀ i i' : Ac, i.order < i'.order → min (qListNum num i) (moved moves i') ≤ moved moves i

/-- The credits that the ratio of the voice leaves. -/
def afterVo (q : Ac → ℤ) (sendNum : ℤ) : ℤ := sendNum - min (sendNum * 87 / 100) (q .vo)

/-- A category with messages meets a single credit while a lower one has messages, too: voice if
    there is only one credit; video if the share of the voice leaves one, i.e., there are at most 7
    credits and voice has messages for all but one of them; and best effort if the share of the
    video leaves one, of at most 10. -/
def Inverts (q : Ac → ℤ) (sendNum : ℤ) : Prop :=
  (0 < q .vo ∧ 0 < q .vi + q .be + q .bk ∧ sendNum = 1) ∨
  (0 < q .vi ∧ 0 < q .be + q .bk ∧ sendNum ≤ 7 ∧ sendNum ≤ q .vo + 1) ∨
  (0 < q .be ∧ 0 < q .bk ∧ afterVo q sendNum ≤ 10 ∧ afterVo q sendNum ≤ q .vi + 1)

section

variable {num : Queue → ℤ} {i i' : Ac} {is : List Ac} {sendNum tot q fp r rest g : ℤ}

theorem moved_append (l l' : List (Queue × ℤ)) : moved (l ++ l') i = moved l i + moved l' i := by
  rw [moved, List.filter_append, List.map_append, List.sum_append]
  rfl

/-- Without credits, nothing is moved. -/
theorem qosShares_nil (hsend : sendNum ≤ 0) : qosShares num is sendNum tot = [] := by
  induction is generalizing tot with
  | nil => rfl
  | cons i is ih =>
    rw [qosShares]
    dsimp only
    split_ifs
    · exact ih
    · rfl

/-- The shares of a category are moved from it. -/
theorem moved_peerShares (hnum : ∀ q, 0 ≤ num q) (hfp : fp ≤ qListNum num i) (hpos : 0 ≤ fp)
    (hsmall : qListNum num i * fp < 2 ^ 31) :
    moved (peerShares num i luts (qListNum num i) fp) i' = if i = i' then fp else 0 := by
  have hcat (x : Queue × ℤ) (hx : x ∈ peerShares num i luts (qListNum num i) fp) : x.1.1 = i := by
    obtain ⟨j, -, hj⟩ := List.mem_map.1 (peerShares_sublist.subset (List.mem_map_of_mem hx))
    rw [← hj]
  rw [moved]
  split_ifs with hi
  · rw [List.filter_eq_self.2 fun x hx => decide_eq_true ((hcat x hx).trans hi)]
    exact sum_peerShares hnum rfl hfp hpos hsmall
  · rw [List.filter_eq_nil_iff.2 fun x hx h =>
      hi ((hcat x hx).symm.trans (of_decide_eq_true h))]
    rfl

/-- Nothing is moved from a category that is not in the list. -/
theorem moved_of_not_mem (hi : i ∉ is) : moved (qosShares num is sendNum tot) i = 0 := by
  rw [moved, List.filter_eq_nil_iff.2 fun x hx h => ?_]
  · rfl
  · obtain ⟨i', hi', hx⟩ :=
      List.mem_flatMap.1 (qosShares_sublist.subset (List.mem_map_of_mem (f := Prod.fst) hx))
    obtain ⟨j, -, hj⟩ := List.mem_map.1 hx
    rw [← hj] at h
    exact hi (of_decide_eq_true h ▸ hi')

/-- What is moved from the first category, and what is left to the others. -/
theorem moved_cons (hnum : ∀ q, 0 ≤ num q) (hi : i ∉ is)
    (htot : tot = qListNum num i + (is.map (qListNum num)).sum) (hsend : 0 ≤ sendNum)
    (hle : sendNum ≤ tot) (hsmall : sendNum * tot < 2 ^ 31)
    (hfp : 0 < sendNum → 0 < qListNum num i → fpNum i sendNum tot (qListNum num i) = fp)
    (hnone : sendNum = 0 ∨ qListNum num i = 0 → fp = 0) :
    moved (qosShares num (i :: is) sendNum tot) i = fp ∧
      ∀ i', i' ≠ i → moved (qosShares num (i :: is) sendNum tot) i' =
        moved (qosShares num is (sendNum - fp) (tot - qListNum num i)) i' := by
  have hq := qListNum_nonneg hnum i
  have hrest := sum_map_nonneg (qListNum_nonneg hnum) is
  rw [qosShares]
  dsimp only
  split_ifs with hzero hend
  · have hq₀ : qListNum num i = 0 := le_antisymm hzero hq
    rw [hnone (.inr hq₀), hq₀, sub_zero, sub_zero]
    exact ⟨moved_of_not_mem hi, fun i' _ => rfl⟩
  · have hs₀ : sendNum = 0 := le_antisymm hend hsend
    rw [hnone (.inl hs₀), sub_zero, qosShares_nil hend]
    exact ⟨rfl, fun i' _ => rfl⟩
  · have hqt : qListNum num i ≤ tot := by omega
    obtain ⟨hpos, hleq, hles, -⟩ := fpNum_le i (not_le.1 hend) hle (not_le.1 hzero) hqt hsmall
    rw [hfp (not_le.1 hend) (not_le.1 hzero)] at hpos hleq hles ⊢
    have hpeers : qListNum num i * fp < 2 ^ 31 :=
      mul_lt_of_mul_lt (mul_comm sendNum tot ▸ hsmall) hqt hles hq hpos
    refine ⟨?_, fun i' hi' => ?_⟩
    · rw [moved_append, moved_peerShares hnum hleq hpos hpeers, if_pos rfl, moved_of_not_mem hi,
        add_zero]
    · rw [moved_append, moved_peerShares hnum hleq hpos hpeers, if_neg hi'.symm, zero_add]

/-! ## The shares of the ratios -/

/-- The credits of a category with a ratio: what the ratio gives, or what the others, with `rest`
    messages, do not need. -/
def share (r sendNum q rest : ℤ) : ℤ := max (min (sendNum * r / 100) q) (sendNum - rest)

/-- The products with a ratio do not wrap either, as there are fewer credits than messages. -/
theorem mul_ratio_lt (hsend : 0 ≤ sendNum) (hle : sendNum ≤ tot) (hsmall : sendNum * tot < 2 ^ 31)
    (hr : r ≤ 100) : sendNum * r < 2 ^ 32 := by
  have hsq : sendNum * sendNum < 2 ^ 31 := mul_lt_of_mul_lt hsmall le_rfl hle hsend hsend
  have hlt : sendNum < 46341 := by
    by_contra hge
    nlinarith
  calc sendNum * r ≤ sendNum * 100 := by gcongr
    _ < 2 ^ 32 := by omega

theorem fpNum_eq (hr : ratio i = some r) (hr₀ : 0 ≤ r) (hr₁ : r ≤ 100) (hsend : 0 < sendNum)
    (hle : sendNum ≤ q + rest) (hsmall : sendNum * (q + rest) < 2 ^ 31) (hq : 0 < q)
    (hrest : 0 ≤ rest) : fpNum i sendNum (q + rest) q = share r sendNum q rest := by
  have hu : u32 (sendNum * r) = sendNum * r :=
    Int.emod_eq_of_lt (by positivity) (mul_ratio_lt hsend.le hle hsmall hr₁)
  have hm : sendNum * r / 100 ≤ sendNum := Int.ediv_le_of_le_mul (by norm_num) (by gcongr)
  have hall := (evenShare_le hsend hle hq (by omega) hsmall).2.2.2
  have hfp : fpByRatio i sendNum (q + rest) q = if q + rest > q then min (sendNum * r / 100) q
      else (s32 (sendNum * q)).tdiv (q + rest) := by
    rw [fpByRatio, hr, ← hu]
  rw [fpNum, hfp, share]
  generalize sendNum * r / 100 = m at hm
  generalize (s32 (sendNum * q)).tdiv (q + rest) = n at hall
  split_ifs <;> omega

theorem share_le (hr₀ : 0 ≤ r) (hr₁ : r ≤ 100) (hsend : 0 ≤ sendNum) (hle : sendNum ≤ q + rest)
    (hq : 0 ≤ q) (hrest : 0 ≤ rest) :
    0 ≤ share r sendNum q rest ∧ share r sendNum q rest ≤ q ∧ share r sendNum q rest ≤ sendNum ∧
      sendNum - share r sendNum q rest ≤ rest := by
  have hm : sendNum * r / 100 ≤ sendNum := Int.ediv_le_of_le_mul (by norm_num) (by gcongr)
  have hm₀ : 0 ≤ sendNum * r / 100 := Int.ediv_nonneg (by positivity) (by norm_num)
  rw [share]
  omega

/-- Unless it is a single credit, at least a half of the credits is shared out by the ratio. -/
theorem le_share (hr₀ : 81 ≤ r) (hsend : 0 ≤ sendNum) (hle : sendNum ≤ q + rest)
    (hrest : 0 ≤ rest) (hone : ¬(0 < q ∧ 0 < rest ∧ sendNum = 1))
    (hg : g ≤ sendNum - share r sendNum q rest) : min q g ≤ share r sendNum q rest := by
  have hm : sendNum * 81 / 100 ≤ sendNum * r / 100 := Int.ediv_le_ediv (by norm_num) (by gcongr)
  rw [share] at hg ⊢
  omega

/-- A single credit is left to the others. -/
theorem share_one (hr₀ : 0 ≤ r) (hr₁ : r < 100) (hq : 0 ≤ q) (hrest : 0 < rest) :
    share r 1 q rest = 0 := by
  rw [share]
  omega

/-- The others, which are given `gs`, are never given more than a category that could use more,
    unless there is a single credit. -/
theorem share_iff (hr₀ : 81 ≤ r) (hr₁ : r < 100) (hsend : 0 ≤ sendNum) (hle : sendNum ≤ q + rest)
    (hrest : 0 ≤ rest) {gs : List ℤ} (hgs : ∀ g ∈ gs, 0 ≤ g)
    (hfp : fp = share r sendNum q rest) (hsum : gs.sum = sendNum - fp) :
    (∀ g ∈ gs, min q g ≤ fp) ↔ ¬(0 < q ∧ 0 < rest ∧ sendNum = 1) := by
  rw [hfp] at hsum ⊢
  constructor
  · rintro h ⟨hq, hrest, rfl⟩
    rw [share_one (by omega) hr₁ hq.le hrest] at h hsum
    -- Some other category gets the credit.
    obtain ⟨g, hg, hne⟩ : ∃ g ∈ gs, g ≠ 0 := by
      by_contra hnone
      push Not at hnone
      rw [List.sum_eq_zero hnone] at hsum
      omega
    have hpos := hgs g hg
    have hle := h g hg
    omega
  · intro hone g hg
    exact le_share hr₀ hsend hle hrest hone (hsum ▸ List.single_le_sum hgs g hg)

/-- What is moved from a category with a ratio, and what is left to the others. -/
theorem moved_share (hnum : ∀ q, 0 ≤ num q) (hi : i ∉ is) (hr : ratio i = some r) (hr₀ : 0 ≤ r)
    (hr₁ : r ≤ 100) (hrest : rest = (is.map (qListNum num)).sum) (hsend : 0 ≤ sendNum)
    (hle : sendNum ≤ qListNum num i + rest)
    (hsmall : sendNum * (qListNum num i + rest) < 2 ^ 31)
    (hfp : fp = share r sendNum (qListNum num i) rest) :
    moved (qosShares num (i :: is) sendNum (qListNum num i + rest)) i = fp ∧
      ∀ i', i' ≠ i → moved (qosShares num (i :: is) sendNum (qListNum num i + rest)) i' =
        moved (qosShares num is (sendNum - fp) rest) i' := by
  have hq := qListNum_nonneg hnum i
  have hnonneg : 0 ≤ rest := hrest ▸ sum_map_nonneg (qListNum_nonneg hnum) is
  obtain ⟨hpos, hleq, hles, -⟩ := share_le hr₀ hr₁ hsend hle hq hnonneg
  have hnum' (hsend : 0 < sendNum) (hq : 0 < qListNum num i) :
      fpNum i sendNum (qListNum num i + rest) (qListNum num i) = fp := by
    rw [hfp, fpNum_eq hr hr₀ hr₁ hsend hle hsmall hq hnonneg]
  have hcons := moved_cons hnum hi (hrest ▸ rfl) hsend hle hsmall hnum' fun hnone => by omega
  rwa [add_sub_cancel_left] at hcons

/-- A single credit is left to video exactly if there are few credits and voice has messages for
    all but one of them. -/
theorem share_vo_eq (hsend : 0 < sendNum) (hq : 0 ≤ q) (hrest : 2 ≤ rest) :
    sendNum - share 87 sendNum q rest = 1 ↔ sendNum ≤ 7 ∧ sendNum ≤ q + 1 := by
  rw [share]
  omega

/-- A single credit is left to best effort exactly if the ratio of the voice leaves few credits and
    video has messages for all but one of them. -/
theorem share_vi_eq {p : ℤ} (hsend : 0 < sendNum) (hrest : 2 ≤ rest) (hq : 0 ≤ q)
    (ht : tot = sendNum - share 87 sendNum p (q + rest)) :
    tot - share 90 tot q rest = 1 ↔ sendNum - min (sendNum * 87 / 100) p ≤ 10 ∧
      sendNum - min (sendNum * 87 / 100) p ≤ q + 1 := by
  rw [share] at ht ⊢
  omega

/-- The last category gets all credits that are left. -/
theorem moved_last (hnum : ∀ q, 0 ≤ num q) (hsend : 0 ≤ sendNum)
    (hle : sendNum ≤ qListNum num .bk) (hsmall : sendNum * qListNum num .bk < 2 ^ 31) :
    moved (qosShares num [.bk] sendNum (qListNum num .bk)) .bk = sendNum := by
  refine (moved_cons hnum List.not_mem_nil (add_zero _).symm hsend hle hsmall (fun hsend hq => ?_)
    fun hnone => ?_).1
  · have hfp : fpByRatio .bk sendNum (qListNum num .bk) (qListNum num .bk) = sendNum :=
      (evenShare_le hsend hle hq le_rfl hsmall).2.2.2 rfl
    rw [fpNum, hfp]
    exact if_neg fun h => (sub_self (qListNum num .bk) ▸ h.2).ne rfl
  · have hq := qListNum_nonneg hnum .bk
    omega

/-! ## The four categories -/

/-- The credits of voice. -/
def voNum (q : Ac → ℤ) (sendNum : ℤ) : ℤ := share 87 sendNum (q .vo) (q .vi + (q .be + q .bk))

/-- The credits of video. -/
def viNum (q : Ac → ℤ) (sendNum : ℤ) : ℤ :=
  share 90 (sendNum - voNum q sendNum) (q .vi) (q .be + q .bk)

/-- The credits of best effort. -/
def beNum (q : Ac → ℤ) (sendNum : ℤ) : ℤ :=
  share 81 (sendNum - voNum q sendNum - viNum q sendNum) (q .be) (q .bk)

theorem total_acs (num : Queue → ℤ) :
    total num = qListNum num .vo + (qListNum num .vi + (qListNum num .be + qListNum num .bk)) := by
  rw [total]
  simp [acs]

/-- No category gets more credits than there are, and none leaves more than the others have
    messages. -/
theorem nums_le {q : Ac → ℤ} (hq : ∀ i, 0 ≤ q i) (hsend : 0 ≤ sendNum)
    (hle : sendNum ≤ q .vo + (q .vi + (q .be + q .bk))) :
    (0 ≤ voNum q sendNum ∧ sendNum - voNum q sendNum ≤ q .vi + (q .be + q .bk)) ∧
      (0 ≤ viNum q sendNum ∧ voNum q sendNum + viNum q sendNum ≤ sendNum ∧
        sendNum - voNum q sendNum - viNum q sendNum ≤ q .be + q .bk) ∧
      0 ≤ beNum q sendNum ∧ voNum q sendNum + viNum q sendNum + beNum q sendNum ≤ sendNum ∧
        sendNum - voNum q sendNum - viNum q sendNum - beNum q sendNum ≤ q .bk := by
  have hvi := hq .vi
  have hbe := hq .be
  have hbk := hq .bk
  obtain ⟨h₀, -, hs₀, hr₀⟩ := share_le (r := 87) (by norm_num) (by norm_num) hsend hle (hq .vo)
    (by omega)
  rw [← voNum] at h₀ hs₀ hr₀
  obtain ⟨h₁, -, hs₁, hr₁⟩ := share_le (r := 90) (by norm_num) (by norm_num)
    (sub_nonneg.2 hs₀) hr₀ (hq .vi) (by omega)
  rw [← viNum] at h₁ hs₁ hr₁
  obtain ⟨h₂, -, hs₂, hr₂⟩ := share_le (r := 81) (by norm_num) (by norm_num)
    (sub_nonneg.2 hs₁) hr₁ (hq .be) (hq .bk)
  rw [← beNum] at h₂ hs₂ hr₂
  omega

/-- What is moved from the categories. -/
theorem moved_acs (hnum : ∀ q, 0 ≤ num q) (hsend : 0 ≤ sendNum) (hle : sendNum ≤ total num)
    (hsmall : sendNum * total num < 2 ^ 31) {f : Ac → ℤ}
    (hf : f = moved (qosShares num acs sendNum (total num))) :
    f .vo = voNum (qListNum num) sendNum ∧ f .vi = viNum (qListNum num) sendNum ∧
      f .be = beNum (qListNum num) sendNum ∧
      f .vo + f .vi + f .be + f .bk = sendNum := by
  rw [total_acs] at hle hf hsmall
  obtain ⟨⟨h₀, hr₀⟩, ⟨h₁, hs₁, hr₁⟩, h₂, hs₂, hr₂⟩ :=
    nums_le (qListNum_nonneg hnum) hsend hle
  -- What is left to the lower categories is a part of the credits and of the messages.
  have hleft {a b : ℤ} (ha : a ≤ sendNum) (ha₀ : 0 ≤ a) (hb₀ : 0 ≤ b)
      (hb : b ≤ qListNum num .vo + (qListNum num .vi + (qListNum num .be + qListNum num .bk))) :
      a * b < 2 ^ 31 := mul_lt_of_mul_lt hsmall ha hb ha₀ hb₀
  have hq := qListNum_nonneg hnum
  have hqvo := hq .vo
  have hqvi := hq .vi
  have hqbe := hq .be
  have hqbk := hq .bk
  obtain ⟨hvo, hvos⟩ := moved_share hnum (show Ac.vo ∉ [.vi, .be, .bk] by decide) rfl
    (by norm_num) (by norm_num) (by simp) hsend hle hsmall
    (voNum.eq_1 (qListNum num) sendNum)
  obtain ⟨hvi, hvis⟩ := moved_share hnum (show Ac.vi ∉ [.be, .bk] by decide) rfl (by norm_num)
    (by norm_num) (by simp) (show 0 ≤ sendNum - voNum (qListNum num) sendNum by omega) hr₀
    (hleft (by omega) (by omega) (by omega) (by omega)) (viNum.eq_1 (qListNum num) sendNum)
  obtain ⟨hbe, hbes⟩ := moved_share hnum (show Ac.be ∉ [.bk] by decide) rfl (by norm_num)
    (by norm_num) (by simp)
    (show 0 ≤ sendNum - voNum (qListNum num) sendNum - viNum (qListNum num) sendNum by omega)
    hr₁ (hleft (by omega) (by omega) (by omega) (by omega)) (beNum.eq_1 (qListNum num) sendNum)
  have hbk := moved_last hnum (by omega) hr₂ (hleft (by omega) (by omega) hqbk (by omega))
  have hbk' : moved (qosShares num acs sendNum (qListNum num .vo + (qListNum num .vi +
      (qListNum num .be + qListNum num .bk)))) .bk = sendNum - voNum (qListNum num) sendNum -
        viNum (qListNum num) sendNum - beNum (qListNum num) sendNum :=
    (hvos .bk (by decide)).trans ((hvis .bk (by decide)).trans ((hbes .bk (by decide)).trans hbk))
  rw [hf, hbk', show acs = [.vo, .vi, .be, .bk] from rfl, hvo, hvos .vi (by decide), hvi,
    hvos .be (by decide), hvis .be (by decide), hbe]
  exact ⟨rfl, rfl, rfl, by ring⟩

theorem respects_acs {moves : List (Queue × ℤ)} :
    Respects num moves ↔
      (∀ g ∈ [moved moves .vi, moved moves .be, moved moves .bk],
        min (qListNum num .vo) g ≤ moved moves .vo) ∧
      (∀ g ∈ [moved moves .be, moved moves .bk], min (qListNum num .vi) g ≤ moved moves .vi) ∧
      ∀ g ∈ [moved moves .bk], min (qListNum num .be) g ≤ moved moves .be := by
  simp only [List.forall_mem_cons, List.not_mem_nil, false_imp_iff, implies_true, and_true]
  constructor
  · intro h
    exact ⟨⟨h .vo .vi (by decide), h .vo .be (by decide), h .vo .bk (by decide)⟩,
      ⟨h .vi .be (by decide), h .vi .bk (by decide)⟩, h .be .bk (by decide)⟩
  · rintro ⟨⟨hvi, hbe, hbk⟩, ⟨hbe', hbk'⟩, hbk''⟩ i i' hlt
    cases i <;> cases i' <;> first | exact absurd hlt (by decide) | assumption

/-- With fewer credits than messages, a category is passed over for a lower one exactly if it could
    use a single credit, its ratio of which is rounded down to none. -/
theorem respects_iff (hnum : ∀ q, 0 ≤ num q) (hpos : 0 < sendNum) (hlt : sendNum < total num)
    (hsmall : sendNum * total num < 2 ^ 31) :
    Respects num (qosShares num acs sendNum (total num)) ↔ ¬Inverts (qListNum num) sendNum := by
  have hq := qListNum_nonneg hnum
  obtain ⟨hvo, hvi, hbe, hsum⟩ := moved_acs hnum hpos.le hlt.le hsmall rfl
  rw [respects_acs]
  generalize moved (qosShares num acs sendNum (total num)) .bk = f at hsum ⊢
  rw [hvo, hvi, hbe] at hsum ⊢
  rw [total_acs] at hlt
  generalize qListNum num = q at hq hlt hsum ⊢
  have hvi := hq .vi
  have hbe := hq .be
  have hbk := hq .bk
  obtain ⟨⟨h₀, hr₀⟩, ⟨h₁, hs₁, hr₁⟩, h₂, hs₂, hr₂⟩ := nums_le hq hpos.le hlt.le
  have hf : 0 ≤ f := by omega
  have hiff₀ := share_iff (by norm_num) (by norm_num) hpos.le hlt.le (by omega)
    (show ∀ g ∈ [viNum q sendNum, beNum q sendNum, f], 0 ≤ g by simp [*]) (voNum.eq_1 q sendNum)
    (by simp only [List.sum_cons, List.sum_nil]; omega)
  have hiff₁ := share_iff (by norm_num) (by norm_num) (by omega) hr₀ (by omega)
    (show ∀ g ∈ [beNum q sendNum, f], 0 ≤ g by simp [*]) (viNum.eq_1 q sendNum)
    (by simp only [List.sum_cons, List.sum_nil]; omega)
  have hiff₂ := share_iff (by norm_num) (by norm_num) (by omega) hr₁ hbk
    (show ∀ g ∈ [f], 0 ≤ g by simp [*]) (beNum.eq_1 q sendNum)
    (by simp only [List.sum_cons, List.sum_nil]; omega)
  rw [hiff₀, hiff₁, hiff₂, Inverts, afterVo, not_or, not_or, add_assoc]
  refine and_congr_right fun _ => and_congr (not_congr ?_) (not_congr ?_)
  · refine and_congr_right fun hvi => and_congr_right fun hrest => ?_
    exact share_vo_eq hpos (hq .vo) (by omega)
  · refine and_congr_right fun hbe => and_congr_right fun hbk => ?_
    exact share_vi_eq hpos (by omega) hvi rfl

end

theorem respects_iff_voice :
    Respects (firstPeer 5 5 0 0) (qosShares (firstPeer 5 5 0 0) acs 3 10) ↔
      ¬Inverts (qListNum (firstPeer 5 5 0 0)) 3 := by
  have htotal : total (firstPeer 5 5 0 0) = 10 := by rfl
  have hnonneg : ∀ q, 0 ≤ firstPeer 5 5 0 0 q :=
    firstPeer_nonneg (by decide) (by decide) (by decide) (by decide)
  exact htotal ▸ respects_iff hnonneg (show (0 : ℤ) < 3 by decide) (by rw [htotal]; decide)
    (by decide)

/-- The single credit goes to video, with voice waiting. -/
theorem not_respects :
    ¬∀ (num : Queue → ℤ) (sendNum : ℤ), (∀ q, 0 ≤ num q) → 0 < sendNum → sendNum < total num →
      Respects num (qosShares num acs sendNum (total num)) := by
  intro h
  have htotal : total (firstPeer 5 5 0 0) = 10 := by rfl
  have hnonneg : ∀ q, 0 ≤ firstPeer 5 5 0 0 q :=
    firstPeer_nonneg (by decide) (by decide) (by decide) (by decide)
  have hvo := h (firstPeer 5 5 0 0) 1 hnonneg (by decide) (by rw [htotal]; decide) .vo .vi
    (by decide)
  rw [htotal] at hvo
  have hq : qListNum (firstPeer 5 5 0 0) .vo = 5 := by rfl
  have hvi : moved (qosShares (firstPeer 5 5 0 0) acs 1 10) .vi = 1 := by rfl
  have hnone : moved (qosShares (firstPeer 5 5 0 0) acs 1 10) .vo = 0 := by rfl
  rw [hq, hvi, hnone] at hvo
  exact absurd hvo (by decide)

end W132d.TxPool
