import W132d.TxPool.Basic

/-!
# The shares of the lists

If there are fewer credits than messages of a mode, the credits are shared out: first among the
categories, then among the peers of each of them. No list gets more credits than it has messages.

* `testSendNum_le`: at most 100 credits are shared out;
* `s32_mul`: no product overflows, if that of all credits and all messages does not;
* `fpNum_le`: the share of a category leaves no more credits than there are other messages;
* `mem_peerShares`, `mem_qosShares`: the shares of the lists;
* `qosShares_sublist`: no list has two.

The lemmas follow the loops from the inside out: a share by division of the credits in proportion to
the messages (`evenShare_le`), a share by a ratio (`ratioShare_le`), the credits of a category
(`fpNum_le`), the shares of its peers (`mem_peerShares`), and all shares (`mem_qosShares`). Each
says that what is given is neither more than there is of messages nor more than there is of credits,
and that what is left goes on with no more credits than messages, which is what the next turn needs.
-/

namespace W132d.TxPool

open Credit (u32 s32)

variable {num : Queue → ℤ} {i : Ac} {j : Fin maxLutNum} {js : List (Fin maxLutNum)} {is : List Ac}
  {x : Queue × ℤ} {sendNum tot q fp : ℤ}

theorem mem_luts (j : Fin maxLutNum) : j ∈ luts := List.mem_finRange j

theorem nodup_luts : luts.Nodup := List.nodup_finRange maxLutNum

theorem mem_acs (i : Ac) : i ∈ acs := by
  cases i <;> simp [acs]

theorem nodup_acs : acs.Nodup := by decide

theorem mem_queues (q : Queue) : q ∈ queues :=
  List.mem_flatMap.2 ⟨q.1, mem_acs q.1, List.mem_map.2 ⟨q.2, mem_luts q.2, rfl⟩⟩

theorem nodup_queues : queues.Nodup := by
  rw [queues, List.nodup_flatMap]
  refine ⟨fun i _ => nodup_luts.map fun j k h => (Prod.ext_iff.1 h).2, ?_⟩
  refine nodup_acs.pairwise_of_forall_ne fun i _ i' _ hne => ?_
  rw [Function.onFun, List.disjoint_left]
  intro x hx hx'
  obtain ⟨j, -, rfl⟩ := List.mem_map.1 hx
  obtain ⟨j', -, h⟩ := List.mem_map.1 hx'
  exact hne (Prod.ext_iff.1 h).1.symm

theorem sum_map_nonneg {α : Type*} {f : α → ℤ} (hf : ∀ a, 0 ≤ f a) (l : List α) :
    0 ≤ (l.map f).sum :=
  List.sum_nonneg (List.forall_mem_map.2 fun a _ => hf a)

/-- If there are fewer credits than messages, the credits that are shared out are at most 100. -/
theorem testSendNum_le {priv : Credit.Priv} {tx : Credit.TxMsg} {mode : Credit.Mode}
    (hlt : (Credit.testSendNum priv tx mode tot).2 < tot) :
    (Credit.testSendNum priv tx mode tot).2 ≤ 100 := by
  rw [Credit.testSendNum] at hlt ⊢
  split_ifs at hlt ⊢ with hnone hpcie hcredit
  · exact Int.zero_le_ofNat 100
  · exact absurd hlt (lt_irrefl _)
  · exact min_le_right ..
  · dsimp only
    have henomem : -Credit.enomem ≤ 100 := by decide
    split
    · exact henomem
    · split_ifs
      · exact henomem
      · exact (min_le_right ..).trans (min_le_right ..)

/-- A product of factors that are not greater than those of a product of 31 bits. -/
theorem mul_lt_of_mul_lt {a b c d : ℤ} (h : a * b < 2 ^ 31) (hca : c ≤ a) (hdb : d ≤ b)
    (hc : 0 ≤ c) (hd : 0 ≤ d) : c * d < 2 ^ 31 :=
  (mul_le_mul hca hdb hd (hc.trans hca)).trans_lt h

theorem s32_mul {a b : ℤ} (ha : 0 ≤ a) (hb : 0 ≤ b) (h : a * b < 2 ^ 31) : s32 (a * b) = a * b := by
  have hprod : 0 ≤ a * b := mul_nonneg ha hb
  exact Credit.s32_eq (by omega) h

/-- An even share of the credits is of no more messages than there are, of no more than there are
    credits, and of all credits if there are no other messages. -/
theorem evenShare_le (hsend : 0 < sendNum) (hle : sendNum ≤ tot) (hq : 0 < q) (hqt : q ≤ tot)
    (hsmall : sendNum * tot < 2 ^ 31) :
    0 ≤ (s32 (sendNum * q)).tdiv tot ∧ (s32 (sendNum * q)).tdiv tot ≤ q ∧
      (s32 (sendNum * q)).tdiv tot ≤ sendNum ∧
      (q = tot → (s32 (sendNum * q)).tdiv tot = sendNum) := by
  have hprod : 0 ≤ sendNum * q := by positivity
  rw [s32_mul hsend.le hq.le (mul_lt_of_mul_lt hsmall le_rfl hqt hsend.le hq.le),
    Int.tdiv_eq_ediv_of_nonneg hprod]
  refine ⟨Int.ediv_nonneg hprod (by omega), ?_, Int.ediv_le_of_le_mul (by omega) (by gcongr), ?_⟩
  · rw [mul_comm]
    exact Int.ediv_le_of_le_mul (by omega) (by gcongr)
  · rintro rfl
    exact Int.mul_ediv_cancel _ hq.ne'

/-- A share by a ratio of at most 100 is of no more messages than there are, and of no more than
    there are credits. -/
theorem ratioShare_le {r : ℤ} (hr₀ : 0 ≤ r) (hr₁ : r ≤ 100) (hsend : 0 < sendNum) (hq : 0 < q) :
    0 ≤ min (u32 (sendNum * r) / 100) q ∧ min (u32 (sendNum * r) / 100) q ≤ q ∧
      min (u32 (sendNum * r) / 100) q ≤ sendNum := by
  have hprod : 0 ≤ sendNum * r := by positivity
  have hu : 0 ≤ u32 (sendNum * r) ∧ u32 (sendNum * r) ≤ sendNum * r := by
    rw [u32]
    omega
  have hle : u32 (sendNum * r) / 100 ≤ sendNum :=
    Int.ediv_le_of_le_mul (by norm_num) (hu.2.trans (by gcongr))
  exact ⟨le_min (Int.ediv_nonneg hu.1 (by norm_num)) hq.le, min_le_right ..,
    (min_le_left ..).trans hle⟩

/-- The ratios of the driver are at most 100. -/
theorem ratio_le {r : ℤ} (h : ratio i = some r) : 0 ≤ r ∧ r ≤ 100 := by
  cases i with
  | vo => exact Option.some.inj h ▸ by decide
  | vi => exact Option.some.inj h ▸ by decide
  | be => exact Option.some.inj h ▸ by decide
  | bk => cases h

/-- By its ratio, a category gets no more credits than it has messages, nor than there are, and all
    credits if there are no other messages. -/
theorem fpByRatio_le (i : Ac) (hsend : 0 < sendNum) (hle : sendNum ≤ tot) (hq : 0 < q)
    (hqt : q ≤ tot) (hsmall : sendNum * tot < 2 ^ 31) :
    0 ≤ fpByRatio i sendNum tot q ∧ fpByRatio i sendNum tot q ≤ q ∧
      fpByRatio i sendNum tot q ≤ sendNum ∧ (q = tot → fpByRatio i sendNum tot q = sendNum) := by
  rw [fpByRatio]
  split
  · rename_i r hr
    split_ifs with hlt
    · obtain ⟨hnonneg, hleq, hles⟩ := ratioShare_le (ratio_le hr).1 (ratio_le hr).2 hsend hq
      exact ⟨hnonneg, hleq, hles, fun h => absurd h hlt.ne⟩
    · exact evenShare_le hsend hle hq hqt hsmall
  · exact evenShare_le hsend hle hq hqt hsmall

/-- The share of a category is of messages that it has and of credits that there are, and leaves no
    more credits than there are other messages. -/
theorem fpNum_le (i : Ac) (hsend : 0 < sendNum) (hle : sendNum ≤ tot) (hq : 0 < q)
    (hqt : q ≤ tot) (hsmall : sendNum * tot < 2 ^ 31) :
    0 ≤ fpNum i sendNum tot q ∧ fpNum i sendNum tot q ≤ q ∧ fpNum i sendNum tot q ≤ sendNum ∧
      sendNum - fpNum i sendNum tot q ≤ tot - q := by
  obtain ⟨hpos, hleq, hles, hall⟩ := fpByRatio_le i hsend hle hq hqt hsmall
  rw [fpNum]
  split_ifs <;> omega

/-- The share of a list of `p` messages, of a category that has `q` messages and `fp` credits. -/
theorem minNum_le (p q fp : ℤ) (hp : 0 < p) (hpq : p ≤ q) (hfp : fp ≤ q) (hpos : 0 < fp)
    (hsmall : q * fp < 2 ^ 31) :
    let round := (s32 (p * fp)).tdiv q
    let minNum := min (if fp > 0 ∧ round = 0 then 1 else round) fp
    0 < minNum ∧ minNum ≤ p ∧ fp - minNum ≤ q - p := by
  have hprod : 0 ≤ p * fp := by positivity
  rw [s32_mul hp.le hpos.le (mul_lt_of_mul_lt hsmall hpq le_rfl hp.le hpos.le),
    Int.tdiv_eq_ediv_of_nonneg hprod]
  have hround : p * fp / q ≤ p := Int.ediv_le_of_le_mul (by omega) (by gcongr)
  have hnonneg : 0 ≤ p * fp / q := Int.ediv_nonneg hprod (by omega)
  have hlow : fp - (q - p) ≤ p * fp / q := by
    -- `(q - p) * (q - fp)` is not negative.
    refine (Int.le_ediv_iff_mul_le (by omega)).2 ?_
    nlinarith [mul_nonneg (sub_nonneg.2 hpq) (sub_nonneg.2 hfp)]
  dsimp only
  split_ifs with hzero
  · refine ⟨lt_min one_pos hpos, (min_le_left ..).trans hp, ?_⟩
    rw [min_eq_left (by omega)]
    omega
  · have hone : 0 < p * fp / q := lt_of_le_of_ne hnonneg fun h => hzero ⟨hpos, h.symm⟩
    refine ⟨lt_min hone hpos, (min_le_left ..).trans hround, ?_⟩
    rcases min_choice (p * fp / q) fp with h | h
    all_goals
      rw [h]
      omega

/-- The shares of a category's lists: each is of at least one message, and of no more than the
    list has. -/
theorem mem_peerShares (hnum : ∀ q, 0 ≤ num q) (hq : q = (js.map fun j => num (i, j)).sum)
    (hfp : fp ≤ q) (hsmall : q * fp < 2 ^ 31) (hx : x ∈ peerShares num i js q fp) :
    0 < x.2 ∧ x.2 ≤ num x.1 := by
  induction js generalizing q fp with
  | nil => exact absurd hx List.not_mem_nil
  | cons j js ih =>
    rw [List.map_cons, List.sum_cons] at hq
    have hrest := sum_map_nonneg (fun j => hnum (i, j)) js
    rw [peerShares] at hx
    split_ifs at hx with hzero
    · exact ih (by omega) hfp hsmall hx
    dsimp only at hx
    have hp : 0 < num (i, j) := lt_of_le_of_ne (hnum _) (Ne.symm hzero)
    have hmin := min_le_right (if fp > 0 ∧ (s32 (num (i, j) * fp)).tdiv q = 0 then 1
      else (s32 (num (i, j) * fp)).tdiv q) fp
    generalize hm : min (if fp > 0 ∧ (s32 (num (i, j) * fp)).tdiv q = 0 then 1
      else (s32 (num (i, j) * fp)).tdiv q) fp = minNum at hx hmin
    split_ifs at hx with hnone hend
    · exact absurd hx List.not_mem_nil
    -- The list gets a share, so that there are credits.
    all_goals
      obtain ⟨hpos, hle, hleft⟩ := minNum_le _ q fp hp (by omega) hfp (by omega) hsmall
      rw [hm] at hpos hle hleft
    · rw [List.mem_singleton] at hx
      rw [hx]
      exact ⟨hpos, hle⟩
    · rcases List.mem_cons.1 hx with rfl | hx
      · exact ⟨hpos, hle⟩
      · exact ih (by omega) hleft
          (mul_lt_of_mul_lt hsmall (by omega) (by omega) (by omega) (by omega)) hx

/-- The shares of a category's lists are all of its credits. -/
theorem sum_peerShares (hnum : ∀ q, 0 ≤ num q) (hq : q = (js.map fun j => num (i, j)).sum)
    (hfp : fp ≤ q) (hpos : 0 ≤ fp) (hsmall : q * fp < 2 ^ 31) :
    ((peerShares num i js q fp).map Prod.snd).sum = fp := by
  induction js generalizing q fp with
  | nil =>
    rw [List.map_nil, List.sum_nil] at hq
    exact (le_antisymm (hq ▸ hfp) hpos).symm
  | cons j js ih =>
    rw [List.map_cons, List.sum_cons] at hq
    have hrest := sum_map_nonneg (fun j => hnum (i, j)) js
    rw [peerShares]
    split_ifs with hzero
    · exact ih (by omega) hfp hpos hsmall
    have hp : 0 < num (i, j) := lt_of_le_of_ne (hnum _) (Ne.symm hzero)
    rcases hpos.eq_or_lt with rfl | hpos
    · -- There are no credits, so that the first list ends the loop.
      dsimp only
      rw [if_pos (min_le_right _ 0)]
      rfl
    · obtain ⟨hone, -, hleft⟩ := minNum_le _ q fp hp (by omega) hfp hpos hsmall
      have hmin := min_le_right (if fp > 0 ∧ (s32 (num (i, j) * fp)).tdiv q = 0 then 1
        else (s32 (num (i, j) * fp)).tdiv q) fp
      dsimp only
      generalize min (if fp > 0 ∧ (s32 (num (i, j) * fp)).tdiv q = 0 then 1
        else (s32 (num (i, j) * fp)).tdiv q) fp = minNum at hone hleft hmin ⊢
      rw [if_neg (not_le.2 hone), List.map_cons, List.sum_cons]
      split_ifs with hend
      · rw [List.map_nil, List.sum_nil]
        omega
      · rw [ih (by omega) hleft (by omega)
          (mul_lt_of_mul_lt hsmall (by omega) (by omega) (by omega) (by omega))]
        omega

/-- The lists of a category get their shares in turn. -/
theorem peerShares_sublist :
    ((peerShares num i js q fp).map Prod.fst).Sublist (js.map fun j => (i, j)) := by
  induction js generalizing q fp with
  | nil => exact List.Sublist.slnil
  | cons j js ih =>
    rw [peerShares, List.map_cons]
    split_ifs with hzero
    · exact ih.cons _
    dsimp only
    generalize min (if fp > 0 ∧ (s32 (num (i, j) * fp)).tdiv q = 0 then 1
      else (s32 (num (i, j) * fp)).tdiv q) fp = minNum
    split_ifs
    · exact List.nil_sublist _
    · exact (List.nil_sublist _).cons_cons _
    · exact ih.cons_cons _

theorem qListNum_nonneg (hnum : ∀ q, 0 ≤ num q) (i : Ac) : 0 ≤ qListNum num i :=
  sum_map_nonneg (fun j => hnum (i, j)) luts

/-- The shares of the lists: each is of at least one message, and of no more than the list has. -/
theorem mem_qosShares (hnum : ∀ q, 0 ≤ num q) (htot : tot = (is.map (qListNum num)).sum)
    (hle : sendNum ≤ tot) (hsmall : sendNum * tot < 2 ^ 31)
    (hx : x ∈ qosShares num is sendNum tot) : 0 < x.2 ∧ x.2 ≤ num x.1 := by
  induction is generalizing sendNum tot with
  | nil => exact absurd hx List.not_mem_nil
  | cons i is ih =>
    have hq := qListNum_nonneg hnum i
    have hrest := sum_map_nonneg (qListNum_nonneg hnum) is
    rw [List.map_cons, List.sum_cons] at htot
    rw [qosShares] at hx
    split_ifs at hx with hzero hsend
    · exact ih (by omega) hle hsmall hx
    · exact absurd hx List.not_mem_nil
    · obtain ⟨hpos, hfp, hles, hleft⟩ :=
        fpNum_le i (not_le.1 hsend) hle (not_le.1 hzero) (by omega) hsmall
      rcases List.mem_append.1 hx with hx | hx
      · have hqt : qListNum num i ≤ tot := by omega
        rw [mul_comm] at hsmall
        exact mem_peerShares hnum rfl hfp (mul_lt_of_mul_lt hsmall hqt hles hq hpos) hx
      · exact ih (by omega) hleft
          (mul_lt_of_mul_lt hsmall (by omega) (by omega) (by omega) (by omega)) hx

/-- The categories get their shares in turn. -/
theorem qosShares_sublist :
    ((qosShares num is sendNum tot).map Prod.fst).Sublist
      (is.flatMap fun i => luts.map fun j => (i, j)) := by
  induction is generalizing sendNum tot with
  | nil => exact List.Sublist.slnil
  | cons i is ih =>
    rw [qosShares, List.flatMap_cons]
    split_ifs
    · exact ih.trans (List.sublist_append_right ..)
    · exact List.nil_sublist _
    · rw [List.map_append]
      exact peerShares_sublist.append ih

/-- If there are credits for all messages, a share is of all messages of a list. -/
theorem mem_allShares (hx : x ∈ allShares num) : x.2 = num x.1 := by
  obtain ⟨i, -, hx⟩ := List.mem_flatMap.1 hx
  split_ifs at hx
  · exact absurd hx List.not_mem_nil
  · obtain ⟨j, -, hx⟩ := List.mem_filterMap.1 hx
    split_ifs at hx
    rw [← Option.some.inj hx]

theorem allShares_sublist : ((allShares num).map Prod.fst).Sublist queues := by
  rw [allShares, queues, List.map_flatMap]
  refine List.Sublist.flatMap_right acs fun i _ => ?_
  split_ifs
  · exact List.nil_sublist _
  induction luts with
  | nil => exact List.Sublist.slnil
  | cons j js ih =>
    by_cases hzero : num (i, j) = 0
    · simpa [hzero] using ih.cons (i, j)
    · simpa [hzero] using ih

end W132d.TxPool
