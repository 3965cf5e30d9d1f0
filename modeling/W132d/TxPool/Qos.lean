import W132d.TxPool.Accounting

/-!
# Sharing out the credits

When a mode has more messages than there are credits, `sprdwl_tx_eachmode_data` shares the credits
out: first among the categories, in the order of their priorities, by ratios that a user may set,
then among the peers of a category.

* `qosCategories`: the two loops, with what they divide by and the products they form;
* `qosCategories_default`: with the ratios of the driver, they are the shares of the pool's machine;
* `credits_conserved`: they never divide by zero, leave no more credits than messages, take no more
  of a list than it has, and share out exactly the credits there are.

The products of two `int`s wrap around as they do in 32 bits, and are kept as a record besides, as
the integers that they are to be. None of them wraps as long as the credits times the messages is
within 31 bits, which the machine of the pool promises: it shares out at most 100 credits
(`testSendNum_le`) for fewer than 32768 messages (`tally_lNum_lt`).

How the theorem is proved: one category is taken at a time (`QosRun.Conserves.cons`). After the
correction, the credits of a category are within its messages and within what is there, and leave no
more than the other categories have messages (`corrected_le`); the last category takes all that is
left. Within a category, the peers are taken one at a time in the same way (`qosPeers_eq`), so that
no division is by zero: as long as there are credits left, there are messages left. The products are
bounded by that of all credits and all messages, as both only decrease.
-/

namespace W132d.TxPool

open Credit (u32 s32 Mode)

/-! ## The loops -/

/-- A division of C, which crashes if it is by zero. -/
def cdiv (a b : ℤ) : Option ℤ := if b = 0 then none else some (a.tdiv b)

/-- What the loops do: the messages they move, the credits and the messages that are left in every
    turn of the outer one, and the products they form. -/
structure QosRun where
  moves : List (Queue × ℤ)
  left : List (ℤ × ℤ)
  products : List ℤ

/-- The inner loop, over the peers of a category that has `q` messages and `fp` credits. -/
def qosPeers (num : Queue → ℤ) (i : Ac) :
    List (Fin maxLutNum) → ℤ → ℤ → Option (List (Queue × ℤ) × List ℤ)
  | [], _, _ => some ([], [])
  | j :: js, q, fp =>
    if num (i, j) = 0 then qosPeers num i js q fp
    else do
      let round ← cdiv (s32 (num (i, j) * fp)) q
      let round := if fp > 0 ∧ round = 0 then 1 else round
      let minNum := min round fp
      if minNum ≤ 0 then some ([], [num (i, j) * fp])
      else if fp - minNum ≤ 0 then some ([((i, j), minNum)], [num (i, j) * fp])
      else do
        let r ← qosPeers num i js (q - num (i, j)) (fp - minNum)
        some (((i, j), minNum) :: r.1, num (i, j) * fp :: r.2)

/-- The credits of a category before they are corrected, and the product that is formed for them.
    A product with a ratio is one of `unsigned int`s. -/
def qosRound (r : Option ℕ) (sendNum total q : ℤ) : Option (ℤ × List ℤ) :=
  match r with
  | some r =>
    if total > q then some (min (u32 (sendNum * r) / 100) q, [])
    else (cdiv (s32 (sendNum * q)) total).map fun fp => (fp, [sendNum * q])
  | none => (cdiv (s32 (sendNum * q)) total).map fun fp => (fp, [sendNum * q])

/-- The outer loop, over the categories. -/
def qosCategories (ratios : Ac → Option ℕ) (num : Queue → ℤ) : List Ac → ℤ → ℤ → Option QosRun
  | [], sendNum, total => some ⟨[], [(sendNum, total)], []⟩
  | i :: is, sendNum, total =>
    let q := qListNum num i
    if q ≤ 0 then qosCategories ratios num is sendNum total
    else if sendNum ≤ 0 then some ⟨[], [(sendNum, total)], []⟩
    else do
      let round ← qosRound (ratios i) sendNum total q
      let fp := round.1
      let fp := if total - q < sendNum - fp ∧ total - q > 0 then fp + (sendNum - fp - (total - q))
        else fp
      let peers ← qosPeers num i luts q fp
      let run ← qosCategories ratios num is (sendNum - fp) (total - q)
      some ⟨peers.1 ++ run.moves, (sendNum, total) :: run.left,
        round.2 ++ peers.2 ++ run.products⟩

/-- The ratios, of the categories that have one. -/
structure Ratios where
  vo : ℕ
  vi : ℕ
  be : ℕ

/-- `vo_ratio`, `vi_ratio` and `be_ratio`. -/
def Ratios.of (r : Ratios) : Ac → Option ℕ
  | .vo => some r.vo
  | .vi => some r.vi
  | .be => some r.be
  | .bk => none

/-- The ratios as the driver sets them. -/
def Ratios.default : Ratios := ⟨87, 90, 81⟩

section

variable {num : Queue → ℤ} {i : Ac} {js : List (Fin maxLutNum)} {is : List Ac}
  {sendNum tot q fp : ℤ} {ratios : Ac → Option ℕ}

theorem cdiv_of_pos {a b : ℤ} (hb : 0 < b) : cdiv a b = some (a.tdiv b) := if_neg hb.ne'

/-! ## One category -/

/-- The peers of a category are given their shares; no product is of more than all messages of the
    category times its credits. -/
theorem qosPeers_eq (hnum : ∀ q, 0 ≤ num q) (hq : q = (js.map fun j => num (i, j)).sum)
    (hfp : fp ≤ q) (hpos : 0 ≤ fp) (hsmall : q * fp < 2 ^ 31) :
    ∃ products, qosPeers num i js q fp = some (peerShares num i js q fp, products) ∧
      ∀ x ∈ products, 0 ≤ x ∧ x ≤ q * fp := by
  induction js generalizing q fp with
  | nil => exact ⟨[], rfl, fun x hx => absurd hx List.not_mem_nil⟩
  | cons j js ih =>
    rw [List.map_cons, List.sum_cons] at hq
    have hrest := sum_map_nonneg (fun j => hnum (i, j)) js
    rw [peerShares, qosPeers]
    -- A peer without messages is passed over.
    by_cases hzero : num (i, j) = 0
    · rw [if_pos hzero, if_pos hzero]
      exact ih (by omega) hfp hpos hsmall
    have hp : 0 < num (i, j) := lt_of_le_of_ne (hnum _) (Ne.symm hzero)
    have hprod : 0 ≤ num (i, j) * fp ∧ num (i, j) * fp ≤ q * fp :=
      ⟨by positivity, by gcongr; omega⟩
    rw [if_neg hzero, if_neg hzero, cdiv_of_pos (by omega)]
    simp only [Option.bind_eq_bind, Option.bind_some]
    generalize hmin : min (if fp > 0 ∧ (s32 (num (i, j) * fp)).tdiv q = 0 then 1
      else (s32 (num (i, j) * fp)).tdiv q) fp = minNum
    -- The credits are gone, this was the last peer, or there are others.
    split_ifs with hnone hend
    · exact ⟨_, rfl, fun x hx => List.mem_singleton.1 hx ▸ hprod⟩
    · exact ⟨_, rfl, fun x hx => List.mem_singleton.1 hx ▸ hprod⟩
    · have hle := min_le_right (if fp > 0 ∧ (s32 (num (i, j) * fp)).tdiv q = 0 then 1
        else (s32 (num (i, j) * fp)).tdiv q) fp
      obtain ⟨-, -, hleft⟩ := minNum_le _ q fp hp (by omega) hfp (by omega) hsmall
      rw [hmin] at hleft hle
      obtain ⟨products, heq, hproducts⟩ := ih (q := q - num (i, j)) (by omega) hleft (by omega)
        (mul_lt_of_mul_lt hsmall (by omega) (by omega) (by omega) (by omega))
      rw [heq]
      refine ⟨_, rfl, fun x hx => ?_⟩
      rcases List.mem_cons.1 hx with rfl | hx
      · exact hprod
      · obtain ⟨hx, hxle⟩ := hproducts x hx
        exact ⟨hx, hxle.trans (mul_le_mul (by omega) (by omega) (by omega) (by omega))⟩

/-- The credits of a category before the correction, with ratios of at most 100. -/
theorem qosRound_eq {r : Option ℕ} (hr : ∀ n, r = some n → n ≤ 100) (hsend : 0 < sendNum)
    (hle : sendNum ≤ tot) (hq : 0 < q) (hqt : q ≤ tot) (hsmall : sendNum * tot < 2 ^ 31) :
    ∃ round, qosRound r sendNum tot q = some round ∧
      (0 ≤ round.1 ∧ round.1 ≤ q ∧ round.1 ≤ sendNum ∧ (q = tot → round.1 = sendNum)) ∧
      ∀ x ∈ round.2, 0 ≤ x ∧ x ≤ sendNum * tot := by
  have hprod : 0 ≤ sendNum * q ∧ sendNum * q ≤ sendNum * tot := ⟨by positivity, by gcongr⟩
  -- Without a ratio, and for the last category, the credits are in proportion to the messages.
  have heven : ∃ round,
      (cdiv (s32 (sendNum * q)) tot).map (fun fp => (fp, [sendNum * q])) = some round ∧
      (0 ≤ round.1 ∧ round.1 ≤ q ∧ round.1 ≤ sendNum ∧ (q = tot → round.1 = sendNum)) ∧
      ∀ x ∈ round.2, 0 ≤ x ∧ x ≤ sendNum * tot := by
    rw [cdiv_of_pos (by omega)]
    exact ⟨_, rfl, evenShare_le hsend hle hq hqt hsmall,
      fun x hx => List.mem_singleton.1 hx ▸ hprod⟩
  unfold qosRound
  split
  · rename_i n
    split_ifs with hlt
    · have hn : (n : ℤ) ≤ 100 := by exact_mod_cast hr n rfl
      obtain ⟨hnonneg, hleq, hles⟩ := ratioShare_le (Nat.cast_nonneg n) hn hsend hq
      exact ⟨_, rfl, ⟨hnonneg, hleq, hles, fun h => absurd h hlt.ne⟩,
        fun x hx => absurd hx List.not_mem_nil⟩
    · exact heven
  · exact heven

/-! ## All categories -/

/-- The loops share out `sendNum` credits for the `tot` messages of the categories. -/
structure QosRun.Conserves (run : QosRun) (num : Queue → ℤ) (is : List Ac) (sendNum tot : ℤ) :
    Prop where
  /-- There are never more credits left than messages. -/
  left : ∀ x ∈ run.left, 0 ≤ x.1 ∧ x.1 ≤ x.2
  /-- No list gives more messages than it has. -/
  moves : ∀ x ∈ run.moves, 0 < x.2 ∧ x.2 ≤ num x.1
  /-- No list gives messages twice. -/
  sublist : (run.moves.map Prod.fst).Sublist (is.flatMap fun i => luts.map fun j => (i, j))
  /-- All credits are used. -/
  sum : (run.moves.map Prod.snd).sum = sendNum
  products : ∀ x ∈ run.products, 0 ≤ x ∧ x ≤ sendNum * tot

/-- The correction leaves no more credits than the other categories have messages. -/
theorem corrected_le (hpos : 0 ≤ fp) (hleq : fp ≤ q) (hles : fp ≤ sendNum)
    (hall : q = tot → fp = sendNum) (hle : sendNum ≤ tot) (hqt : q ≤ tot) :
    let fp' := if tot - q < sendNum - fp ∧ tot - q > 0 then fp + (sendNum - fp - (tot - q)) else fp
    0 ≤ fp' ∧ fp' ≤ q ∧ fp' ≤ sendNum ∧ sendNum - fp' ≤ tot - q := by
  dsimp only
  split_ifs <;> omega

/-- A category is given its credits, and the others share out what is left. -/
theorem QosRun.Conserves.cons (hnum : ∀ q, 0 ≤ num q) {run : QosRun} {round products : List ℤ}
    (hpos : 0 ≤ fp) (hleq : fp ≤ qListNum num i) (hles : fp ≤ sendNum)
    (hqt : qListNum num i ≤ tot) (hle : sendNum ≤ tot) (hsmall : sendNum * tot < 2 ^ 31)
    (hround : ∀ x ∈ round, 0 ≤ x ∧ x ≤ sendNum * tot)
    (hproducts : ∀ x ∈ products, 0 ≤ x ∧ x ≤ qListNum num i * fp)
    (hcons : run.Conserves num is (sendNum - fp) (tot - qListNum num i)) :
    QosRun.Conserves ⟨peerShares num i luts (qListNum num i) fp ++ run.moves,
      (sendNum, tot) :: run.left, round ++ products ++ run.products⟩ num (i :: is) sendNum tot := by
  have hq := qListNum_nonneg hnum i
  have hpeers : qListNum num i * fp < 2 ^ 31 :=
    mul_lt_of_mul_lt (mul_comm sendNum tot ▸ hsmall) hqt hles hq hpos
  refine ⟨fun x hx => ?_, fun x hx => ?_, ?_, ?_, fun x hx => ?_⟩
  · rcases List.mem_cons.1 hx with rfl | hx
    · exact ⟨hpos.trans hles, hle⟩
    · exact hcons.left x hx
  · rcases List.mem_append.1 hx with hx | hx
    · exact mem_peerShares hnum rfl hleq hpeers hx
    · exact hcons.moves x hx
  · rw [List.map_append]
    exact peerShares_sublist.append hcons.sublist
  · have hsum : ((peerShares num i luts (qListNum num i) fp).map Prod.snd).sum = fp :=
      sum_peerShares hnum rfl hleq hpos hpeers
    rw [List.map_append, List.sum_append, hsum, hcons.sum]
    exact add_sub_cancel fp sendNum
  · -- No product is of more than all credits times all messages.
    have hmono {a b : ℤ} (ha : a ≤ tot) (hb : 0 ≤ b) (hbs : b ≤ sendNum) (ha' : 0 ≤ a) :
        a * b ≤ sendNum * tot := by
      rw [mul_comm]
      exact mul_le_mul hbs ha ha' (hb.trans hbs)
    rcases List.mem_append.1 hx with hx | hx
    · rcases List.mem_append.1 hx with hx | hx
      · exact hround x hx
      · obtain ⟨hx, hxle⟩ := hproducts x hx
        exact ⟨hx, hxle.trans (hmono hqt hpos hles hq)⟩
    · obtain ⟨hx, hxle⟩ := hcons.products x hx
      rw [mul_comm] at hxle
      exact ⟨hx, hxle.trans (hmono (by omega) (by omega) (by omega) (by omega))⟩

/-- The loops conserve the credits. -/
theorem qosCategories_conserves (hr : ∀ i n, ratios i = some n → n ≤ 100)
    (hnum : ∀ q, 0 ≤ num q) (htot : tot = (is.map (qListNum num)).sum) (hsend : 0 ≤ sendNum)
    (hle : sendNum ≤ tot) (hsmall : sendNum * tot < 2 ^ 31) :
    ∃ run, qosCategories ratios num is sendNum tot = some run ∧
      run.Conserves num is sendNum tot := by
  induction is generalizing sendNum tot with
  | nil =>
    rw [List.map_nil, List.sum_nil] at htot
    refine ⟨_, rfl, fun x hx => ?_, fun x hx => absurd hx List.not_mem_nil, List.nil_sublist _, ?_,
      fun x hx => absurd hx List.not_mem_nil⟩
    · rw [List.mem_singleton.1 hx]
      exact ⟨hsend, hle⟩
    · exact (le_antisymm (htot ▸ hle) hsend).symm
  | cons i is ih =>
    have hq := qListNum_nonneg hnum i
    have hrest := sum_map_nonneg (qListNum_nonneg hnum) is
    rw [List.map_cons, List.sum_cons] at htot
    -- A category without messages is passed over, and without credits the loop ends.
    by_cases hzero : qListNum num i ≤ 0
    · have htot' : tot = (is.map (qListNum num)).sum := by omega
      obtain ⟨run, hrun, hcons⟩ := ih htot' hsend hle hsmall
      refine ⟨run, (if_pos hzero).trans hrun, hcons.left, hcons.moves, ?_, hcons.sum,
        hcons.products⟩
      exact hcons.sublist.trans (List.sublist_append_right ..)
    by_cases hnone : sendNum ≤ 0
    · refine ⟨⟨[], [(sendNum, tot)], []⟩, (if_neg hzero).trans (if_pos hnone), fun x hx => ?_,
        fun x hx => absurd hx List.not_mem_nil, List.nil_sublist _, le_antisymm hsend hnone,
        fun x hx => absurd hx List.not_mem_nil⟩
      rw [List.mem_singleton.1 hx]
      exact ⟨hsend, hle⟩
    have hqt : qListNum num i ≤ tot := by omega
    obtain ⟨round, hround, ⟨hnonneg, hleq, hles, hall⟩, hrounds⟩ := qosRound_eq (hr i)
      (not_le.1 hnone) hle (not_le.1 hzero) hqt hsmall
    obtain ⟨hpos, hleq, hles, hleft⟩ := corrected_le hnonneg hleq hles hall hle hqt
    generalize hcorrect : (if tot - qListNum num i < sendNum - round.1 ∧ tot - qListNum num i > 0
      then round.1 + (sendNum - round.1 - (tot - qListNum num i)) else round.1) = fp
      at hpos hleq hles hleft
    have htot' : tot - qListNum num i = (is.map (qListNum num)).sum := by omega
    obtain ⟨products, hpeers, hproducts⟩ := qosPeers_eq hnum (qListNum.eq_1 num i) hleq hpos
      (mul_lt_of_mul_lt (mul_comm sendNum tot ▸ hsmall) hqt hles hq hpos)
    obtain ⟨run, hrun, hcons⟩ := ih htot' (sub_nonneg.2 hles) hleft
      (mul_lt_of_mul_lt hsmall (by omega) (by omega) (by omega) (by omega))
    refine ⟨_, ?_, hcons.cons hnum hpos hleq hles hqt hle hsmall hrounds hproducts⟩
    rw [qosCategories]
    dsimp only
    rw [if_neg hzero, if_neg hnone, hround]
    simp only [Option.bind_eq_bind, Option.bind_some]
    rw [hcorrect, hpeers, Option.bind_some, hrun, Option.bind_some]

/-! ## The ratios of the driver -/

theorem default_of (i : Ac) : (Ratios.default.of i).map (Nat.cast (R := ℤ)) = ratio i := by
  cases i <;> rfl

/-- The credits of a category, with the ratios of the driver. -/
theorem qosRound_default {round : ℤ × List ℤ} (htot : 0 < tot)
    (h : qosRound (Ratios.default.of i) sendNum tot q = some round) :
    round.1 = fpByRatio i sendNum tot q := by
  rw [fpByRatio, ← default_of]
  unfold qosRound at h
  rw [cdiv_of_pos htot] at h
  split at h
  · rename_i r hr
    rw [hr, Option.map_some]
    dsimp only
    split_ifs at h ⊢
    · rw [← Option.some.inj h]
    · rw [← Option.some.inj h]
  · rename_i hr
    rw [hr, Option.map_none, ← Option.some.inj h]

/-- With the ratios of the driver, the loops move the shares of the machine of the pool. -/
theorem qosCategories_default (hnum : ∀ q, 0 ≤ num q) (htot : tot = (is.map (qListNum num)).sum)
    (hle : sendNum ≤ tot) (hsmall : sendNum * tot < 2 ^ 31) {run : QosRun}
    (h : qosCategories Ratios.default.of num is sendNum tot = some run) :
    run.moves = qosShares num is sendNum tot := by
  induction is generalizing sendNum tot run with
  | nil => rw [← Option.some.inj h, qosShares]
  | cons i is ih =>
    have hrest := sum_map_nonneg (qListNum_nonneg hnum) is
    rw [List.map_cons, List.sum_cons] at htot
    rw [qosCategories] at h
    rw [qosShares]
    dsimp only at h ⊢
    have hq := qListNum_nonneg hnum i
    split_ifs at h ⊢ with hzero hnone
    · exact ih (by omega) hle hsmall h
    · rw [← Option.some.inj h]
    · simp only [Option.bind_eq_bind, Option.bind_eq_some_iff] at h
      obtain ⟨round, hround, peers, hpeers, rest, hrest', hrun⟩ := h
      -- The ratios are those of `fpNum`.
      have hfp : fpNum i sendNum tot (qListNum num i) =
          if tot - qListNum num i < sendNum - round.1 ∧ tot - qListNum num i > 0
          then round.1 + (sendNum - round.1 - (tot - qListNum num i)) else round.1 := by
        rw [fpNum, ← qosRound_default (by omega) hround]
      have hqt : qListNum num i ≤ tot := by omega
      obtain ⟨hnonneg, hleq, hles, hleft⟩ :=
        fpNum_le i (not_le.1 hnone) hle (not_le.1 hzero) hqt hsmall
      rw [← hfp] at hpeers hrest'
      obtain ⟨products, hpeers', -⟩ :=
        qosPeers_eq (q := qListNum num i) hnum rfl hleq hnonneg
          (mul_lt_of_mul_lt (mul_comm sendNum tot ▸ hsmall) hqt hles hq hnonneg)
      rw [← Option.some.inj hrun, ih (by omega) hleft
        (mul_lt_of_mul_lt hsmall (by omega) (by omega) (by omega) (by omega)) hrest',
        Option.some.inj (hpeers.symm.trans hpeers')]

/-! ## What is moved -/

variable {s : State} {mode : Mode}

/-- Shares of different lists, none of which is of more messages than its list has, are moved to
    the send list. -/
theorem length_toSend {shares : List (Queue × ℤ)} (hnodup : (shares.map Prod.fst).Nodup)
    (hle : ∀ x ∈ shares, 0 < x.2 ∧ x.2 ≤ (s.list mode x.1).headList.length) :
    ((shares.foldl (addXmitListTail mode) s).toSend.length : ℤ) =
      s.toSend.length + (shares.map Prod.snd).sum := by
  induction shares generalizing s with
  | nil => exact (add_zero _).symm
  | cons x shares ih =>
    obtain ⟨q, n⟩ := x
    rw [List.map_cons, List.nodup_cons] at hnodup
    rw [List.forall_mem_cons] at hle
    have hmoved : ((addXmitListTail mode s (q, n)).toSend.length : ℤ) = s.toSend.length + n := by
      have hn : 0 < n ∧ n ≤ (s.list mode q).headList.length := hle.1
      rw [addXmitListTail, cut, if_pos hn]
      change ((s.toSend ++ (s.list mode q).headList.take n.toNat).length : ℤ) = _
      rw [List.length_append, List.length_take, Nat.cast_add]
      omega
    rw [List.foldl_cons, ih hnodup.2 fun x hx => ?_, hmoved, List.map_cons, List.sum_cons]
    · ring
    · rw [addXmitListTail_list fun heq => hnodup.1 (List.mem_map.2 ⟨x, hx, heq⟩)]
      exact hle.2 x hx

/-- With ratios of at most 100, the loops never divide by zero; there are never more credits left
    than messages; no list gives more messages than it has, nor twice; and exactly as many messages
    are moved to the send list as there are credits. No product is of more than the credits times
    the messages, so that none overflows. -/
theorem credits_conserved (hnum : ∀ q, 0 ≤ num q) (hpos : 0 < sendNum) (hlt : sendNum < total num)
    (hsmall : sendNum * total num < 2 ^ 31) {r : Ratios} (hvo : r.vo ≤ 100) (hvi : r.vi ≤ 100)
    (hbe : r.be ≤ 100) :
    ∃ run, qosCategories r.of num acs sendNum (total num) = some run ∧
      (∀ x ∈ run.left, 0 ≤ x.1 ∧ x.1 ≤ x.2) ∧
      (run.moves.map Prod.fst).Nodup ∧ (∀ x ∈ run.moves, 0 < x.2 ∧ x.2 ≤ num x.1) ∧
      (run.moves.map Prod.snd).sum = sendNum ∧
      (∀ x ∈ run.products, 0 ≤ x ∧ x ≤ sendNum * total num) ∧
      ∀ (s : State) (mode : Mode), (∀ q, num q ≤ (s.list mode q).headList.length) →
        ((run.moves.foldl (addXmitListTail mode) s).toSend.length : ℤ) =
          s.toSend.length + sendNum := by
  have hr (i : Ac) (n : ℕ) (h : r.of i = some n) : n ≤ 100 := by
    cases i with
    | vo => exact Option.some.inj h ▸ hvo
    | vi => exact Option.some.inj h ▸ hvi
    | be => exact Option.some.inj h ▸ hbe
    | bk => exact absurd h (by simp [Ratios.of])
  obtain ⟨run, hrun, hcons⟩ := qosCategories_conserves hr hnum rfl hpos.le hlt.le hsmall
  have hnodup : (run.moves.map Prod.fst).Nodup := hcons.sublist.nodup nodup_queues
  refine ⟨run, hrun, hcons.left, hnodup, hcons.moves, hcons.sum, hcons.products,
    fun s mode hlists => ?_⟩
  rw [length_toSend hnodup fun x hx => ?_, hcons.sum]
  exact ⟨(hcons.moves x hx).1, (hcons.moves x hx).2.trans (hlists x.1)⟩

end

/-- Messages of the first peer, in the four categories. -/
def firstPeer (vo vi be bk : ℤ) : Queue → ℤ
  | (.vo, ⟨0, _⟩) => vo
  | (.vi, ⟨0, _⟩) => vi
  | (.be, ⟨0, _⟩) => be
  | (.bk, ⟨0, _⟩) => bk
  | _ => 0

theorem firstPeer_nonneg {vo vi be bk : ℤ} (hvo : 0 ≤ vo) (hvi : 0 ≤ vi) (hbe : 0 ≤ be)
    (hbk : 0 ≤ bk) (q : Queue) : 0 ≤ firstPeer vo vi be bk q := by
  unfold firstPeer
  split
  · exact hvo
  · exact hvi
  · exact hbe
  · exact hbk
  · exact le_rfl

theorem credits_conserved_default :
    ∃ run, qosCategories Ratios.default.of (firstPeer 3 3 3 3) acs 7 12 = some run ∧
      (run.moves.map Prod.snd).sum = 7 := by
  have htotal : total (firstPeer 3 3 3 3) = 12 := by rfl
  have hnonneg : ∀ q, 0 ≤ firstPeer 3 3 3 3 q :=
    firstPeer_nonneg (by decide) (by decide) (by decide) (by decide)
  have hlt : 7 < total (firstPeer 3 3 3 3) := by rw [htotal]; decide
  obtain ⟨run, hrun, -, -, -, hsum, -⟩ := credits_conserved (r := .default) hnonneg
    (show (0 : ℤ) < 7 by decide) hlt (by rw [htotal]; decide) (by decide) (by decide) (by decide)
  exact ⟨run, htotal ▸ hrun, hsum⟩

end W132d.TxPool
