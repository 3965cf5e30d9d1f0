import W132d.Machine

/-!
# Admitted medium time

With admission control, the access point admits a traffic stream with a medium time, which adds up
for each access category (`qos.c`). Packets of a category use its time up, and it is not available
once they have. Every second, the EDCA timer gives the voice and the video category their time
back, and arms itself again.

* `updateAdmittedTime`: a stream is added or removed. The first one arms the timer, and one that
  takes the last time of a category deletes it;
* `changePriorityIf`: the category of a packet, which takes the packet's time;
* `wmmac`: the machine of streams, packets, expiries of the timer and resets;
* `replenished_iff`: the timer is pending whenever the voice or the video category has time exactly
  in the runs in which no stream takes the last time of a category while the other one has some.

How the theorem is proved: the timer is pending or not, and each category has a time or not. Adding
a stream arms the timer; removing one deletes it if the time of its category becomes zero, whatever
the other category has. So the two agree after a step exactly if they did before and the step does
not take the last time of a category while the other one has some. The reset stops the timer with
all times.
-/

namespace W132d.Wmmac

/-! ## Data -/

/-- `edca_ac_t`. -/
inductive Ac where
  | bk
  | be
  | vi
  | vo
  deriving DecidableEq, Repr

/-- `NUM_TID`. -/
def numTid : ℕ := 16

/-- `WMM_AC_ACM`. -/
def wmmAcAcm : UInt8 := 0x10

/-- `ip_pkt_prio_t`, the priorities of the categories. -/
def prio0 : UInt8 := 0

@[inherit_doc prio0] def prio1 : UInt8 := 1
@[inherit_doc prio0] def prio4 : UInt8 := 4
@[inherit_doc prio0] def prio6 : UInt8 := 6

/-- `qos_head_type_t`, the queues. -/
inductive QosIndex where
  | vo
  | vi
  | be
  | bk
  /-- `SPRDWL_AC_MAX`, for a packet that is dropped. -/
  | max
  deriving DecidableEq, Repr

/-- `struct wmm_ac_ts_t`, a traffic stream. -/
structure TsInfo where
  exist : Bool
  ac : Ac
  up : UInt8
  admittedTime : UInt16
  deriving DecidableEq, Repr

/-- A stream whose memory was set to zero. -/
def TsInfo.zero : TsInfo := ⟨false, .bk, 0, 0⟩

/-- `struct dscp_exception`. -/
structure DscpException where
  dscp : UInt8
  up : UInt8
  deriving DecidableEq, Repr

/-- `struct qos_map_range`. -/
structure QosMapRange where
  low : UInt8
  high : UInt8
  up : UInt8
  deriving DecidableEq, Repr

/-- `struct qos_map_set`. -/
structure QosMapSet where
  qosExceptions : List DscpException
  qosRanges : List QosMapRange
  deriving DecidableEq, Repr

/-- `QOS_MAP_MAX_DSCP_EXCEPTION`. -/
def qosMapMaxDscpException : ℕ := 21

/-- `init_default_qos_map`. -/
def initDefaultQosMap : QosMapSet where
  qosExceptions := List.replicate qosMapMaxDscpException ⟨0xFF, prio0⟩
  qosRanges :=
    [⟨0x0, 0x0, prio0⟩, ⟨0x3, 0x3, prio0⟩, ⟨0x1, 0x2, prio1⟩, ⟨0x4, 0x5, prio4⟩,
      ⟨0x6, 0x7, prio6⟩, ⟨0, 0, 0⟩, ⟨0, 0, 0⟩, ⟨0, 0, 0⟩]

/-- The globals of `qos.c`, `aci_aifsn` of the parameters in `priv->wmmac.ac`, and whether
    `wmmac_edcaf_timer` is pending. -/
structure State where
  available : Ac → Bool
  admittedtime : Ac → UInt32
  usedtime : Ac → UInt32
  staTsInfo : UInt8 → TsInfo
  ratio : UInt32
  qosEnable : UInt32
  qosMap : QosMapSet
  aciAifsn : Ac → UInt8
  edcafTimer : Bool

/-- The driver after `wmm_ac_init`. -/
def State.init : State where
  available := fun _ => false
  admittedtime := fun _ => 0
  usedtime := fun _ => 0
  staTsInfo := fun _ => .zero
  ratio := 10
  qosEnable := 0
  qosMap := initDefaultQosMap
  aciAifsn := fun _ => 0
  edcafTimer := false

/-! ## Functions -/

section

variable (s : State)

/-- `reset_wmmac_parameters`. -/
def resetWmmacParameters : State :=
  { s with
    usedtime := fun _ => 0
    available := fun _ => false
    admittedtime := fun _ => 0
    edcafTimer := false
    aciAifsn := fun _ => 0 }

/-- `map_priority_to_edca_ac`. -/
def mapPriorityToEdcaAc (priority : UInt8) : Ac :=
  if priority = 1 ∨ priority = 2 then .bk
  else if priority = 4 ∨ priority = 5 then .vi
  else if priority = 6 ∨ priority = 7 then .vo
  else .be

/-- `map_edca_ac_to_priority`. -/
def mapEdcaAcToPriority : Ac → UInt8
  | .bk => prio1
  | .vi => prio4
  | .vo => prio6
  | .be => prio0

/-- `update_wmmac_ts_info`, or `none` if it writes behind the array. -/
def updateWmmacTsInfo (tsid up : UInt8) (ac : Ac) (status : Bool) (admittedTime : UInt16) :
    Option State :=
  if tsid.toNat < numTid then
    some { s with staTsInfo := Function.update s.staTsInfo tsid ⟨status, ac, up, admittedTime⟩ }
  else none

/-- `remove_wmmac_ts_info`. -/
def removeWmmacTsInfo (tsid : UInt8) : Option State :=
  if tsid.toNat < numTid then
    some { s with staTsInfo := Function.update s.staTsInfo tsid .zero }
  else none

/-- `reset_wmmac_ts_info`. -/
def resetWmmacTsInfo : State := { s with staTsInfo := fun _ => .zero }

/-- The end of `update_admitted_time`, which compares the times of a category. -/
def compareTimes (ac : Ac) : State :=
  { s with
    available := Function.update s.available ac (decide (s.usedtime ac < s.admittedtime ac)) }

/-- The microseconds of a medium time, which is in units of 32 microseconds. -/
def microseconds (mediumTime : UInt16) : UInt32 := mediumTime.toUInt32 <<< 5

/-- `update_admitted_time`. -/
def updateAdmittedTime (tsid : UInt8) (mediumTime : UInt16) (increase : Bool) : Option State :=
  if tsid.toNat < numTid then
    let ac := (s.staTsInfo tsid).ac
    let time := s.admittedtime ac
    if increase then
      some (compareTimes
        { s with
          admittedtime := Function.update s.admittedtime ac (time + microseconds mediumTime)
          edcafTimer := true } ac)
    else if time > microseconds mediumTime then
      some (compareTimes
        { s with
          admittedtime := Function.update s.admittedtime ac (time - microseconds mediumTime) } ac)
    else
      -- The timer is deleted, whatever the other category has.
      some (compareTimes
        { s with
          admittedtime := Function.update s.admittedtime ac 0
          edcafTimer := false } ac)
  else none

/-- What `update_wmmac_edcaftime_timeout` does for a category. -/
def giveBack (ac : Ac) : State :=
  if s.admittedtime ac > 0 then
    { s with
      usedtime := Function.update s.usedtime ac 0
      available := Function.update s.available ac true }
  else s

/-- `update_wmmac_edcaftime_timeout`. -/
def updateWmmacEdcaftimeTimeout : State := giveBack (giveBack { s with edcafTimer := true } .vo) .vi

/-- The categories above the last one, from `ac` down. -/
def Ac.downFrom : Ac → List Ac
  | .bk => []
  | .be => [.be]
  | .vi => [.vi, .be]
  | .vo => [.vo, .vi, .be]

/-- The loop of `change_priority_if` over the categories that are left, with the category of the
    packet, or `none` if it is dropped. -/
def downgrade (len : UInt16) : List Ac → State × Option Ac
  | [] => (s, some .bk)
  | ac :: left =>
    if s.aciAifsn ac &&& wmmAcAcm ≠ 0 then
      if s.available ac then
        let used := (len.toUInt32 + 4) * 8 * s.ratio / 10 / 54
        (compareTimes { s with
          usedtime := Function.update s.usedtime ac (s.usedtime ac + used) } ac, some ac)
      else if s.usedtime ac ≠ 0 then (s, none)
      else downgrade len left
    else (s, some ac)

/-- The priority that the QoS map gives a code point, if it has it. -/
def QosMapSet.up (map : QosMapSet) (dscp : UInt8) : Option UInt8 :=
  match map.qosExceptions.find? (·.dscp = dscp) with
  | some e => some e.up
  | none => (map.qosRanges.find? fun r => r.low ≤ dscp ∧ dscp ≤ r.high).map (·.up)

/-- The queue of a priority. -/
def qosIndexOf (tid : UInt8) : QosIndex :=
  if tid = prio1 then .bk else if tid = prio4 then .vi else if tid = prio6 then .vo else .be

/-- `change_priority_if`, with the queue and the priority of the packet. -/
def changePriorityIf (tid tos : UInt8) (len : UInt16) : State × QosIndex × UInt8 :=
  let (s, ac) :=
    if s.qosEnable = 1 then
      let (s, ac) := downgrade s len (mapPriorityToEdcaAc tid).downFrom
      (s, ac.map mapEdcaAcToPriority)
    else (s, some tid)
  match ac with
  | none => (s, .max, tid)
  | some tid =>
    let tid := (s.qosMap.up (tos >>> 2)).getD tid
    (s, qosIndexOf tid, tid)

end

/-! ## The machine -/

/-- What happens. -/
inductive Event where
  | updateTsInfo (tsid up : UInt8) (ac : Ac) (status : Bool) (admittedTime : UInt16)
  | removeTsInfo (tsid : UInt8)
  | updateAdmittedTime (tsid : UInt8) (mediumTime : UInt16) (increase : Bool)
  /-- The EDCA timer expires. -/
  | edcafTimeout
  | resetParameters
  | resetTsInfo
  /-- A packet is sent. -/
  | changePriority (tid tos : UInt8) (len : UInt16)
  /-- The parameters of an association. -/
  | associate (aciAifsn : Ac → UInt8)
  /-- `qos_enable`. -/
  | qosEnable (flag : UInt32)
  /-- `adjust_qos_ratio`. -/
  | adjustRatio (ratio : UInt32)
  | initDefaultQosMap

/-- The driver. Only a timer that is pending expires. -/
def wmmac : Machine State Event where
  step s
    | .updateTsInfo tsid up ac status admittedTime =>
      updateWmmacTsInfo s tsid up ac status admittedTime
    | .removeTsInfo tsid => removeWmmacTsInfo s tsid
    | .updateAdmittedTime tsid mediumTime increase => updateAdmittedTime s tsid mediumTime increase
    | .edcafTimeout => if s.edcafTimer then some (updateWmmacEdcaftimeTimeout s) else none
    | .resetParameters => some (resetWmmacParameters s)
    | .resetTsInfo => some (resetWmmacTsInfo s)
    | .changePriority tid tos len => some (changePriorityIf s tid tos len).1
    | .associate aciAifsn => some { s with aciAifsn := aciAifsn }
    | .qosEnable flag => some { s with qosEnable := flag }
    | .adjustRatio ratio => some { s with ratio := ratio }
    | .initDefaultQosMap => some { s with qosMap := initDefaultQosMap }

/-- `sprdwl_add_tx_ts`, once it has a message. -/
def sprdwlAddTxTs (tsid userPrio : UInt8) (admittedTime : UInt16) : List Event :=
  [.updateTsInfo tsid userPrio (mapPriorityToEdcaAc userPrio) true admittedTime,
    .updateAdmittedTime tsid admittedTime true]

/-- `sprdwl_del_tx_ts`, once it has a message. Its medium time is that of the message, which was
    set to zero. -/
def sprdwlDelTxTs (tsid : UInt8) : List Event :=
  [.updateAdmittedTime tsid 0 false, .removeTsInfo tsid]

/-! ## Replenishment -/

/-- The categories that the timer gives their time back. -/
def timed : List Ac := [.vo, .vi]

/-- The timer is pending if a timed category has time. -/
def Replenished (s : State) : Prop := (∃ c ∈ timed, 0 < s.admittedtime c) → s.edcafTimer = true

/-- A category that is available has time left. -/
def Left (s : State) : Prop := ∀ ac, s.available ac = true → s.usedtime ac < s.admittedtime ac

/-- A stream that takes the last time of a category is removed while no other timed category has
    some. -/
def Alone (s : State) : Event → Prop
  | .updateAdmittedTime tsid mediumTime false =>
    let ac := (s.staTsInfo tsid).ac
    s.admittedtime ac ≤ microseconds mediumTime → ∀ c ∈ timed, c ≠ ac → s.admittedtime c = 0
  | _ => True

instance : DecidablePred Replenished := fun _ => inferInstanceAs (Decidable (_ → _))

instance (s : State) : DecidablePred (Alone s)
  | .updateAdmittedTime _ _ true => .isTrue trivial
  | .updateAdmittedTime _ _ false => inferInstanceAs (Decidable (_ → _))
  | .updateTsInfo .. | .removeTsInfo _ | .edcafTimeout | .resetParameters | .resetTsInfo
  | .changePriority .. | .associate _ | .qosEnable _ | .adjustRatio _ | .initDefaultQosMap =>
    .isTrue trivial

variable {s s' : State} {e : Event} {es : List Event}

theorem Left.congr (h : Left s) (ha : s'.available = s.available)
    (hu : s'.usedtime = s.usedtime) (ht : s'.admittedtime = s.admittedtime) : Left s' := by
  intro ac
  rw [ha, hu, ht]
  exact h ac

theorem Replenished.congr (ht : s'.admittedtime = s.admittedtime)
    (hp : s'.edcafTimer = s.edcafTimer) : Replenished s' ↔ Replenished s := by
  rw [Replenished, Replenished, ht, hp]

/-- The times of one category change, and are compared. -/
theorem Left.compareTimes {ac : Ac} (h : Left s) (ha : s'.available = s.available)
    (hu : ∀ c ≠ ac, s'.usedtime c = s.usedtime c)
    (ht : ∀ c ≠ ac, s'.admittedtime c = s.admittedtime c) : Left (compareTimes s' ac) := by
  intro c hc
  rw [Wmmac.compareTimes] at hc ⊢
  dsimp only at hc ⊢
  rcases eq_or_ne c ac with rfl | hne
  · rw [Function.update_self] at hc
    exact of_decide_eq_true hc
  · rw [Function.update_of_ne hne, ha] at hc
    have hlt := h c hc
    rwa [← hu c hne, ← ht c hne] at hlt

/-- A packet leaves the admitted times and the timer. -/
theorem downgrade_left {len : UInt16} {acs : List Ac} (h : Left s) :
    Left (downgrade s len acs).1 ∧ (downgrade s len acs).1.admittedtime = s.admittedtime ∧
      (downgrade s len acs).1.edcafTimer = s.edcafTimer := by
  induction acs with
  | nil => exact ⟨h, rfl, rfl⟩
  | cons ac left ih =>
    rw [downgrade]
    split_ifs
    · refine ⟨h.compareTimes rfl (fun c hc => ?_) fun _ _ => rfl, rfl, rfl⟩
      exact Function.update_of_ne hc ..
    · exact ⟨h, rfl, rfl⟩
    · exact ih
    · exact ⟨h, rfl, rfl⟩

theorem changePriorityIf_left {tid tos : UInt8} {len : UInt16} (h : Left s) :
    Left (changePriorityIf s tid tos len).1 ∧
      (changePriorityIf s tid tos len).1.admittedtime = s.admittedtime ∧
      (changePriorityIf s tid tos len).1.edcafTimer = s.edcafTimer := by
  have hdown := @downgrade_left s len (mapPriorityToEdcaAc tid).downFrom h
  rw [changePriorityIf]
  by_cases hq : s.qosEnable = 1
  · rw [if_pos hq]
    dsimp only
    split <;> exact hdown
  · rw [if_neg hq]
    exact ⟨h, rfl, rfl⟩

/-- The timer gives time back only to a category that has some. -/
theorem giveBack_left {ac : Ac} (h : Left s) :
    Left (giveBack s ac) ∧ (giveBack s ac).edcafTimer = s.edcafTimer := by
  rw [giveBack]
  split_ifs with hpos
  · refine ⟨fun c hc => ?_, rfl⟩
    dsimp only at hc ⊢
    rcases eq_or_ne c ac with rfl | hne
    · rw [Function.update_self]
      exact hpos
    · rw [Function.update_of_ne hne] at hc ⊢
      exact h c hc
  · exact ⟨h, rfl⟩

/-- What a stream does. -/
theorem updateAdmittedTime_spec {tsid : UInt8} {mediumTime : UInt16} {increase : Bool}
    (h : Left s) (hs : updateAdmittedTime s tsid mediumTime increase = some s') :
    Left s' ∧ (Replenished s →
      (Replenished s' ↔ Alone s (.updateAdmittedTime tsid mediumTime increase))) := by
  rw [updateAdmittedTime] at hs
  dsimp only at hs
  split_ifs at hs with htid hinc htime
  · obtain rfl := Option.some.inj hs
    refine ⟨h.compareTimes rfl (fun _ _ => rfl) fun c hc => Function.update_of_ne hc .., ?_⟩
    rw [hinc]
    exact fun _ => iff_of_true (fun _ => rfl) trivial
  · -- The category keeps some time, so that it had some before.
    obtain rfl := Option.some.inj hs
    refine ⟨h.compareTimes rfl (fun _ _ => rfl) fun c hc => Function.update_of_ne hc .., ?_⟩
    obtain rfl := Bool.eq_false_of_not_eq_true hinc
    refine fun hr => iff_of_true (fun ⟨c, hc, hpos⟩ => hr ⟨c, hc, ?_⟩) fun hle => ?_
    · rcases eq_or_ne c (s.staTsInfo tsid).ac with rfl | hne
      · exact UInt32.lt_of_le_of_lt UInt32.zero_le htime
      · change 0 < Function.update s.admittedtime _ _ c at hpos
        rwa [Function.update_of_ne hne] at hpos
    · exact absurd htime (UInt32.not_lt.2 hle)
  · -- The timer is deleted, so that no other category may have time.
    obtain rfl := Option.some.inj hs
    refine ⟨h.compareTimes rfl (fun _ _ => rfl) fun c hc => Function.update_of_ne hc .., ?_⟩
    obtain rfl := Bool.eq_false_of_not_eq_true hinc
    refine fun _ => ⟨fun h' _ c hc hne => ?_, fun h' ⟨c, hc, hpos⟩ => ?_⟩
    · by_contra hpos
      refine absurd (h' ⟨c, hc, ?_⟩) Bool.false_ne_true
      change 0 < Function.update s.admittedtime _ _ c
      rw [Function.update_of_ne hne]
      exact UInt32.pos_iff_ne_zero.2 hpos
    · change 0 < Function.update s.admittedtime _ _ c at hpos
      rcases eq_or_ne c (s.staTsInfo tsid).ac with rfl | hne
      · rw [Function.update_self] at hpos
        exact absurd hpos (UInt32.lt_irrefl _)
      · rw [Function.update_of_ne hne, h' (UInt32.not_lt.1 htime) c hc hne] at hpos
        exact absurd hpos (UInt32.lt_irrefl _)

/-- What one step preserves, and when it keeps the timer. -/
theorem step_left (h : Left s) (hs : wmmac.step s e = some s') :
    Left s' ∧ (Replenished s → (Replenished s' ↔ Alone s e)) := by
  -- Most events change none of the times.
  have hsame : s'.available = s.available → s'.usedtime = s.usedtime →
      s'.admittedtime = s.admittedtime → s'.edcafTimer = s.edcafTimer →
      Left s' ∧ (Replenished s → (Replenished s' ↔ True)) := fun ha hu ht hp =>
    ⟨h.congr ha hu ht, fun hr => iff_of_true ((Replenished.congr ht hp).2 hr) trivial⟩
  cases e with
  | updateTsInfo tsid up ac status admittedTime =>
    simp only [wmmac, updateWmmacTsInfo] at hs
    split_ifs at hs
    obtain rfl := Option.some.inj hs
    exact hsame rfl rfl rfl rfl
  | removeTsInfo tsid =>
    simp only [wmmac, removeWmmacTsInfo] at hs
    split_ifs at hs
    obtain rfl := Option.some.inj hs
    exact hsame rfl rfl rfl rfl
  | updateAdmittedTime tsid mediumTime increase => exact updateAdmittedTime_spec h hs
  | edcafTimeout =>
    simp only [wmmac] at hs
    split_ifs at hs
    obtain rfl := Option.some.inj hs
    have hvo := @giveBack_left { s with edcafTimer := true } .vo h
    have hvi := @giveBack_left _ .vi hvo.1
    exact ⟨hvi.1, fun _ => iff_of_true (fun _ => hvi.2.trans hvo.2) trivial⟩
  | resetParameters =>
    obtain rfl := Option.some.inj hs
    refine ⟨fun _ hc => absurd hc Bool.false_ne_true, fun _ => iff_of_true ?_ trivial⟩
    exact fun ⟨c, _, hpos⟩ => absurd hpos (UInt32.lt_irrefl 0)
  | changePriority tid tos len =>
    obtain rfl := Option.some.inj hs
    obtain ⟨hl, ht, hp⟩ := @changePriorityIf_left s tid tos len h
    exact ⟨hl, fun hr => iff_of_true ((Replenished.congr ht hp).2 hr) trivial⟩
  | resetTsInfo | associate | qosEnable | adjustRatio | initDefaultQosMap =>
    obtain rfl := Option.some.inj hs
    exact hsame rfl rfl rfl rfl

/-- In every run, a category that is available has time left, and the timer is pending whenever the
    voice or the video category has time exactly if no stream takes the last time of a category
    while another of them has some. -/
theorem replenished_iff (hrun : wmmac.run .init es = some s) :
    wmmac.Always Left .init es ∧
      (wmmac.Always Replenished .init es ↔ wmmac.Along Alone .init es) := by
  have hl : Left .init := fun _ hc => absurd hc Bool.false_ne_true
  have hr : Replenished .init := fun ⟨_, _, hpos⟩ => absurd hpos (UInt32.lt_irrefl 0)
  have hstep : ∀ s e s', Left s → wmmac.step s e = some s' → Left s' := fun _ _ _ h hs =>
    (step_left h hs).1
  refine ⟨Machine.always_of_step hstep hl, ?_⟩
  exact Machine.always_iff_along hstep (fun _ _ _ h hr hs => (step_left h hs).2 hr) hl hr hrun

/-- A voice stream, whose category's time is used up by two packets before the timer gives it back,
    and which is removed. -/
def voiceStream : List Event :=
  [.qosEnable 1, .associate fun _ => wmmAcAcm] ++ sprdwlAddTxTs 6 6 1 ++
    [.changePriority 6 0 200, .changePriority 6 0 200, .edcafTimeout, .updateAdmittedTime 6 1 false]

theorem replenished_iff_voiceStream : ∃ s, wmmac.run .init voiceStream = some s ∧
    wmmac.Always Left .init voiceStream ∧ wmmac.Always Replenished .init voiceStream := by
  obtain ⟨s, hs, -⟩ : ∃ s, wmmac.run .init voiceStream = some s ∧ s.edcafTimer = false :=
    Machine.exists_run (by decide +kernel)
  have h := replenished_iff hs
  exact ⟨s, hs, h.1, h.2.2 (by decide +kernel)⟩

/-- A voice stream, after which one that was never added is removed: its category has no time, and
    the timer that voice needs is deleted. -/
theorem not_replenished : ∃ s,
    wmmac.run .init (sprdwlAddTxTs 6 6 100 ++ sprdwlDelTxTs 0) = some s ∧
      s.admittedtime .vo = 3200 ∧ s.edcafTimer = false ∧ ¬Replenished s := by
  obtain ⟨s, hs, hvo, htimer⟩ : ∃ s,
      wmmac.run .init (sprdwlAddTxTs 6 6 100 ++ sprdwlDelTxTs 0) = some s ∧
        s.admittedtime .vo = 3200 ∧ s.edcafTimer = false := Machine.exists_run (by decide +kernel)
  refine ⟨s, hs, hvo, htimer, fun h => ?_⟩
  have hpending := h ⟨.vo, List.mem_cons_self, by rw [hvo]; decide⟩
  exact Bool.false_ne_true (htimer.symm.trans hpending)

end W132d.Wmmac
