import W132d.Wmmac

/-!
# Admission control

A category whose flag `WMM_AC_ACM` is set is *mandatory*: a packet may use it only while it has
time, and uses that time up. `change_priority_if` moves a packet down from the categories that have
none, and takes its airtime from the one that it stays in. But it does not look at the lowest
category, and then it lets the QoS map replace the priority, whatever category that is one of.

* `Granted`: the category in which a packet stays;
* `granted_iff`, `downgrade_usedtime`: what the loop over the categories does;
* `Enforced`: a packet that is queued in a mandatory category is charged for it;
* `Respected`: the QoS map moves no packet to a mandatory category but the one it was granted;
* `enforced_iff`: admission control is enforced exactly if this is so.
-/

namespace W132d.Wmmac

/-- `WMM_AC_ACM` is set for a category. -/
def Mandatory (s : State) (ac : Ac) : Prop := s.aciAifsn ac &&& wmmAcAcm ≠ 0

instance (s : State) (ac : Ac) : Decidable (Mandatory s ac) := inferInstanceAs (Decidable (_ ≠ _))

/-- The airtime of a packet, in microseconds. -/
def airtime (ratio : UInt32) (len : UInt16) : UInt32 := (len.toUInt32 + 4) * 8 * ratio / 10 / 54

/-- The category of a queue. -/
def QosIndex.ac : QosIndex → Option Ac
  | .vo => some .vo
  | .vi => some .vi
  | .be => some .be
  | .bk => some .bk
  | .max => none

/-- The category of a priority. -/
def acOf (tid : UInt8) : Ac :=
  if tid = prio1 then .bk else if tid = prio4 then .vi else if tid = prio6 then .vo else .be

/-- Of the categories `acs`, a packet stays in the first one that is not mandatory or has time. It
    passes those that have none, unless it was used up, and ends in the lowest one. -/
inductive Granted (s : State) : List Ac → Ac → Prop
  | lowest : Granted s [] .bk
  | free {ac : Ac} {left : List Ac} : ¬Mandatory s ac → Granted s (ac :: left) ac
  | charged {ac : Ac} {left : List Ac} :
    Mandatory s ac → s.available ac = true → Granted s (ac :: left) ac
  | passed {ac c : Ac} {left : List Ac} :
    Mandatory s ac → s.available ac = false → s.usedtime ac = 0 → Granted s left c →
      Granted s (ac :: left) c

/-- The category of a packet that was granted `ac`, once the QoS map is applied. -/
def remapped (s : State) (tos : UInt8) (ac : Ac) : Ac :=
  ((s.qosMap.up (tos >>> 2)).map acOf).getD ac

/-- A packet that is queued in a mandatory category finds it available, and its airtime is taken
    from it. -/
def Enforced (s : State) (tid tos : UInt8) (len : UInt16) : Prop :=
  ∀ ac, (changePriorityIf s tid tos len).2.1.ac = some ac → Mandatory s ac →
    s.available ac = true ∧
      (changePriorityIf s tid tos len).1.usedtime ac = s.usedtime ac + airtime s.ratio len

/-- A packet that ends in a mandatory category was granted that one, and it is not the lowest one;
    or the category has time and the packet takes none. -/
def Respected (s : State) (tid tos : UInt8) (len : UInt16) : Prop :=
  ∀ ac, Granted s (mapPriorityToEdcaAc tid).downFrom ac → Mandatory s (remapped s tos ac) →
    (remapped s tos ac = ac ∧ ac ≠ .bk) ∨
      (s.available (remapped s tos ac) = true ∧ airtime s.ratio len = 0)

variable {s : State} {tid tos : UInt8} {len : UInt16} {acs : List Ac} {ac c : Ac}

theorem qosIndexOf_ac (tid : UInt8) : (qosIndexOf tid).ac = some (acOf tid) := by
  rw [qosIndexOf, acOf]
  split_ifs <;> rfl

theorem acOf_mapEdcaAcToPriority (ac : Ac) : acOf (mapEdcaAcToPriority ac) = ac := by
  cases ac <;> rfl

theorem bk_notMem_downFrom (ac : Ac) : Ac.bk ∉ ac.downFrom := by
  cases ac <;> decide

/-- A packet that stays in a mandatory category finds it available. -/
theorem Granted.available (h : Granted s acs c) (hmandatory : Mandatory s c) (hne : c ≠ .bk) :
    s.available c = true := by
  induction h with
  | lowest => exact absurd rfl hne
  | free hfree => exact absurd hmandatory hfree
  | charged _ havailable => exact havailable
  | passed _ _ _ _ ih => exact ih hmandatory hne

/-! ## The loop -/

/-- The loop grants a packet its category. -/
theorem granted_iff : (downgrade s len acs).2 = some c ↔ Granted s acs c := by
  -- By induction on the categories from this one down, along the branches of the loop.
  induction acs with
  | nil =>
    rw [downgrade, Option.some_inj]
    refine ⟨fun h => h ▸ .lowest, fun h => ?_⟩
    cases h
    rfl
  | cons ac left ih =>
    rw [downgrade]
    dsimp only
    split_ifs with hmandatory havailable hused
    · -- The medium time of this category is enough, and is charged.
      rw [Option.some_inj]
      refine ⟨fun h => h ▸ .charged hmandatory havailable, fun h => ?_⟩
      cases h with
      | free hfree => exact absurd hmandatory hfree
      | charged => rfl
      | passed _ hnot => exact absurd havailable (Bool.eq_false_iff.1 hnot)
    · -- The time of this category is used up, and the packet is not sent.
      refine iff_of_false id fun h => ?_
      cases h with
      | free hfree => exact hfree hmandatory
      | charged _ h => exact havailable h
      | passed _ _ hzero => exact hused hzero
    · -- The category was never used, and the next lower one is tried.
      rw [ih]
      have hnot := Bool.eq_false_iff.2 havailable
      refine ⟨.passed hmandatory hnot (not_not.1 hused), fun h => ?_⟩
      cases h with
      | free hfree => exact absurd hmandatory hfree
      | charged _ h => exact absurd h havailable
      | passed _ _ _ h => exact h
    · -- Nobody has to be admitted to this category.
      rw [Option.some_inj]
      refine ⟨fun h => h ▸ .free hmandatory, fun h => ?_⟩
      cases h with
      | free => rfl
      | charged h => exact absurd h hmandatory
      | passed h => exact absurd h hmandatory

/-- It takes the airtime from this category if it is mandatory and not the lowest one. -/
theorem downgrade_usedtime (h : Granted s acs c) (hbk : .bk ∉ acs) :
    (downgrade s len acs).1.usedtime =
      if Mandatory s c ∧ c ≠ .bk then
        Function.update s.usedtime c (s.usedtime c + airtime s.ratio len)
      else s.usedtime := by
  induction h with
  | lowest => rw [downgrade, if_neg fun h => h.2 rfl]
  | free hfree =>
    rw [downgrade, if_neg (by exact hfree), if_neg fun h => hfree h.1]
  | @charged ac left hmandatory havailable =>
    have hne : ac ≠ .bk := fun h => hbk (h ▸ List.mem_cons_self)
    rw [downgrade, if_pos (by exact hmandatory), if_pos havailable, if_pos ⟨hmandatory, hne⟩]
    rfl
  | passed hmandatory hnot hzero _ ih =>
    rw [downgrade, if_pos (by exact hmandatory), if_neg (ne_true_of_eq_false hnot),
      if_neg (not_not.2 hzero)]
    exact ih fun h => hbk (List.mem_cons_of_mem _ h)

/-! ## The packet -/

/-- The category of a packet is the one it was granted, unless the QoS map has another one. -/
theorem changePriorityIf_ac (hqos : s.qosEnable = 1) :
    (changePriorityIf s tid tos len).2.1.ac = some ac ↔
      ∃ c, Granted s (mapPriorityToEdcaAc tid).downFrom c ∧ remapped s tos c = ac := by
  -- The loop leaves the QoS map as it is.
  have hmap : (downgrade s len (mapPriorityToEdcaAc tid).downFrom).1.qosMap = s.qosMap := by
    generalize (mapPriorityToEdcaAc tid).downFrom = acs
    induction acs with
    | nil => rfl
    | cons ac left ih =>
      rw [downgrade]
      split_ifs
      · rfl
      · rfl
      · exact ih
      · rfl
  rw [changePriorityIf, if_pos hqos]
  dsimp only
  simp only [← @granted_iff s len]
  cases hgranted : (downgrade s len (mapPriorityToEdcaAc tid).downFrom).2 with
  | none =>
    refine iff_of_false (Option.some_ne_none ac).symm ?_
    rintro ⟨c, h, -⟩
    exact Option.some_ne_none c h.symm
  | some c =>
    dsimp only [Option.map_some]
    rw [qosIndexOf_ac, hmap, Option.some_inj]
    have hacOf : acOf ((s.qosMap.up (tos >>> 2)).getD (mapEdcaAcToPriority c)) =
        remapped s tos c := by
      rw [remapped]
      cases s.qosMap.up (tos >>> 2) with
      | none => exact acOf_mapEdcaAcToPriority c
      | some up => rfl
    rw [hacOf]
    constructor
    · exact fun h => ⟨c, rfl, h⟩
    · rintro ⟨c', h, h'⟩
      exact Option.some.inj h ▸ h'

/-- A packet that was granted a category takes its airtime from nothing else. -/
theorem changePriorityIf_usedtime (hqos : s.qosEnable = 1)
    (h : Granted s (mapPriorityToEdcaAc tid).downFrom c) :
    (changePriorityIf s tid tos len).1.usedtime =
      if Mandatory s c ∧ c ≠ .bk then
        Function.update s.usedtime c (s.usedtime c + airtime s.ratio len)
      else s.usedtime := by
  rw [← downgrade_usedtime h (bk_notMem_downFrom _), changePriorityIf, if_pos hqos]
  dsimp only
  rw [granted_iff.2 h]
  rfl

/-- A packet that was granted `c` is charged for a mandatory category if that is `c`. -/
theorem charged_iff (hqos : s.qosEnable = 1) (h : Granted s (mapPriorityToEdcaAc tid).downFrom c)
    (hmandatory : Mandatory s ac) :
    s.available ac = true ∧
        (changePriorityIf s tid tos len).1.usedtime ac = s.usedtime ac + airtime s.ratio len ↔
      (ac = c ∧ c ≠ .bk) ∨ (s.available ac = true ∧ airtime s.ratio len = 0) := by
  have hzero : s.usedtime ac = s.usedtime ac + airtime s.ratio len ↔ airtime s.ratio len = 0 :=
    UInt32.left_eq_add
  rw [changePriorityIf_usedtime hqos h]
  by_cases hc : ac = c ∧ c ≠ .bk
  · -- It has time, since the packet stayed in it.
    obtain ⟨rfl, hne⟩ := hc
    rw [if_pos ⟨hmandatory, hne⟩, Function.update_self]
    exact iff_of_true ⟨h.available hmandatory hne, rfl⟩ (.inl ⟨rfl, hne⟩)
  · have hsame : (if Mandatory s c ∧ c ≠ .bk then
        Function.update s.usedtime c (s.usedtime c + airtime s.ratio len)
        else s.usedtime) ac = s.usedtime ac := by
      split_ifs with hcharged
      · exact Function.update_of_ne (fun heq => hc ⟨heq, hcharged.2⟩) ..
      · rfl
    rw [hsame, hzero, or_iff_right hc]

/-- With QoS enabled, admission control is enforced for a packet exactly if it ends in no mandatory
    category but the one that it was granted, where it is charged. -/
theorem enforced_iff (hqos : s.qosEnable = 1) :
    Enforced s tid tos len ↔ Respected s tid tos len := by
  constructor
  · intro h ac hgranted hmandatory
    have hac := (@changePriorityIf_ac s tid tos len _ hqos).2 ⟨ac, hgranted, rfl⟩
    exact (charged_iff hqos hgranted hmandatory).1 (h _ hac hmandatory)
  · intro h ac hac hmandatory
    obtain ⟨c, hgranted, rfl⟩ := (changePriorityIf_ac hqos).1 hac
    exact (charged_iff hqos hgranted hmandatory).2 (h c hgranted hmandatory)

/-- Voice is mandatory, and no stream has been admitted. -/
def voiceMandatory : State :=
  { State.init with qosEnable := 1, aciAifsn := fun ac => if ac = .vo then wmmAcAcm else 0 }

/-- A stream of voice has been admitted 3200 microseconds. -/
def voiceAdmitted : State :=
  { voiceMandatory with
    available := fun ac => ac = .vo
    admittedtime := fun ac => if ac = .vo then 3200 else 0 }

/-- A voice packet that the QoS map leaves alone is charged. -/
theorem enforced_voice :
    Enforced voiceAdmitted 6 0x20 100 ∧ (changePriorityIf voiceAdmitted 6 0x20 100).2.1 = .vo ∧
      (changePriorityIf voiceAdmitted 6 0x20 100).1.usedtime .vo = 15 := by
  refine ⟨(enforced_iff rfl).2 fun ac _ hmandatory => ?_, by decide, by decide⟩
  have hvo : remapped voiceAdmitted 0x20 ac = .vo := by
    revert hmandatory
    cases ac <;> decide
  have hac : ac = .vo := by
    revert hvo
    cases ac <;> decide
  subst hac
  exact .inl ⟨hvo, by decide⟩

/-- The default map has voice for the code point 6, also for a packet of best effort. -/
theorem not_enforced :
    ¬∀ s tid tos len, State.qosEnable s = 1 → Enforced s tid tos len := by
  intro h
  have henforced := h voiceMandatory 0 0x18 100 rfl .vo (by decide) (by decide)
  exact absurd henforced.1 (by decide)

end W132d.Wmmac
