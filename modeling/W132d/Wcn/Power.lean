import W132d.Machine

/-!
# The power of the chip

The subsystems of the chip are switched on and off one by one (`wcn_boot.c`). The first one to be
on powers the chip, the last one to be off takes the power from it, and the line that enables the
chip and its reset line have a use count each.

* `MarlinDevice`: what is kept of the chip;
* `marlinChipEn`, `chipResetRelease`: the two lines with their counts;
* `marlinSetPower`: a subsystem is switched on or off, with the exit `out` of a failed start;
* `startMarlin`, `stopMarlin`: what the drivers of the subsystems call;
* `powering`: the machine, with what the last call returned;
* `Accounted`: the counts and the lines agree with the subsystems that are on;
* `powered_iff`: the accounts agree after every call exactly if no start ever fails.

The power lock keeps the calls apart, so that a call is one step. Neither GNSS, PCIe nor `MEM_PD`
is configured, and the chip may always be powered off.

How the theorem is proved: a call either changes only the set of the subsystems, or powers the chip
on or off, and what this does to the lines and their counts is computed once (`setPowerOn_cases`). A
start that fails takes the reset back, but not the enable line, so that its count is one more than
what is on (`setPowerOn_fails`). Both counts are of a byte or a word and wrap around, which the
condition on a power-on accounts for. As the accounts agree before a call, they agree after it
exactly if its power-on goes well (`agrees_step`).
-/

namespace W132d.Power

/-! ## The device -/

/-- The subsystems of `enum marlin_sub_sys` that power the chip. -/
inductive Subsys where
  | bluetooth
  | fm
  | wifi
  | mdbg
deriving DecidableEq

/-- `struct marlin_device`, with `chip_en_count` and `reset_count`, and whether their lines are
    high. -/
structure MarlinDevice where
  powerState : Finset Subsys
  firstPowerOnFlag : ℤ
  downloadFinishFlag : Bool
  wifiNeedDownloadIniFlag : ℕ
  chipEnCount : UInt32
  resetCount : UInt32
  chipEn : Bool
  reset : Bool

/-- What a start finds: whether the card is detected and the firmware downloaded in time. -/
structure Chip where
  cardDetectDone : Bool
  downloadDone : Bool

namespace MarlinDevice

/-- The device that was probed, with both lines low. -/
def probed : MarlinDevice := ⟨∅, 0, false, 0, 0, 0, false, false⟩

variable (dev : MarlinDevice)

/-- `chip_reset_release`. -/
def chipResetRelease (val : Bool) : MarlinDevice :=
  if val then
    { dev with
      reset := if dev.resetCount = 0 then true else dev.reset
      resetCount := dev.resetCount + 1 }
  else
    { dev with reset := false, resetCount := dev.resetCount - 1 }

/-- `marlin_chip_en`. -/
def marlinChipEn (enable reset : Bool) : MarlinDevice :=
  if reset then
    { dev with chipEn := true }
  else if enable then
    { dev with
      chipEn := if dev.chipEnCount = 0 then true else dev.chipEn
      chipEnCount := dev.chipEnCount + 1 }
  else
    { dev with
      chipEn := if dev.chipEnCount - 1 = 0 then false else dev.chipEn
      chipEnCount := dev.chipEnCount - 1 }

/-- `chip_power_on`. -/
def chipPowerOn (chip : Chip) : MarlinDevice × ℤ :=
  let dev' := (dev.marlinChipEn true false).chipResetRelease true
  if chip.cardDetectDone then (dev', 0) else (dev', -1)

/-- `chip_power_off`. -/
def chipPowerOff : MarlinDevice :=
  { (dev.marlinChipEn false false).chipResetRelease false with
    wifiNeedDownloadIniFlag := 0
    powerState := ∅ }

/-- The exit `out` of `marlin_set_power`. -/
def out : MarlinDevice × ℤ := ({ dev.chipResetRelease false with powerState := ∅ }, -1)

/-- The start of `marlin_set_power`, in its branches 1 and 5: the chip is powered, then the
    firmware downloaded. -/
def powerOnDownload (subsys : Subsys) (chip : Chip) : MarlinDevice × ℤ :=
  match dev.chipPowerOn chip with
  | (dev', ret) =>
    if ret < 0 then dev'.out
    else
      let dev' := { dev' with powerState := insert subsys dev'.powerState }
      if chip.downloadDone then ({ dev' with downloadFinishFlag := true }, 0) else dev'.out

/-- `marlin_set_power` of a `val` that is true. -/
def setPowerOn (subsys : Subsys) (chip : Chip) : MarlinDevice × ℤ :=
  let dev := { dev with firstPowerOnFlag := (dev.firstPowerOnFlag + 1).bmod (2 ^ 32) }
  if dev.firstPowerOnFlag = 1 then
    match dev.powerOnDownload subsys chip with
    | (dev', ret) => (if ret = 0 then { dev' with firstPowerOnFlag := 2 } else dev', ret)
  else if dev.powerState ≠ ∅ then
    ({ dev with powerState := insert subsys dev.powerState }, 0)
  else dev.powerOnDownload subsys chip

/-- `marlin_set_power` of a `val` that is false. -/
def setPowerOff (subsys : Subsys) : MarlinDevice × ℤ :=
  if dev.powerState = ∅ then (dev, 0)
  else if ¬dev.downloadFinishFlag then (dev, 0)
  else
    let dev := { dev with powerState := dev.powerState.erase subsys }
    if dev.powerState ≠ ∅ then (dev, 0)
    else ({ dev.chipPowerOff with downloadFinishFlag := false }, 0)

/-- `marlin_set_power`. -/
def marlinSetPower (subsys : Subsys) (val : Bool) (chip : Chip) : MarlinDevice × ℤ :=
  if val then dev.setPowerOn subsys chip else dev.setPowerOff subsys

/-- What `start_marlin` makes of `wifi_need_download_ini_flag`. -/
def needIni (subsys : Subsys) : MarlinDevice :=
  if subsys = .wifi then
    { dev with wifiNeedDownloadIniFlag := if dev.wifiNeedDownloadIniFlag = 0 then 1 else 2 }
  else dev

end MarlinDevice

open MarlinDevice

/-! ## The machine -/

/-- A call of `marlin_set_power` that has returned. -/
structure SetPower where
  subsys : Subsys
  val : Bool
  ret : ℤ

/-- The device. What the last call returned is a record only: `setPower` of the call of
    `marlin_set_power`, `started` of that of `start_marlin`. -/
structure State where
  dev : MarlinDevice
  setPower : Option SetPower
  started : Option (Subsys × ℤ)

/-- Nothing was called yet. -/
def State.init : State := ⟨probed, none, none⟩

/-- The calls. `ready` tells whether there is neither a dump of the card nor a failed loop check. -/
inductive Event where
  | setPower (subsys : Subsys) (val : Bool) (chip : Chip)
  | startMarlin (subsys : Subsys) (ready : Bool) (chip : Chip)
  | stopMarlin (subsys : Subsys) (ready : Bool)

/-- `marlin_set_power`, recorded. -/
def setPower (s : State) (subsys : Subsys) (val : Bool) (chip : Chip) : State :=
  match s.dev.marlinSetPower subsys val chip with
  | (dev, ret) => ⟨dev, some ⟨subsys, val, ret⟩, none⟩

/-- `start_marlin`, which does not look at what `marlin_set_power` returns. -/
def startMarlin (s : State) (subsys : Subsys) (ready : Bool) (chip : Chip) : State :=
  if ready then
    { setPower { s with dev := s.dev.needIni subsys } subsys true chip with
      started := some (subsys, 0) }
  else ⟨s.dev, none, some (subsys, -1)⟩

/-- `stop_marlin`. -/
def stopMarlin (s : State) (subsys : Subsys) (ready : Bool) : State :=
  if ready then setPower s subsys false ⟨true, true⟩ else ⟨s.dev, none, none⟩

/-- The calls, one at a time. -/
def powering : Machine State Event where
  step s e :=
    match e with
    | .setPower subsys val chip => some (setPower s subsys val chip)
    | .startMarlin subsys ready chip => some (startMarlin s subsys ready chip)
    | .stopMarlin subsys ready => some (stopMarlin s subsys ready)

/-! ## The accounts -/

/-- The chip is off: neither line is in use, and both are low. -/
structure Off (dev : MarlinDevice) : Prop where
  chipEnCount : dev.chipEnCount = 0
  resetCount : dev.resetCount = 0
  chipEn : dev.chipEn = false
  reset : dev.reset = false

/-- The chip is on: both lines are in use once, and high. -/
structure On (dev : MarlinDevice) : Prop where
  chipEnCount : dev.chipEnCount = 1
  resetCount : dev.resetCount = 1
  chipEn : dev.chipEn = true
  reset : dev.reset = true

/-- The chip is on exactly while a subsystem is. -/
structure Accounted (dev : MarlinDevice) : Prop where
  on : dev.powerState ≠ ∅ → On dev
  off : dev.powerState = ∅ → Off dev

/-- What the caller of `marlin_set_power` may rely on. -/
structure Kept (dev : MarlinDevice) (call : SetPower) : Prop where
  success : call.val → call.ret = 0 → call.subsys ∈ dev.powerState ∧ dev.downloadFinishFlag
  failure : call.val → call.ret = -1 → dev.powerState = ∅ ∧ Off dev

/-- The device is accounted for, and what the last call returned is true. -/
structure Agrees (s : State) : Prop where
  accounted : Accounted s.dev
  setPower : ∀ call, s.setPower = some call → Kept s.dev call
  started : ∀ subsys, s.started = some (subsys, 0) → subsys ∈ s.dev.powerState

/-- A power-on of the device goes well: if the chip is off, then the card is detected and the
    firmware downloaded; and if it is on, this is not taken for the first power-on, which it would
    be once `first_power_on_flag` has gone around all of its values. -/
def Succeeds (dev : MarlinDevice) (chip : Chip) : Prop :=
  (dev.powerState = ∅ → chip.cardDetectDone ∧ chip.downloadDone) ∧
    (dev.powerState ≠ ∅ → (dev.firstPowerOnFlag + 1).bmod (2 ^ 32) ≠ 1)

/-- Whether a power-on that the event makes goes well. -/
def Succeeded (s : State) : Event → Prop
  | .setPower _ val chip => val → Succeeds s.dev chip
  | .startMarlin _ ready chip => ready → Succeeds s.dev chip
  | .stopMarlin _ _ => True

/-! ## One call -/

namespace MarlinDevice

variable {dev : MarlinDevice} {subsys : Subsys} {chip : Chip}

/-- A start in which the card is detected and the firmware downloaded. -/
theorem powerOnDownload_done (h : chip.cardDetectDone ∧ chip.downloadDone) :
    dev.powerOnDownload subsys chip =
      ({ (dev.marlinChipEn true false).chipResetRelease true with
          powerState := insert subsys dev.powerState
          downloadFinishFlag := true }, 0) := by
  rw [powerOnDownload, chipPowerOn, if_pos h.1]
  dsimp only
  rw [if_neg (lt_irrefl 0), if_pos h.2]
  rfl

/-- A start in which it is not: the line that enables the chip is left alone. -/
theorem powerOnDownload_failed (h : ¬(chip.cardDetectDone ∧ chip.downloadDone)) :
    dev.powerOnDownload subsys chip =
      ({ ((dev.marlinChipEn true false).chipResetRelease true).chipResetRelease false with
          powerState := ∅ }, -1) := by
  rw [powerOnDownload, chipPowerOn]
  by_cases hcard : chip.cardDetectDone
  · have hdownload : ¬chip.downloadDone := fun hdownload => h ⟨hcard, hdownload⟩
    rw [if_pos hcard]
    dsimp only
    rw [if_neg (lt_irrefl 0), if_neg hdownload]
    rfl
  · rw [if_neg hcard]
    dsimp only
    rw [if_pos (by decide)]
    rfl

/-- However a start ends, the use of the line that enables the chip was counted. -/
theorem powerOnDownload_chipEnCount :
    (dev.powerOnDownload subsys chip).1.chipEnCount = dev.chipEnCount + 1 := by
  by_cases h : chip.cardDetectDone ∧ chip.downloadDone
  · rw [powerOnDownload_done h]
    rfl
  · rw [powerOnDownload_failed h]
    rfl

/-- The subsystem is on after a start, with the firmware downloaded, or no subsystem is. -/
theorem powerOnDownload_finish :
    (dev.powerOnDownload subsys chip).1.powerState ≠ ∅ →
      (dev.powerOnDownload subsys chip).1.downloadFinishFlag := by
  by_cases h : chip.cardDetectDone ∧ chip.downloadDone
  · rw [powerOnDownload_done h]
    exact fun _ => rfl
  · rw [powerOnDownload_failed h]
    exact fun hne => absurd rfl hne

/-- What a power-on does: nothing but a note of the subsystem if the chip is on, which a count of
    power-ons that has gone around may hide, and a start otherwise. -/
theorem setPowerOn_cases (dev : MarlinDevice) (subsys : Subsys) (chip : Chip) :
    (dev.powerState ≠ ∅ ∧ (dev.firstPowerOnFlag + 1).bmod (2 ^ 32) ≠ 1 ∧
      dev.setPowerOn subsys chip =
        ({ dev with
            firstPowerOnFlag := (dev.firstPowerOnFlag + 1).bmod (2 ^ 32)
            powerState := insert subsys dev.powerState }, 0)) ∨
    ((dev.powerState = ∅ ∨ (dev.firstPowerOnFlag + 1).bmod (2 ^ 32) = 1) ∧
      ∃ flag flag' : ℤ, dev.setPowerOn subsys chip =
        ({ ({ dev with firstPowerOnFlag := flag }.powerOnDownload subsys chip).1 with
            firstPowerOnFlag := flag' },
          ({ dev with firstPowerOnFlag := flag }.powerOnDownload subsys chip).2)) := by
  rw [setPowerOn]
  dsimp only
  by_cases hfirst : (dev.firstPowerOnFlag + 1).bmod (2 ^ 32) = 1
  · rw [if_pos hfirst]
    refine .inr ⟨.inr hfirst, (dev.firstPowerOnFlag + 1).bmod (2 ^ 32), ?_⟩
    split
    · exact ⟨2, rfl⟩
    · exact ⟨_, rfl⟩
  · rw [if_neg hfirst]
    by_cases hempty : dev.powerState = ∅
    · rw [if_neg (not_not.2 hempty)]
      exact .inr ⟨.inl hempty, _, _, rfl⟩
    · rw [if_pos hempty]
      exact .inl ⟨hempty, hfirst, rfl⟩

/-- A chip that is on is off once the power was taken from it. -/
theorem off_chipPowerOff (hon : On dev) : Off dev.chipPowerOff := by
  have hcount : dev.chipEnCount - 1 = 0 := by rw [hon.chipEnCount]; rfl
  refine ⟨hcount, ?_, if_pos hcount, rfl⟩
  exact (congrArg (· - 1) hon.resetCount).trans rfl

end MarlinDevice

variable {dev : MarlinDevice} {subsys : Subsys} {chip : Chip} {s s' : State} {e : Event}
  {es : List Event}

/-- A power-on that goes well turns the subsystem on. -/
theorem setPowerOn_succeeds (hfinish : dev.powerState ≠ ∅ → dev.downloadFinishFlag)
    (hacc : Accounted dev) (h : Succeeds dev chip) :
    (dev.setPowerOn subsys chip).2 = 0 ∧ subsys ∈ (dev.setPowerOn subsys chip).1.powerState ∧
      (dev.setPowerOn subsys chip).1.downloadFinishFlag ∧ On (dev.setPowerOn subsys chip).1 := by
  obtain ⟨hon, -, heq⟩ | ⟨hfirst, flag, flag', heq⟩ := dev.setPowerOn_cases subsys chip
  · have hacc := hacc.on hon
    rw [heq]
    exact ⟨rfl, Finset.mem_insert_self _ _, hfinish hon, hacc.1, hacc.2, hacc.3, hacc.4⟩
  · have hempty : dev.powerState = ∅ := by
      by_contra hon
      exact hfirst.elim hon (h.2 hon)
    have hoff := hacc.off hempty
    rw [heq, powerOnDownload_done (h.1 hempty)]
    refine ⟨rfl, Finset.mem_insert_self _ _, rfl, ?_, ?_, ?_, ?_⟩
    · exact congrArg (· + 1) hoff.chipEnCount
    · exact congrArg (· + 1) hoff.resetCount
    · exact if_pos hoff.chipEnCount
    · exact if_pos hoff.resetCount

/-- After one that does not, the chip is not accounted for: the exit of a failed start leaves the
    line that enables it in use. -/
theorem setPowerOn_fails (hacc : Accounted dev) (h : ¬Succeeds dev chip) :
    ¬Accounted (dev.setPowerOn subsys chip).1 := by
  intro hacc'
  obtain ⟨hon, hflag, -⟩ | ⟨hfirst, flag, flag', heq⟩ := dev.setPowerOn_cases subsys chip
  · exact h ⟨fun hempty => absurd hempty hon, fun _ => hflag⟩
  · have hcount : (dev.setPowerOn subsys chip).1.chipEnCount = dev.chipEnCount + 1 := by
      rw [heq]
      exact powerOnDownload_chipEnCount
    by_cases hempty : dev.powerState = ∅
    · -- The chip was off, so that this start failed: no subsystem is on, but the count is 1.
      have hchip : ¬(chip.cardDetectDone ∧ chip.downloadDone) := fun hchip =>
        h ⟨fun _ => hchip, fun hon => absurd hempty hon⟩
      have hoff := hacc'.off (by rw [heq, powerOnDownload_failed hchip])
      rw [(hacc.off hempty).chipEnCount, hoff.chipEnCount] at hcount
      exact absurd hcount (by decide)
    · -- The chip was on, and is powered once more.
      rw [(hacc.on hempty).chipEnCount] at hcount
      by_cases hempty' : (dev.setPowerOn subsys chip).1.powerState = ∅
      · rw [(hacc'.off hempty').chipEnCount] at hcount
        exact absurd hcount (by decide)
      · rw [(hacc'.on hempty').chipEnCount] at hcount
        exact absurd hcount (by decide)

/-- The firmware is downloaded while a subsystem is on. -/
theorem setPowerOn_finish (hfinish : dev.powerState ≠ ∅ → dev.downloadFinishFlag) :
    (dev.setPowerOn subsys chip).1.powerState ≠ ∅ →
      (dev.setPowerOn subsys chip).1.downloadFinishFlag := by
  obtain ⟨hon, -, heq⟩ | ⟨-, flag, flag', heq⟩ := dev.setPowerOn_cases subsys chip
  · rw [heq]
    exact fun _ => hfinish hon
  · rw [heq]
    exact powerOnDownload_finish

/-- A power-off keeps the accounts. -/
theorem setPowerOff_accounted (hacc : Accounted dev) :
    Accounted (dev.setPowerOff subsys).1 := by
  rw [setPowerOff]
  split
  · exact hacc
  · rename_i hon
    have hon := hacc.on hon
    split
    · exact hacc
    · dsimp only
      split
      · rename_i hrest
        exact ⟨fun _ => ⟨hon.1, hon.2, hon.3, hon.4⟩, fun hempty => absurd hempty hrest⟩
      · have hon : On { dev with powerState := dev.powerState.erase subsys } :=
          ⟨hon.1, hon.2, hon.3, hon.4⟩
        have hoff := off_chipPowerOff hon
        exact ⟨fun hne => absurd rfl hne, fun _ => ⟨hoff.1, hoff.2, hoff.3, hoff.4⟩⟩

/-- The firmware is downloaded while a subsystem is left on. -/
theorem setPowerOff_finish (hfinish : dev.powerState ≠ ∅ → dev.downloadFinishFlag) :
    (dev.setPowerOff subsys).1.powerState ≠ ∅ →
      (dev.setPowerOff subsys).1.downloadFinishFlag := by
  rw [setPowerOff]
  split
  · exact hfinish
  · rename_i hon
    split
    · exact hfinish
    · dsimp only
      split
      · exact fun _ => hfinish hon
      · exact fun hne => absurd rfl hne

/-! ## Every call -/

/-- The firmware is downloaded while a subsystem is on. -/
def Finished (s : State) : Prop := s.dev.powerState ≠ ∅ → s.dev.downloadFinishFlag

/-- What is written down of a power-on agrees with the device exactly if it goes well. -/
theorem agrees_setPower_on (hfinish : Finished s) (hacc : Accounted s.dev) :
    Agrees (setPower s subsys true chip) ↔ Succeeds s.dev chip := by
  constructor
  · intro h
    by_contra hfail
    exact setPowerOn_fails hacc hfail h.accounted
  · intro h
    obtain ⟨hret, hmem, hfin, hon⟩ := @setPowerOn_succeeds _ subsys _ hfinish hacc h
    refine ⟨⟨fun _ => hon, fun hempty => ?_⟩, fun call hcall => ?_, nofun⟩
    · exact absurd hempty (Finset.ne_empty_of_mem hmem)
    · obtain rfl := Option.some.inj hcall
      refine ⟨fun _ _ => ⟨hmem, hfin⟩, fun _ hfail => ?_⟩
      have : (s.dev.setPowerOn subsys chip).2 = -1 := hfail
      rw [hret] at this
      exact absurd this (by decide)

/-- What is written down of a power-off agrees with the device. -/
theorem agrees_setPower_off (hacc : Accounted s.dev) :
    Agrees (setPower s subsys false chip) := by
  refine ⟨setPowerOff_accounted hacc, fun call hcall => ?_, nofun⟩
  obtain rfl := Option.some.inj hcall
  exact ⟨nofun, nofun⟩

@[simp] theorem needIni_powerState : (dev.needIni subsys).powerState = dev.powerState := by
  rw [needIni]
  split <;> rfl

@[simp] theorem needIni_firstPowerOnFlag :
    (dev.needIni subsys).firstPowerOnFlag = dev.firstPowerOnFlag := by
  rw [needIni]
  split <;> rfl

@[simp] theorem needIni_downloadFinishFlag :
    (dev.needIni subsys).downloadFinishFlag = dev.downloadFinishFlag := by
  rw [needIni]
  split <;> rfl

/-- The flag for the calibration file is none of the accounts. -/
theorem accounted_needIni (hacc : Accounted dev) : Accounted (dev.needIni subsys) := by
  rw [needIni]
  split
  · exact ⟨fun h => ⟨(hacc.on h).1, (hacc.on h).2, (hacc.on h).3, (hacc.on h).4⟩,
      fun h => ⟨(hacc.off h).1, (hacc.off h).2, (hacc.off h).3, (hacc.off h).4⟩⟩
  · exact hacc

/-- Nor does it matter to a power-on. -/
theorem succeeds_needIni : Succeeds (dev.needIni subsys) chip ↔ Succeeds dev chip := by
  rw [Succeeds, Succeeds, needIni_powerState, needIni_firstPowerOnFlag]

/-- A start of a subsystem agrees with the device exactly if its power-on goes well. -/
theorem agrees_startMarlin {ready : Bool} (hfinish : Finished s) (hacc : Accounted s.dev) :
    Agrees (startMarlin s subsys ready chip) ↔ (ready → Succeeds s.dev chip) := by
  rw [startMarlin]
  split
  · rename_i hready
    have hfinish' : Finished { s with dev := s.dev.needIni subsys } := by
      simpa only [Finished, needIni_powerState, needIni_downloadFinishFlag] using hfinish
    have hiff := @agrees_setPower_on subsys chip _ hfinish' (accounted_needIni hacc)
    rw [succeeds_needIni] at hiff
    rw [forall_prop_of_true hready, ← hiff]
    refine ⟨fun h => ⟨h.accounted, h.setPower, nofun⟩, fun h => ?_⟩
    refine ⟨h.accounted, h.setPower, fun subsys' hstarted => ?_⟩
    obtain rfl := congrArg Prod.fst (Option.some.inj hstarted)
    have hsucc := (@succeeds_needIni _ subsys _).2 (hiff.1 h)
    exact (setPowerOn_succeeds hfinish' (accounted_needIni hacc) hsucc).2.1
  · rename_i hready
    refine iff_of_true ⟨hacc, nofun, fun _ h => ?_⟩ fun h => absurd h hready
    exact absurd (congrArg Prod.snd (Option.some.inj h)) (by decide : ¬(-1 : ℤ) = 0)

/-- A step keeps the firmware downloaded while a subsystem is on. -/
theorem finished_step (hfinish : Finished s) (h : powering.step s e = some s') : Finished s' := by
  cases e with
  | setPower subsys val chip =>
    obtain rfl := Option.some.inj h
    cases val with
    | true => exact setPowerOn_finish hfinish
    | false => exact setPowerOff_finish hfinish
  | startMarlin subsys ready chip =>
    obtain rfl := Option.some.inj h
    rw [startMarlin]
    split
    · refine setPowerOn_finish ?_
      simpa only [Finished, needIni_powerState, needIni_downloadFinishFlag] using hfinish
    · exact hfinish
  | stopMarlin subsys ready =>
    obtain rfl := Option.some.inj h
    rw [stopMarlin]
    split
    · exact setPowerOff_finish hfinish
    · exact hfinish

/-- A call agrees with the device exactly if the power-on it makes, if any, goes well. -/
theorem agrees_step (hfinish : Finished s) (hs : Agrees s) (h : powering.step s e = some s') :
    Agrees s' ↔ Succeeded s e := by
  cases e with
  | setPower subsys val chip =>
    obtain rfl := Option.some.inj h
    cases val with
    | true =>
      rw [Succeeded, forall_prop_of_true rfl]
      exact agrees_setPower_on hfinish hs.accounted
    | false => exact iff_of_true (agrees_setPower_off hs.accounted) nofun
  | startMarlin subsys ready chip =>
    obtain rfl := Option.some.inj h
    exact agrees_startMarlin hfinish hs.accounted
  | stopMarlin subsys ready =>
    obtain rfl := Option.some.inj h
    refine iff_of_true ?_ trivial
    rw [stopMarlin]
    split
    · exact agrees_setPower_off hs.accounted
    · exact ⟨hs.accounted, nofun, nofun⟩

/-- Nothing is on initially. -/
theorem agrees_init : Agrees .init :=
  ⟨⟨fun h => absurd rfl h, fun _ => ⟨rfl, rfl, rfl, rfl⟩⟩, nofun, nofun⟩

/-- **Chip power accounting**: after every call, whatever the calls, the counts, the lines and what
    the calls returned agree with the subsystems that are on, exactly if every power-on of a chip
    that is off finds its card and downloads its firmware, and none of a chip that is on is taken
    for the first one. -/
theorem powered_iff (es : List Event) :
    powering.Always Agrees .init es ↔ powering.Along Succeeded .init es := by
  obtain ⟨s, hrun, -⟩ := Machine.exists_run_history (I := fun _ _ => True)
    (fun _ s e _ _ => by cases e <;> exact ⟨_, rfl, trivial⟩) trivial
    (@Machine.along_true _ _ powering .init es)
  exact Machine.always_iff_along (I := Finished) (fun _ _ _ => finished_step)
    (fun _ _ _ => agrees_step) (fun h => absurd rfl h) agrees_init hrun

/-- A card that is not detected leaves the chip enabled with no subsystem on, and `start_marlin`
    reports a success. -/
theorem not_powered :
    ¬powering.Always Agrees .init [.startMarlin .wifi true ⟨false, true⟩] := by
  intro h
  have hoff := h.2.accounted.off rfl
  exact absurd hoff.chipEnCount (by decide)

end W132d.Power
