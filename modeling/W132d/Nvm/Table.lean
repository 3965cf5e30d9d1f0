import W132d.Layout

/-!
# The table of the radio configuration

The configuration of the radio is a record (`struct wifi_conf_t`) of numbers and arrays of them, and
a table tells which of them a key of the configuration file sets (`g_config_table` in
`rf_marlin3.c`), by the offset and the size of an element.

* `Member`: the members of the record, with their elements, and `Member.offset`;
* `gConfigTable`: the table;
* `NvmName.names`: the member that a key names. Two keys have the offset of another member.

The rows of the table are made by the macro of the source (`cfTab`): a row has the name of a key,
the offset of a member, and the size of its elements. The model keeps the member instead of the
offset, from which the offset is computed, so that no number has to be copied. What is said of all
rows is decided by going through the table (`nodup_itm`, `nodup_names`, `type_eq`).
-/

namespace W132d.Nvm

/-! ## The record -/

/-- The members of a `struct wifi_conf_t`, an array of structures one by one. -/
inductive Member
  | major | minor
  | calibBypass | txchainMask | rxchainMask
  | dpdLutIdx | tpcGoalChain0 | tpcGoalChain1
  | chain0Lut (i : Fin 8) | chain1Lut (i : Fin 8)
  | channel2gChain0 | channel2gChain1 | channel5gChain0 | channel5gChain1 | freqCompReserved
  | power11b | power11ag | power11n | power11ac | power20mReserved
  | greenWifiOffset | ht40PowerOffset | vht40PowerOffset | vht80PowerOffset | sarPowerOffset
  | meanPowerOffset | tpcMode | magicWord
  | regDomain1 | regDomain2
  | bw20m | bw40m | bw80m | bandEdgeReserved
  | chain0 (i : Fin 39) | chain1 (i : Fin 39)
  | dfsSwitch | powerSaveSwitch | femLanParamSetup | rssiReportDiff
  | address | value
  | btPerformanceCfg0 | btPerformanceCfg1 | wifiPerformanceCfg0 | wifiPerformanceCfg2
  | strategyCfg0 | strategyCfg1 | strategyCfg2 | compatibilityCfg0 | compatibilityCfg1
  | antCfg0 | antCfg1 | isolationCfg0 | isolationCfg1
  | reservedCfg0 | reservedCfg1 | reservedCfg2 | reservedCfg3 | reservedCfg4 | reservedCfg5
  | reservedCfg6 | reservedCfg7
  | rfDataLen | rfData
  deriving DecidableEq

namespace Member

/-- How many bytes an element has. -/
def width : Member → ℕ
  | major | minor | calibBypass | tpcGoalChain0 | tpcGoalChain1 => 2
  | regDomain1 | regDomain2 | address | value => 4
  | btPerformanceCfg0 | btPerformanceCfg1 | wifiPerformanceCfg0 | wifiPerformanceCfg2 => 4
  | strategyCfg0 | strategyCfg1 | strategyCfg2 | compatibilityCfg0 | compatibilityCfg1 => 4
  | antCfg0 | antCfg1 | isolationCfg0 | isolationCfg1 => 4
  | reservedCfg0 | reservedCfg1 | reservedCfg2 | reservedCfg3 => 4
  | reservedCfg4 | reservedCfg5 | reservedCfg6 | reservedCfg7 => 4
  | rfDataLen => 4
  | _ => 1

/-- How many elements there are. A `struct tpc_element_lut_t` has four. -/
def count : Member → ℕ
  | dpdLutIdx | tpcGoalChain0 | tpcGoalChain1 => 8
  | chain0Lut _ | chain1Lut _ => 4
  | channel2gChain0 | channel2gChain1 => 14
  | channel5gChain0 | channel5gChain1 => 25
  | freqCompReserved => 2
  | power11b => 4
  | power11ag => 8
  | power11n => 17
  | power11ac => 20
  | power20mReserved => 3
  | bw20m => 39
  | bw40m => 21
  | bw80m => 6
  | bandEdgeReserved => 2
  | chain0 _ | chain1 _ => 16
  | address | value => 16
  | rfData => 1500
  | _ => 1

/-- Whether an element has a sign. -/
def signed : Member → ℕ → Bool
  | chain0Lut _, i | chain1Lut _, i => 2 ≤ i
  | channel2gChain0, _ | channel2gChain1, _ | channel5gChain0, _ | channel5gChain1, _ => true
  | freqCompReserved, _ => true
  | power11b, _ | power11ag, _ | power11n, _ | power11ac, _ | power20mReserved, _ => true
  | greenWifiOffset, _ | ht40PowerOffset, _ | vht40PowerOffset, _ | vht80PowerOffset, _ => true
  | sarPowerOffset, _ | meanPowerOffset, _ | tpcMode, _ | magicWord, _ => true
  | chain0 _, _ | chain1 _, _ => true
  | dfsSwitch, _ | powerSaveSwitch, _ | femLanParamSetup, _ | rssiReportDiff, _ => true
  | rfDataLen, _ => true
  | _, _ => false

/-- The members as they lie in the record. -/
def all : List Member :=
  [major, minor, calibBypass, txchainMask, rxchainMask, dpdLutIdx, tpcGoalChain0, tpcGoalChain1] ++
  (List.finRange 8).map chain0Lut ++ (List.finRange 8).map chain1Lut ++
  [channel2gChain0, channel2gChain1, channel5gChain0, channel5gChain1, freqCompReserved,
    power11b, power11ag, power11n, power11ac, power20mReserved,
    greenWifiOffset, ht40PowerOffset, vht40PowerOffset, vht80PowerOffset, sarPowerOffset,
    meanPowerOffset, tpcMode, magicWord,
    regDomain1, regDomain2,
    bw20m, bw40m, bw80m, bandEdgeReserved] ++
  (List.finRange 39).map chain0 ++ (List.finRange 39).map chain1 ++
  [dfsSwitch, powerSaveSwitch, femLanParamSetup, rssiReportDiff,
    address, value,
    btPerformanceCfg0, btPerformanceCfg1, wifiPerformanceCfg0, wifiPerformanceCfg2,
    strategyCfg0, strategyCfg1, strategyCfg2, compatibilityCfg0, compatibilityCfg1,
    antCfg0, antCfg1, isolationCfg0, isolationCfg1,
    reservedCfg0, reservedCfg1, reservedCfg2, reservedCfg3, reservedCfg4, reservedCfg5,
    reservedCfg6, reservedCfg7,
    rfDataLen, rfData]

def size (m : Member) : ℕ := m.count * m.width

/-- Where a member begins. -/
def offset (m : Member) : ℕ := Layout.offset size all m

end Member

/-! ## The table -/

/-- The bytes of a string. -/
def bytesOf (s : String) : List UInt8 := s.toByteArray.data.toList

/-- `struct nvm_name_table`, with the member whose offset it has. -/
structure NvmName where
  itm : List UInt8
  member : Member
  type : ℕ
  deriving DecidableEq

def NvmName.memOffset (e : NvmName) : ℕ := e.member.offset

/-- `CF_TAB`. -/
def cfTab (name : String) (m : Member) (type : ℕ) : NvmName := ⟨bytesOf name, m, type⟩

/-- The tables of a chain are numbered from `0`. -/
local instance neZeroLuts : NeZero 8 := ⟨by decide⟩

/-- The channels of a chain are numbered from `0`. -/
local instance neZeroChannels : NeZero 39 := ⟨by decide⟩

open Member in
/-- `g_config_table`. -/
def gConfigTable : List NvmName :=
  [cfTab "Major" major 2, cfTab "Minor" minor 2, cfTab "Calib_Bypass" calibBypass 2,
    cfTab "TxChain_Mask" txchainMask 1, cfTab "RxChain_Mask" rxchainMask 1,
    cfTab "DPD_LUT_idx" dpdLutIdx 1, cfTab "TPC_Goal_Chain0" tpcGoalChain0 2,
    cfTab "TPC_Goal_Chain1" tpcGoalChain1 2, cfTab "Chain0_LUT_0" (chain0Lut 0) 1,
    cfTab "Chain0_LUT_1" (chain0Lut 1) 1, cfTab "Chain0_LUT_2" (chain0Lut 2) 1,
    cfTab "Chain0_LUT_3" (chain0Lut 3) 1, cfTab "Chain0_LUT_4" (chain0Lut 4) 1,
    cfTab "Chain0_LUT_5" (chain0Lut 5) 1, cfTab "Chain0_LUT_6" (chain0Lut 6) 1,
    cfTab "Chain0_LUT_7" (chain0Lut 7) 1, cfTab "Chain1_LUT_0" (chain1Lut 0) 1,
    cfTab "Chain1_LUT_1" (chain1Lut 1) 1, cfTab "Chain1_LUT_2" (chain1Lut 2) 1,
    cfTab "Chain1_LUT_3" (chain1Lut 3) 1, cfTab "Chain1_LUT_4" (chain1Lut 4) 1,
    cfTab "Chain1_LUT_5" (chain1Lut 5) 1, cfTab "Chain1_LUT_6" (chain1Lut 6) 1,
    cfTab "Chain1_LUT_7" (chain1Lut 7) 1, cfTab "2G_Channel_Chain0" channel2gChain0 1,
    cfTab "2G_Channel_Chain1" channel2gChain1 1, cfTab "5G_Channel_Chain0" channel5gChain0 1,
    cfTab "5G_Channel_Chain1" channel5gChain1 1, cfTab "11b_Power" power11b 1,
    cfTab "11ag_Power" power11ag 1, cfTab "11n_Power" power11n 1,
    cfTab "11ac_Power" power11ac 1, cfTab "Green_WIFI_offset" greenWifiOffset 1,
    cfTab "HT40_Power_offset" ht40PowerOffset 1, cfTab "VHT40_Power_offset" vht40PowerOffset 1,
    cfTab "VHT80_Power_offset" vht80PowerOffset 1, cfTab "SAR_Power_offset" sarPowerOffset 1,
    cfTab "Mean_Power_offset" meanPowerOffset 1, cfTab "TPC_mode" tpcMode 1,
    cfTab "MAGIC_word" magicWord 1, cfTab "reg_domain1" regDomain1 4,
    cfTab "reg_domain2" regDomain2 4, cfTab "BW20M" bw20m 1, cfTab "BW40M" bw40m 1,
    cfTab "BW80M" bw80m 1, cfTab "Chain0_1" (chain0 0) 1, cfTab "Chain1_1" (chain1 0) 1,
    cfTab "Chain0_2" (chain0 1) 1, cfTab "Chain1_2" (chain1 1) 1, cfTab "Chain0_3" (chain0 2) 1,
    cfTab "Chain1_3" (chain1 2) 1, cfTab "Chain0_4" (chain0 3) 1, cfTab "Chain1_4" (chain1 3) 1,
    cfTab "Chain0_5" (chain0 4) 1, cfTab "Chain1_5" (chain1 4) 1, cfTab "Chain0_6" (chain0 5) 1,
    cfTab "Chain1_6" (chain1 5) 1, cfTab "Chain0_7" (chain0 6) 1, cfTab "Chain1_7" (chain1 6) 1,
    cfTab "Chain0_8" (chain0 7) 1, cfTab "Chain1_8" (chain1 7) 1, cfTab "Chain0_9" (chain0 8) 1,
    cfTab "Chain1_9" (chain1 8) 1, cfTab "Chain0_10" (chain0 9) 1,
    cfTab "Chain1_10" (chain1 9) 1, cfTab "Chain0_11" (chain0 10) 1,
    cfTab "Chain1_11" (chain1 10) 1, cfTab "Chain0_12" (chain0 11) 1,
    cfTab "Chain1_12" (chain1 11) 1, cfTab "Chain0_13" (chain0 12) 1,
    cfTab "Chain1_13" (chain1 12) 1, cfTab "Chain0_14" (chain0 13) 1,
    cfTab "Chain1_14" (chain1 13) 1, cfTab "Chain0_36" (chain0 14) 1,
    cfTab "Chain1_36" (chain1 14) 1, cfTab "Chain0_40" (chain0 15) 1,
    cfTab "Chain1_40" (chain1 15) 1, cfTab "Chain0_44" (chain0 16) 1,
    cfTab "Chain1_44" (chain1 16) 1, cfTab "Chain0_48" (chain0 17) 1,
    cfTab "Chain1_48" (chain1 17) 1, cfTab "Chain0_52" (chain0 18) 1,
    cfTab "Chain1_52" (chain1 18) 1, cfTab "Chain0_56" (chain0 19) 1,
    cfTab "Chain1_56" (chain1 19) 1, cfTab "Chain0_60" (chain0 20) 1,
    cfTab "Chain1_60" (chain1 20) 1, cfTab "Chain0_64" (chain0 21) 1,
    cfTab "Chain1_64" (chain1 21) 1, cfTab "Chain0_100" (chain0 22) 1,
    cfTab "Chain1_100" (chain1 22) 1, cfTab "Chain0_104" (chain0 23) 1,
    cfTab "Chain1_104" (chain1 23) 1, cfTab "Chain0_108" (chain0 24) 1,
    cfTab "Chain1_108" (chain1 24) 1, cfTab "Chain0_112" (chain0 25) 1,
    cfTab "Chain1_112" (chain1 25) 1, cfTab "Chain0_116" (chain0 26) 1,
    cfTab "Chain1_116" (chain1 26) 1, cfTab "Chain0_120" (chain0 27) 1,
    cfTab "Chain1_120" (chain1 27) 1, cfTab "Chain0_124" (chain0 28) 1,
    cfTab "Chain1_124" (chain1 28) 1, cfTab "Chain0_128" (chain0 29) 1,
    cfTab "Chain1_128" (chain1 29) 1, cfTab "Chain0_132" (chain0 30) 1,
    cfTab "Chain1_132" (chain1 30) 1, cfTab "Chain0_136" (chain0 31) 1,
    cfTab "Chain1_136" (chain1 31) 1, cfTab "Chain0_140" (chain0 32) 1,
    cfTab "Chain1_140" (chain1 32) 1, cfTab "Chain0_144" (chain0 33) 1,
    cfTab "Chain1_144" (chain1 33) 1, cfTab "Chain0_149" (chain0 34) 1,
    cfTab "Chain1_149" (chain1 34) 1, cfTab "Chain0_153" (chain0 35) 1,
    cfTab "Chain1_153" (chain0 35) 1, cfTab "Chain0_157" (chain0 36) 1,
    cfTab "Chain1_157" (chain0 36) 1, cfTab "Chain0_161" (chain0 37) 1,
    cfTab "Chain1_161" (chain1 37) 1, cfTab "Chain0_165" (chain0 38) 1,
    cfTab "Chain1_165" (chain1 38) 1, cfTab "DFS_switch" dfsSwitch 1,
    cfTab "power_save_switch" powerSaveSwitch 1,
    cfTab "ex-Fem_and_ex-LNA_param_setup" femLanParamSetup 1,
    cfTab "rssi_report_diff" rssiReportDiff 1, cfTab "address" address 4, cfTab "value" value 4,
    cfTab "bt_performance_cfg0" btPerformanceCfg0 4,
    cfTab "bt_performance_cfg1" btPerformanceCfg1 4,
    cfTab "wifi_performance_cfg0" wifiPerformanceCfg0 4,
    cfTab "wifi_performance_cfg2" wifiPerformanceCfg2 4, cfTab "strategy_cfg0" strategyCfg0 4,
    cfTab "strategy_cfg1" strategyCfg1 4, cfTab "strategy_cfg2" strategyCfg2 4,
    cfTab "compatibility_cfg0" compatibilityCfg0 4,
    cfTab "compatibility_cfg1" compatibilityCfg1 4, cfTab "ant_cfg0" antCfg0 4,
    cfTab "ant_cfg1" antCfg1 4, cfTab "isolation_cfg0" isolationCfg0 4,
    cfTab "isolation_cfg1" isolationCfg1 4, cfTab "reserved_cfg0" reservedCfg0 4,
    cfTab "reserved_cfg1" reservedCfg1 4, cfTab "reserved_cfg2" reservedCfg2 4,
    cfTab "reserved_cfg3" reservedCfg3 4, cfTab "reserved_cfg4" reservedCfg4 4,
    cfTab "reserved_cfg5" reservedCfg5 4, cfTab "reserved_cfg6" reservedCfg6 4,
    cfTab "reserved_cfg7" reservedCfg7 4, cfTab "rf_config" rfData 1]

/-- The channels of the rows of `tx_scale`. -/
def channels : List ℕ :=
  [1, 2, 3, 4, 5, 6, 7, 8, 9, 10, 11, 12, 13, 14, 36, 40, 44, 48, 52, 56, 60, 64, 100, 104, 108,
    112, 116, 120, 124, 128, 132, 136, 140, 144, 149, 153, 157, 161, 165]

/-- The keys that have the offset of a row of the other chain. -/
def swapped : List (List UInt8) := [bytesOf "Chain1_153", bytesOf "Chain1_157"]

/-- The member that a key names. -/
def NvmName.names (e : NvmName) : Member :=
  if e.itm = bytesOf "Chain1_153" then .chain1 35
  else if e.itm = bytesOf "Chain1_157" then .chain1 36
  else e.member

theorem mem_all (m : Member) : m ∈ Member.all := by
  cases m with
  | chain0Lut i => revert i; decide +kernel
  | chain1Lut i => revert i; decide +kernel
  | chain0 i => revert i; decide +kernel
  | chain1 i => revert i; decide +kernel
  | _ => decide +kernel

/-- There is no padding in the record. -/
theorem aligned (m : Member) : m.width ∣ m.offset :=
  Layout.dvd_offset (show Layout.aligned Member.size Member.width 0 Member.all by decide +kernel)
    (mem_all m)

/-- Different members have no byte in common. -/
theorem disjoint {m m' : Member} (h : m ≠ m') :
    m.offset + m.size ≤ m'.offset ∨ m'.offset + m'.size ≤ m.offset :=
  Layout.disjoint (mem_all m) (mem_all m') h

/-- A number for each member. -/
def Member.rank : Member → ℕ
  | chain0Lut i => 100 + i
  | chain1Lut i => 200 + i
  | chain0 i => 300 + i
  | chain1 i => 400 + i
  | m => m.ctorIdx

theorem nodup_itm : (gConfigTable.map NvmName.itm).Nodup := by
  have h : (gConfigTable.map fun e => Bytes.le e.itm).Nodup := by decide +kernel
  rw [← Function.comp_def, ← List.map_map] at h
  exact h.of_map

/-- The keys name different members. -/
theorem nodup_names : (gConfigTable.map NvmName.names).Nodup := by
  have h : (gConfigTable.map fun e => e.names.rank).Nodup := by decide +kernel
  rw [← Function.comp_def, ← List.map_map] at h
  exact h.of_map

/-- The type of an entry is the size of an element. -/
theorem type_eq : ∀ e ∈ gConfigTable, e.type = e.member.width := by decide +kernel

theorem names_eq : ∀ e ∈ gConfigTable, e.itm ∉ swapped → e.names = e.member := by decide +kernel

/-- The keys of a channel name the rows of both chains. -/
theorem names_channels : ∀ i : Fin 39,
    (gConfigTable[45 + 2 * i.val]?.map fun e => (e.itm, e.names)) =
        some (bytesOf s!"Chain0_{channels[i]!}", .chain0 i) ∧
      (gConfigTable[45 + 2 * i.val + 1]?.map fun e => (e.itm, e.names)) =
        some (bytesOf s!"Chain1_{channels[i]!}", .chain1 i) := by
  decide +kernel

end W132d.Nvm
