import Mathlib.Data.List.GetD
import Mathlib.Data.Nat.Digits.Defs
import W132d.Literal
import W132d.TcpAck.Basic

/-!
# The parameters of the filter

The filter has two parameters that are set by a text: how many acknowledgements are held back
(`adjust_tcp_ack_delay`), and from which window on (`adjust_tcp_ack_delay_win`). The number in the
text is read by a loop that multiplies it by ten behind each digit, which only a character that is
no digit undoes. Where the loop ends because of its limit, nothing does.

* `decimalLoop`: the loop;
* `Delimited`: the digits up to a character that is none, or up to the limit;
* `decimal_of_delimited`: what is read for them;
* `adjustTcpAckDelay_iff`, `adjustTcpAckDelayWin_iff`: when it is the number of the digits;
* `CString.ofText`: a text in memory, whose end is the limit.

How the theorem is proved: behind `n` digits, the loop has ten times their number, in 32 bits
(`decimalLoop_eq`, by induction on the digits). A character that is no digit divides by ten, which
gives the number back if nothing was lost; the limit leaves it as it is. The first function takes
two turns at most, so that two digits are the limit already, and it takes values only up to a bound.
For the second one, the limit is the length of the text behind the key, so that a text without an
end of line comes to the limit with its last digit.
-/

namespace W132d.TcpAck

open Literal

/-! ## The functions -/

/-- A string in memory. -/
structure CString where
  bytes : ℕ → UInt8
  ends : ∃ n, bytes n = 0

namespace CString

/-- The length of a string, which ends at its first zero. -/
def strlen (buf : CString) : ℕ := Nat.find buf.ends

/-- `buf[offset + i]`. -/
def charAt (buf : CString) (offset : UInt8) (i : UInt32) : UInt8 :=
  buf.bytes (offset.toUInt32 + i).toNat

end CString

/-- A character from `'0'` to `'9'`. -/
def isDigit (c : UInt8) : Bool := 48 ≤ c && c ≤ 57

/-- The loop of the functions, with the number of turns that are left. -/
def decimalLoop (c : UInt32 → UInt8) : ℕ → UInt32 → UInt32 → UInt32
  | 0, _, value => value
  | n + 1, i, value =>
    if isDigit (c i) then decimalLoop c n (i + 1) ((value + ((c i).toUInt32 - 48)) * 10)
    else value / 10

/-- The number that is read, in at most `limit` turns. -/
def decimal (c : UInt32 → UInt8) (limit : ℕ) : UInt32 := decimalLoop c limit 0 0

/-- `MAX_LEN`. -/
def maxLen : ℕ := 2

/-- `SPRDWL_TCP_ACK_DROP_CNT`. -/
def tcpAckDropCnt : UInt32 := 24

/-- `adjust_tcp_ack_delay`, where `priv` is `g_sprdwl_priv`. -/
def adjustTcpAckDelay (buf : CString) (offset : UInt8) (priv : Option AckManage) :
    Option AckManage :=
  priv.map fun ackM =>
    let cnt := decimal (buf.charAt offset) maxLen
    let cnt := if 100 ≤ cnt then tcpAckDropCnt else cnt
    { ackM with maxDropCnt := cnt.toInt32 }

/-- `len` in `adjust_tcp_ack_delay_win`. -/
def winLen (buf : CString) : UInt32 :=
  UInt32.ofNat buf.strlen - UInt32.ofNat "tcpack_delay_win=".utf8ByteSize

/-- `adjust_tcp_ack_delay_win`. -/
def adjustTcpAckDelayWin (buf : CString) (offset : UInt8) (priv : Option AckManage) :
    Option AckManage :=
  priv.map fun ackM =>
    { ackM with ackWinsize := decimal (buf.charAt offset) (winLen buf).toNat }

/-! ## Digits -/

/-- The number that digits denote. -/
def number (ds : List (Fin 10)) : ℕ := Nat.ofDigits 10 (ds.map Fin.val).reverse

/-- Characters begin with digits, behind which there is a character that is none, or the limit. -/
structure Delimited (c : UInt32 → UInt8) (limit : ℕ) (ds : List (Fin 10)) : Prop where
  le : ds.length ≤ limit
  digit : ∀ k, ∀ h : k < ds.length, (c (UInt32.ofNat k)).toNat = 48 + ds[k]
  stop : ds.length < limit → ¬isDigit (c (UInt32.ofNat ds.length))

variable {c : UInt32 → UInt8} {limit n : ℕ} {ds pre : List (Fin 10)} {d : Fin 10} {i value : UInt32}

/-- Without a digit, the number is zero. -/
@[simp] theorem number_nil : number [] = 0 := rfl

theorem number_append_singleton (ds : List (Fin 10)) (d : Fin 10) :
    number (ds ++ [d]) = d + 10 * number ds := by
  rw [number, List.map_append, List.map_singleton, List.reverse_append, List.reverse_singleton,
    List.singleton_append, Nat.ofDigits_cons, number]

/-- A number has as many digits as it has room for. -/
theorem number_lt (ds : List (Fin 10)) : number ds < 10 ^ ds.length := by
  have h := Nat.ofDigits_lt_base_pow_length (b := 10) (l := (ds.map Fin.val).reverse) (by decide)
  rw [List.length_reverse, List.length_map] at h
  refine h fun d hd => ?_
  obtain ⟨d, _, rfl⟩ := List.mem_map.1 (List.mem_reverse.1 hd)
  exact d.isLt

/-- A digit is between `0` and `9`. -/
theorem isDigit_iff {c : UInt8} : isDigit c ↔ 48 ≤ c.toNat ∧ c.toNat ≤ 57 := by
  rw [isDigit, Bool.and_eq_true, decide_eq_true_eq, decide_eq_true_eq, UInt8.le_iff_toNat_le,
    UInt8.le_iff_toNat_le]
  rfl

/-- A turn of the loop with a digit. -/
theorem decimalLoop_digit (hc : (c i).toNat = 48 + d) :
    decimalLoop c (n + 1) i value = decimalLoop c n (i + 1) ((value + UInt32.ofNat d) * 10) := by
  have hall : ∀ d : Fin 10, (UInt8.ofNat (48 + d)).toUInt32 - 48 = UInt32.ofNat d := by decide
  have hsub : (c i).toUInt32 - 48 = UInt32.ofNat d := by
    rw [← UInt8.ofNat_toNat (x := c i), hc]
    exact hall d
  rw [decimalLoop, if_pos (isDigit_iff.2 (by omega)), hsub]

/-- Behind the digits `pre`, the value is ten times their number, and the rest of the digits is
    read. -/
theorem decimalLoop_eq (pre : List (Fin 10)) (hle : ds.length ≤ n)
    (hdigit : ∀ k, ∀ h : k < ds.length, (c (UInt32.ofNat (pre.length + k))).toNat = 48 + ds[k])
    (hstop : ds.length < n → ¬isDigit (c (UInt32.ofNat (pre.length + ds.length))))
    (hvalue : value.toNat = 10 * number pre % 2 ^ 32) :
    (decimalLoop c n (UInt32.ofNat pre.length) value).toNat =
      if ds.length = n then 10 * number (pre ++ ds) % 2 ^ 32
      else 10 * number (pre ++ ds) % 2 ^ 32 / 10 := by
  induction ds generalizing pre n value with
  | nil =>
    rw [List.append_nil, ← hvalue]
    cases n with
    | zero => rw [decimalLoop, List.length_nil, if_pos rfl]
    | succ n =>
      have hc : ¬isDigit (c (UInt32.ofNat pre.length)) := hstop (Nat.succ_pos n)
      rw [decimalLoop, if_neg hc, List.length_nil, if_neg (Nat.succ_ne_zero n).symm,
        UInt32.toNat_div]
      rfl
  | cons d ds ih =>
    obtain ⟨n, rfl⟩ : ∃ m, n = m + 1 := ⟨n - 1, by rw [List.length_cons] at hle; omega⟩
    have hnext : UInt32.ofNat pre.length + 1 = UInt32.ofNat (pre ++ [d]).length := by
      rw [List.length_append, List.length_singleton, UInt32.ofNat_add]
      rfl
    have hpos : ∀ k, (pre ++ [d]).length + k = pre.length + (k + 1) := by
      intro k
      rw [List.length_append, List.length_singleton]
      omega
    have hc : (c (UInt32.ofNat pre.length)).toNat = 48 + d := hdigit 0 (Nat.succ_pos _)
    rw [decimalLoop_digit hc, hnext, ih]
    · simp only [List.append_assoc, List.singleton_append, List.length_cons,
        Nat.add_right_cancel_iff]
    · exact Nat.le_of_succ_le_succ hle
    · intro k hk
      rw [hpos]
      exact hdigit (k + 1) (Nat.succ_lt_succ hk)
    · intro hlt
      rw [hpos]
      exact hstop (Nat.succ_lt_succ hlt)
    · -- Ten times what was read so far wraps around, and so does the sum.
      have hten : (10 : UInt32).toNat = 10 := rfl
      rw [number_append_singleton, UInt32.toNat_mul, UInt32.toNat_add, hvalue,
        UInt32.toNat_ofNat', hten]
      omega

/-- What is read: ten times the number, unless a character that is no digit ends the loop. -/
theorem decimal_of_delimited (h : Delimited c limit ds) :
    (decimal c limit).toNat =
      if ds.length = limit then 10 * number ds % 2 ^ 32 else 10 * number ds % 2 ^ 32 / 10 := by
  refine decimalLoop_eq [] h.le (fun k hk => ?_) (fun hlt => ?_) rfl
  · rw [List.length_nil, Nat.zero_add]
    exact h.digit k hk
  · rw [List.length_nil, Nat.zero_add]
    exact h.stop hlt

/-! ## The parameters -/

variable {buf : CString} {offset : UInt8} {ackM : AckManage}

/-- A number that an `int` has room for is not changed. -/
theorem toInt_toInt32 {x : UInt32} (h : x.toNat < 2 ^ 31) : x.toInt32.toInt = x.toNat := by
  have hint : x.toInt32.toInt = x.toBitVec.toInt := rfl
  rw [hint, BitVec.toInt_eq_toNat_of_lt (by rw [UInt32.toNat_toBitVec]; omega),
    UInt32.toNat_toBitVec]

/-- What is stored as `max_drop_cnt`. -/
theorem adjustTcpAckDelay_eq (buf : CString) (offset : UInt8) (ackM : AckManage) :
    (adjustTcpAckDelay buf offset (some ackM)).map (fun m => m.maxDropCnt.toInt) =
      some (if 100 ≤ (decimal (buf.charAt offset) maxLen).toNat then 24
        else ((decimal (buf.charAt offset) maxLen).toNat : ℤ)) := by
  rw [adjustTcpAckDelay, Option.map_some, Option.map_some, Option.some_inj]
  generalize decimal (buf.charAt offset) maxLen = cnt
  have hle : (100 : UInt32) ≤ cnt ↔ 100 ≤ cnt.toNat := UInt32.le_iff_toNat_le
  by_cases hcnt : 100 ≤ cnt.toNat
  · simp only [if_pos (hle.2 hcnt), if_pos hcnt]
    rfl
  · simp only [if_neg (hle.not.2 hcnt), if_neg hcnt]
    exact toInt_toInt32 (by omega)

/-- `max_drop_cnt` is the number of the digits if there are fewer than two, and otherwise only if
    this is 0, or the default. -/
theorem adjustTcpAckDelay_iff (h : Delimited (buf.charAt offset) maxLen ds) :
    (adjustTcpAckDelay buf offset (some ackM)).map (fun m => m.maxDropCnt.toInt) =
        some (number ds : ℤ) ↔
      ds.length < maxLen ∨ number ds = 0 ∨ number ds = tcpAckDropCnt.toNat := by
  have hdrop : tcpAckDropCnt.toNat = 24 := rfl
  have hnumber := number_lt ds
  rw [adjustTcpAckDelay_eq, Option.some_inj, decimal_of_delimited h, hdrop]
  rcases h.le.lt_or_eq with hlt | hlen
  · have hpow : 10 ^ ds.length ≤ 10 ^ 1 := Nat.pow_le_pow_right (by decide) (Nat.le_of_lt_succ hlt)
    rw [if_neg hlt.ne, Nat.mod_eq_of_lt (by omega), Nat.mul_div_cancel_left _ (by decide),
      if_neg (by omega)]
    exact iff_of_true rfl (.inl hlt)
  · rw [hlen] at hnumber
    have hnumber : number ds < 100 := hnumber
    rw [if_pos hlen, Nat.mod_eq_of_lt (by omega), hlen]
    split_ifs
    · omega
    · omega

/-- Ten times a number, out of range, is not the number again unless it is 0. -/
theorem ten_mul_mod_eq {v : ℕ} (h : v < 2 ^ 32) : 10 * v % 2 ^ 32 = v ↔ v = 0 := by
  constructor
  · intro heq
    have hdiv := Nat.div_add_mod (10 * v) (2 ^ 32)
    rw [heq] at hdiv
    generalize 10 * v / 2 ^ 32 = q at hdiv
    have hdvd : 2 ^ 32 ∣ 9 * v := ⟨q, by linarith⟩
    have hcoprime : Nat.Coprime (2 ^ 32) 9 := by decide
    exact Nat.eq_zero_of_dvd_of_lt (hcoprime.dvd_of_dvd_mul_left hdvd) h
  · rintro rfl
    rfl

/-- The multiplication by ten is undone unless its result is out of range. -/
theorem ten_mul_mod_div_eq {v : ℕ} : 10 * v % 2 ^ 32 / 10 = v ↔ 10 * v < 2 ^ 32 := by
  constructor
  · intro heq
    have hlt : 10 * v % 2 ^ 32 < 2 ^ 32 := Nat.mod_lt _ (by decide)
    omega
  · intro hlt
    rw [Nat.mod_eq_of_lt hlt, Nat.mul_div_cancel_left v (by decide)]

/-- `ack_winsize` is the number of the digits if this is 0, and otherwise only if the digits end in
    front of the limit, and ten times the number is in range. -/
theorem adjustTcpAckDelayWin_iff (h : Delimited (buf.charAt offset) (winLen buf).toNat ds)
    (hrange : number ds < 2 ^ 32) :
    (adjustTcpAckDelayWin buf offset (some ackM)).map (fun m => m.ackWinsize.toNat) =
        some (number ds) ↔
      number ds = 0 ∨ ds.length < (winLen buf).toNat ∧ 10 * number ds < 2 ^ 32 := by
  have hwin : (adjustTcpAckDelayWin buf offset (some ackM)).map (fun m => m.ackWinsize.toNat) =
      some (decimal (buf.charAt offset) (winLen buf).toNat).toNat := rfl
  rw [hwin, Option.some_inj, decimal_of_delimited h]
  rcases h.le.lt_or_eq with hlt | hlen
  · rw [if_neg hlt.ne, ten_mul_mod_div_eq]
    constructor
    · exact fun hten => .inr ⟨hlt, hten⟩
    · rintro (hzero | ⟨_, hten⟩)
      · rw [hzero]
        decide
      · exact hten
  · rw [if_pos hlen, ten_mul_mod_eq hrange]
    constructor
    · exact .inl
    · rintro (hzero | ⟨hlt, _⟩)
      · exact hzero
      · exact absurd hlen hlt.ne

/-! ## Texts -/

/-- A text in memory. What is behind its end is not known. -/
def CString.ofText (text : List UInt8) (junk : ℕ → UInt8) : CString where
  bytes i := if i = text.length then 0 else text.getD i (junk i)
  ends := ⟨text.length, if_pos rfl⟩

/-- The characters of digits. -/
def digitText (ds : List (Fin 10)) : List UInt8 := ds.map fun d => UInt8.ofNat (48 + d.val)

variable {key text rest : List UInt8} {junk : ℕ → UInt8}

/-- A text without zeros is as long as it is. -/
theorem strlen_ofText (h : 0 ∉ text) : (CString.ofText text junk).strlen = text.length := by
  rw [CString.strlen, Nat.find_eq_iff]
  refine ⟨if_pos rfl, fun n hn => ?_⟩
  show ¬(if n = text.length then 0 else text.getD n (junk n)) = 0
  rw [if_neg hn.ne, List.getD_eq_getElem _ _ hn]
  exact fun heq => h (heq ▸ List.getElem_mem hn)

/-- The character of a digit is behind that of `0` by its value. -/
theorem toNat_digit (d : Fin 10) : (UInt8.ofNat (48 + d)).toNat = 48 + d := by
  revert d
  decide

theorem zero_notMem_digitText (ds : List (Fin 10)) : 0 ∉ digitText ds := by
  intro h
  obtain ⟨d, _, hd⟩ := List.mem_map.1 h
  have htoNat := toNat_digit d
  have hzero : (0 : UInt8).toNat = 0 := rfl
  rw [hd] at htoNat
  omega

/-- The characters behind a key, which is as long as the offset, and the end of the text. -/
theorem charAt_ofText {k : ℕ} (hkey : key.length = offset.toNat) (hk : key.length + k < 2 ^ 32) :
    (CString.ofText (key ++ text) junk).charAt offset (UInt32.ofNat k) =
      if k = text.length then 0 else text.getD k (junk (key.length + k)) := by
  have hindex : (offset.toUInt32 + UInt32.ofNat k).toNat = key.length + k := by
    rw [UInt32.toNat_add, UInt32.toNat_ofNat', UInt8.toNat_toUInt32, hkey]
    omega
  rw [CString.charAt, hindex]
  show (if key.length + k = (key ++ text).length then 0 else _) = _
  rw [List.length_append, List.getD_append_right _ _ _ _ (Nat.le_add_right _ _),
    Nat.add_sub_cancel_left]
  simp only [Nat.add_left_cancel_iff]

/-- The digits of a text behind a key are delimited by what follows, or by its end. -/
theorem delimited_ofText (ds : List (Fin 10)) (rest : List UInt8) (junk : ℕ → UInt8)
    (hkey : key.length = offset.toNat) (hlen : (key ++ (digitText ds ++ rest)).length < 2 ^ 32)
    (hrest : ∀ c ∈ rest.head?, ¬isDigit c) (hle : ds.length ≤ limit) :
    Delimited ((CString.ofText (key ++ (digitText ds ++ rest)) junk).charAt offset) limit ds := by
  have hds : (digitText ds).length = ds.length := List.length_map _
  rw [List.length_append, List.length_append, hds] at hlen
  refine ⟨hle, fun k hk => ?_, fun _ => ?_⟩
  · have hk' : k < (digitText ds).length := by rwa [hds]
    rw [charAt_ofText hkey (by omega), List.length_append, hds, if_neg (by omega),
      List.getD_append _ _ _ _ hk', List.getD_eq_getElem _ _ hk', ← toNat_digit]
    exact congrArg UInt8.toNat (List.getElem_map _)
  · rw [charAt_ofText hkey (by omega), List.length_append, hds,
      List.getD_append_right _ _ _ _ hds.le, hds, Nat.sub_self]
    cases rest with
    | nil =>
      rw [List.length_nil, Nat.add_zero, if_pos rfl]
      decide
    | cons c rest =>
      rw [List.length_cons, if_neg (by omega)]
      exact hrest c rfl

/-- `"tcpack_delay_win="`. -/
def winKey : List UInt8 := "tcpack_delay_win=".toByteArray.data.toList

/-- `"tcpack_delay_cnt="`. -/
def cntKey : List UInt8 := "tcpack_delay_cnt=".toByteArray.data.toList

/-- The key of the window has the length that is compared. -/
theorem length_winKey : winKey.length = (17 : UInt8).toNat := rfl

theorem length_cntKey : cntKey.length = (17 : UInt8).toNat := rfl

/-- `len` is the length of the text behind the key. -/
theorem winLen_ofText (hlen : (winKey ++ text).length < 2 ^ 32) (htext : 0 ∉ text) :
    (winLen (CString.ofText (winKey ++ text) junk)).toNat = text.length := by
  have hkey : winKey.length = 17 := rfl
  have hzero : 0 ∉ winKey ++ text := by
    rw [List.mem_append, not_or]
    exact ⟨by decide, htext⟩
  have hsize : UInt32.ofNat "tcpack_delay_win=".utf8ByteSize = 17 := rfl
  rw [List.length_append, hkey] at hlen
  have hstrlen : (UInt32.ofNat (17 + text.length)).toNat = 17 + text.length :=
    UInt32.toNat_ofNat_of_lt' hlen
  rw [winLen, strlen_ofText hzero, hsize, List.length_append, hkey, UInt32.toNat_sub_of_le,
    hstrlen]
  · exact Nat.add_sub_cancel_left ..
  · rw [UInt32.le_iff_toNat_le, hstrlen]
    exact Nat.le_add_right _ _

/-- The limit for a window that is written as a text. -/
theorem winLen_digitText (ds : List (Fin 10)) (rest : List UInt8) (junk : ℕ → UInt8)
    (hlen : (winKey ++ (digitText ds ++ rest)).length < 2 ^ 32) (hzero : 0 ∉ rest) :
    (winLen (.ofText (winKey ++ (digitText ds ++ rest)) junk)).toNat = ds.length + rest.length := by
  have htext : 0 ∉ digitText ds ++ rest := by
    rw [List.mem_append, not_or]
    exact ⟨zero_notMem_digitText ds, hzero⟩
  rw [winLen_ofText hlen htext, List.length_append, digitText, List.length_map]

/-- A window that is written as a text is stored iff something follows the digits and ten times the
    number is in range, or it is 0. -/
theorem adjustTcpAckDelayWin_ofText_iff (hlen : (winKey ++ (digitText ds ++ rest)).length < 2 ^ 32)
    (hzero : 0 ∉ rest) (hrest : ∀ c ∈ rest.head?, ¬isDigit c) (hrange : number ds < 2 ^ 32) :
    (adjustTcpAckDelayWin (.ofText (winKey ++ (digitText ds ++ rest)) junk) 17 (some ackM)).map
        (fun m => m.ackWinsize.toNat) = some (number ds) ↔
      number ds = 0 ∨ rest ≠ [] ∧ 10 * number ds < 2 ^ 32 := by
  have hwin := winLen_digitText ds rest junk hlen hzero
  have hdelim := delimited_ofText ds rest junk length_winKey hlen hrest
    (hwin.ge.trans' (Nat.le_add_right _ _))
  rw [adjustTcpAckDelayWin_iff hdelim hrange, hwin, lt_add_iff_pos_right, List.length_pos_iff]

/-- Both parameters are the numbers of the digits: that of `adjust_tcp_ack_delay` iff there are
    fewer than two, or it is 0 or the default, and that of `adjust_tcp_ack_delay_win` iff it is 0 or
    the digits end in front of the limit and ten times it is in range. -/
theorem adjusted_iff (buf : CString) (offset : UInt8) (ackM : AckManage) (ds : List (Fin 10)) :
    (Delimited (buf.charAt offset) maxLen ds →
      ((adjustTcpAckDelay buf offset (some ackM)).map (fun m => m.maxDropCnt.toInt) =
          some (number ds : ℤ) ↔
        ds.length < maxLen ∨ number ds = 0 ∨ number ds = tcpAckDropCnt.toNat)) ∧
    (Delimited (buf.charAt offset) (winLen buf).toNat ds → number ds < 2 ^ 32 →
      ((adjustTcpAckDelayWin buf offset (some ackM)).map (fun m => m.ackWinsize.toNat) =
          some (number ds) ↔
        number ds = 0 ∨ ds.length < (winLen buf).toNat ∧ 10 * number ds < 2 ^ 32)) :=
  ⟨adjustTcpAckDelay_iff, adjustTcpAckDelayWin_iff⟩

/-- `tcpack_delay_cnt=7`, and `tcpack_delay_win=512` with a newline. -/
theorem adjusted_512_newline :
    (adjustTcpAckDelay (.ofText (cntKey ++ (digitText [7] ++ [])) fun _ => 0) 17
        (some (tcpAckInit 0 0))).map (fun m => m.maxDropCnt.toInt) = some 7 ∧
      (adjustTcpAckDelayWin (.ofText (winKey ++ (digitText [5, 1, 2] ++ [10])) fun _ => 0) 17
        (some (tcpAckInit 0 0))).map (fun m => m.ackWinsize.toNat) = some 512 := by
  have hlen := winLen_digitText [5, 1, 2] [10] (fun _ => 0) (by decide) (by decide)
  have hcnt := delimited_ofText [7] [] (fun _ => 0) length_cntKey (by decide) (by decide)
    (show [7].length ≤ maxLen by decide)
  have hwin := delimited_ofText [5, 1, 2] [10] (fun _ => 0) length_winKey (by decide) (by decide)
    (hlen.ge.trans' (by decide))
  constructor
  · exact ((adjusted_iff _ 17 _ [7]).1 hcnt).2 (.inl (by decide))
  · refine ((adjusted_iff _ 17 _ [5, 1, 2]).2 hwin (by decide)).2 (.inr ⟨?_, by decide⟩)
    rw [hlen]
    decide

/-- `tcpack_delay_win=512` without a newline sets 5120. -/
theorem adjusted_512 :
    ¬((∀ (buf : CString) (offset : UInt8) (ackM : AckManage) (ds : List (Fin 10)),
      Delimited (buf.charAt offset) maxLen ds →
        (adjustTcpAckDelay buf offset (some ackM)).map (fun m => m.maxDropCnt.toInt) =
          some (number ds : ℤ)) ∧
    ∀ (buf : CString) (offset : UInt8) (ackM : AckManage) (ds : List (Fin 10)),
      Delimited (buf.charAt offset) (winLen buf).toNat ds → number ds < 2 ^ 32 →
        (adjustTcpAckDelayWin buf offset (some ackM)).map (fun m => m.ackWinsize.toNat) =
          some (number ds)) := by
  rintro ⟨_, hwin⟩
  have hlen := winLen_digitText [5, 1, 2] [] (fun _ => 0) (by decide) (by decide)
  have hdelim := delimited_ofText [5, 1, 2] [] (fun _ => 0) length_winKey (by decide) (by decide)
    hlen.ge
  have h := hwin _ 17 (tcpAckInit 0 0) [5, 1, 2] hdelim (by decide)
  rcases (adjustTcpAckDelayWin_iff hdelim (by decide)).1 h with hzero | ⟨hlt, _⟩
  · exact absurd hzero (by decide)
  · rw [hlen] at hlt
    exact lt_irrefl _ hlt

end W132d.TcpAck
