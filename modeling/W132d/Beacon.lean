import W132d.Peek

/-!
# Beacons for another channel

If a channel is configured for the access point, the elements of its beacon are rewritten for that
channel before it starts (`sprdwl_dbg_new_beacon_head` and `sprdwl_dbg_new_beacon_tail` in
`dbg_ini_util.c`): the rates are those of the band, and elements that have the channel get the new
one. The loops go on while more than two bytes are left, so that they do not come to a last element
without a body.

* `newBeaconHead`, `newBeaconTail`: the functions, as a loop over the elements each (`rewrite`);
* `HeadRewritten`, `TailRewritten`: the elements are rewritten, and nothing else is read;
* `does_rewrite`: what the loop writes;
* `rewritten_iff`: where the functions are right.

The functions copy, element by element, to a new buffer, and what is read and written is noted down
(`W132d.Peek`). The head has fixed fields in front of its elements. In the tail, the ERP element of
the 2.4 GHz band is written first, in front of all others, and the old one is left out.

How the theorem is proved: each kind of element has a lemma on what is written for it
(`does_headElement`, `does_tailElement`), and the loop writes this for all elements that it comes to
(`does_rewrite`), by induction on the elements. It comes to all of them but for a last one of two
bytes. So the rewritten beacon is complete exactly if what should be written for this one is nothing
(`flatMap_reached_iff`), which is so for the ERP element of a tail only.
-/

namespace W132d.Beacon

open Peek

/-! ## The functions -/

/-- `WLAN_EID_SUPP_RATES`. -/
def wlanEidSuppRates : UInt8 := 1

/-- `WLAN_EID_DS_PARAMS`. -/
def wlanEidDsParams : UInt8 := 3

/-- `WLAN_EID_ERP_INFO`. -/
def wlanEidErpInfo : UInt8 := 42

/-- `WLAN_EID_EXT_SUPP_RATES`. -/
def wlanEidExtSuppRates : UInt8 := 50

/-- `WLAN_EID_HT_OPERATION`. -/
def wlanEidHtOperation : UInt8 := 61

/-- `ERP_INFO_BARKER_PREAMBLE_MODE`. -/
def erpInfoBarkerPreambleMode : UInt8 := 4

/-- The rates of the 5 GHz band. -/
def supp5gRates : List UInt8 := [0x8c, 0x12, 0x98, 0x24, 0xb0, 0x48, 0x60, 0x6c]

def supp24gRates : List UInt8 := [0x82, 0x84, 0x8b, 0x96, 0x0c, 0x12, 0x18, 0x24]

def ext24gRates : List UInt8 :=
  [0x30, 0x48, 0x60, 0x6c, 0x0d, 0x1a, 0x27, 0x34, 0x4e, 0x68, 0x75, 0x82, 0x1a, 0x34, 0x4e, 0x68,
    0x9c, 0xd0, 0xea, 0x04]

def ext5gRates : List UInt8 :=
  [0x0d, 0x1a, 0x27, 0x34, 0x4e, 0x68, 0x75, 0x82, 0x1a, 0x34, 0x4e, 0x68, 0x9c, 0xd0, 0xea, 0x04]

/-- Where the elements of a beacon begin, behind its fixed fields. -/
def variablePos : ℕ := 36

/-- The new buffer, and how far it is written. -/
structure Out where
  mem : ℕ → UInt8
  pos : ℕ

namespace Out

/-- Bytes are put behind what was written. -/
def append (o : Out) (bytes : List UInt8) : Out := ⟨put o.mem o.pos bytes, o.pos + bytes.length⟩

/-- `memcpy` of the element at `ies`. -/
def copy (ies : ℕ) (o : Out) : Peek Out := do
  let size ← byte (ies + 1)
  let bytes ← bytes ies (size.toNat + 2)
  return o.append bytes

/-- The element is copied, and its first byte becomes the channel. -/
def copyPatched (chn : UInt16) (ies : ℕ) (o : Out) : Peek Out := do
  let new ← o.copy ies
  return ⟨put new.mem (o.pos + 2) [chn.toUInt8], new.pos⟩

end Out

/-- The loop over the elements, with `len` bytes left at `ies`. -/
def rewrite (element : ℕ → Out → Peek Out) (len : ℤ) (ies : ℕ) (o : Out) : Peek Out :=
  if _h : 2 < len then do
    let o ← element ies o
    let size ← byte (ies + 1)
    rewrite element (len - (size.toNat + 2)) (ies + (size.toNat + 2)) o
  else return o
termination_by len.toNat
decreasing_by omega

/-- An element of the head. -/
def headElement (chn : UInt16) (ies : ℕ) (o : Out) : Peek Out := do
  let id ← byte ies
  if id = wlanEidSuppRates then
    return o.append ([wlanEidSuppRates, 8] ++ if chn > 14 then supp5gRates else supp24gRates)
  else if id = wlanEidDsParams then o.copyPatched chn ies
  else o.copy ies

/-- An element of the tail. -/
def tailElement (chn : UInt16) (ies : ℕ) (o : Out) : Peek Out := do
  let id ← byte ies
  if id = wlanEidErpInfo then return o
  else if id = wlanEidExtSuppRates then
    let rates := if chn ≤ 14 then ext24gRates else ext5gRates
    return o.append ([wlanEidExtSuppRates, UInt8.ofNat rates.length] ++ rates)
  else if id = wlanEidHtOperation then o.copyPatched chn ies
  else o.copy ies

/-- `sprdwl_dbg_new_beacon_head`. -/
def newBeaconHead (headLen : ℕ) (newHead : ℕ → UInt8) (chn : UInt16) : Peek Out := do
  let head ← bytes 0 headLen
  rewrite (headElement chn) (headLen - variablePos) variablePos ⟨put newHead 0 head, variablePos⟩

/-- `sprdwl_dbg_new_beacon_tail`. -/
def newBeaconTail (tailLen : ℕ) (newTail : ℕ → UInt8) (chn : UInt16) : Peek Out :=
  let tail : Out := ⟨newTail, 0⟩
  let tail := if chn ≤ 14 then tail.append [wlanEidErpInfo, 1, erpInfoBarkerPreambleMode] else tail
  rewrite (tailElement chn) tailLen 0 tail

/-! ## Elements -/

/-- An information element. -/
structure Element where
  id : UInt8
  body : List UInt8
  length_lt : body.length < 256

namespace Element

/-- The bytes of an element. -/
def bytes (e : Element) : List UInt8 := e.id :: UInt8.ofNat e.body.length :: e.body

/-- The element, with another first byte of its body. -/
def patched (chn : UInt16) (e : Element) : List UInt8 :=
  e.id :: UInt8.ofNat e.body.length :: e.body.set 0 chn.toUInt8

/-- What becomes of an element of the head. -/
def forHead (chn : UInt16) (e : Element) : List UInt8 :=
  if e.id = wlanEidSuppRates then
    [wlanEidSuppRates, 8] ++ if chn > 14 then supp5gRates else supp24gRates
  else if e.id = wlanEidDsParams then e.patched chn
  else e.bytes

/-- What becomes of an element of the tail. -/
def forTail (chn : UInt16) (e : Element) : List UInt8 :=
  if e.id = wlanEidErpInfo then []
  else if e.id = wlanEidExtSuppRates then
    if chn ≤ 14 then [wlanEidExtSuppRates, 20] ++ ext24gRates
    else [wlanEidExtSuppRates, 16] ++ ext5gRates
  else if e.id = wlanEidHtOperation then e.patched chn
  else e.bytes

end Element

/-- What is written of the new buffer. -/
def Out.written (o : Out) : List UInt8 := bytesAt o.mem 0 o.pos

/-- The head is rewritten, whatever is behind it or was in the new buffer. -/
def HeadRewritten (fixed : List UInt8) (es : List Element) (chn : UInt16) : Prop :=
  let head := fixed ++ es.flatMap Element.bytes
  ∀ mem newHead, Holds mem 0 head →
    Inside head.length mem (newBeaconHead head.length newHead chn) ∧
      ((newBeaconHead head.length newHead chn).value mem).written =
        fixed ++ es.flatMap (Element.forHead chn)

/-- The tail is rewritten, and begins with the ERP element of the channel. -/
def TailRewritten (es : List Element) (chn : UInt16) : Prop :=
  let tail := es.flatMap Element.bytes
  ∀ mem newTail, Holds mem 0 tail →
    Inside tail.length mem (newBeaconTail tail.length newTail chn) ∧
      ((newBeaconTail tail.length newTail chn).value mem).written =
        (if chn ≤ 14 then [wlanEidErpInfo, 1, erpInfoBarkerPreambleMode] else []) ++
          es.flatMap (Element.forTail chn)

/-! ## What is written -/

variable {mem : ℕ → UInt8} {o : Out} {bs : List UInt8} {e : Element} {es : List Element}
  {pos n : ℕ} {chn : UInt16}

/-- Bytes that were appended are in the output. -/
@[simp] theorem Out.written_append (o : Out) (bs : List UInt8) :
    (o.append bs).written = o.written ++ bs := by
  have h := bytesAt_put o.mem bs (Nat.zero_le o.pos)
  rwa [Nat.sub_zero] at h

/-- An element has two bytes before its body. -/
theorem Element.length_bytes (e : Element) : e.bytes.length = e.body.length + 2 := rfl

/-- The second byte of an element is the length of its body. -/
theorem size_eq (h : Holds mem pos e.bytes) : (mem (pos + 1)).toNat = e.body.length := by
  rw [Element.bytes, holds_cons, holds_cons] at h
  rw [h.2.1, UInt8.toNat_ofNat', Nat.mod_eq_of_lt e.length_lt]

/-- At an element, something does what it should, and reads only the first `n` bytes. -/
def Does (mem : ℕ → UInt8) (n : ℕ) (o : Out) (bs : List UInt8) (m : Peek Out) : Prop :=
  Inside n mem m ∧ (m.value mem).written = o.written ++ bs

/-- An element is copied. -/
theorem does_copy (o : Out) (h : Holds mem pos e.bytes) (hn : pos + e.bytes.length ≤ n) :
    Does mem n o e.bytes (o.copy pos) := by
  have hsize := size_eq h
  have hlen := e.length_bytes
  have hbytes : bytesAt mem pos ((mem (pos + 1)).toNat + 2) = e.bytes := by
    rw [hsize, ← hlen]
    exact h
  refine ⟨?_, ?_⟩
  · rw [Out.copy, Inside, only_byte_bind, only_bytes_bind, forall_add_lt]
    exact ⟨by omega, .inr (by omega), only_pure _⟩
  · rw [Out.copy, value_byte_bind, value_bytes_bind, value_pure, Out.written_append, hbytes]

theorem does_copyPatched (o : Out) (chn : UInt16) (h : Holds mem pos e.bytes)
    (hn : pos + e.bytes.length ≤ n) :
    Does mem n o (e.patched chn) (o.copyPatched chn pos) := by
  obtain ⟨hinside, hwritten⟩ := does_copy o h hn
  refine ⟨only_bind.2 ⟨hinside, only_pure _⟩, ?_⟩
  rw [Out.copyPatched, value_bind, value_pure, Out.written]
  have hset := bytesAt_put_singleton ((o.copy pos).value mem).mem 0 (o.pos + 2)
    ((o.copy pos).value mem).pos chn.toUInt8
  rw [Nat.zero_add] at hset
  have hpos : (o.written).length = o.pos := length_bytesAt
  change bytesAt _ 0 _ = _ at hwritten
  rw [hset, hwritten, ← hpos, List.set_append_right _ _ (Nat.le_add_right _ _),
    Nat.add_sub_cancel_left]
  rfl

/-- An element of the head is rewritten. -/
theorem does_headElement (chn : UInt16) (e : Element) (pos : ℕ) (o : Out)
    (h : Holds mem pos e.bytes) (hn : pos + e.bytes.length ≤ n) :
    Does mem n o (e.forHead chn) (headElement chn pos o) := by
  have hid : mem pos = e.id := (holds_cons.1 h).1
  have hlen := e.length_bytes
  have hrest := does_copy o h hn
  have hpatched := does_copyPatched o chn h hn
  rw [Does, headElement, Inside, only_byte_bind, value_byte_bind, hid, Element.forHead]
  split
  · exact ⟨⟨by omega, only_pure _⟩, o.written_append _⟩
  · split
    · exact ⟨⟨by omega, hpatched.1⟩, hpatched.2⟩
    · exact ⟨⟨by omega, hrest.1⟩, hrest.2⟩

/-- An element of the tail is rewritten. -/
theorem does_tailElement (chn : UInt16) (e : Element) (pos : ℕ) (o : Out)
    (h : Holds mem pos e.bytes) (hn : pos + e.bytes.length ≤ n) :
    Does mem n o (e.forTail chn) (tailElement chn pos o) := by
  have hid : mem pos = e.id := (holds_cons.1 h).1
  have hlen := e.length_bytes
  have hrest := does_copy o h hn
  have hpatched := does_copyPatched o chn h hn
  rw [Does, tailElement, Inside, only_byte_bind, value_byte_bind, hid, Element.forTail]
  split
  · exact ⟨⟨by omega, only_pure _⟩, (List.append_nil _).symm⟩
  · split
    · refine ⟨⟨by omega, only_pure _⟩, ?_⟩
      by_cases hchn : chn ≤ 14
      · rw [if_pos hchn, if_pos hchn]
        exact o.written_append _
      · rw [if_neg hchn, if_neg hchn]
        exact o.written_append _
    · split
      · exact ⟨⟨by omega, hpatched.1⟩, hpatched.2⟩
      · exact ⟨⟨by omega, hrest.1⟩, hrest.2⟩

/-- The elements that a loop comes to. -/
def reached : List Element → List Element
  | [] => []
  | [e] => if e.body = [] then [] else [e]
  | e :: e' :: es => e :: reached (e' :: es)

/-- A turn of the loop. -/
theorem does_rewrite_cons {element : ℕ → Out → Peek Out} {len : ℤ} {bs cs : List UInt8}
    (hlen : 2 < len) (hmem : Holds mem pos e.bytes) (hn : pos + e.bytes.length ≤ n)
    (helement : Does mem n o bs (element pos o))
    (hrest : ∀ o,
      Does mem n o cs (rewrite element (len - e.bytes.length) (pos + e.bytes.length) o)) :
    Does mem n o (bs ++ cs) (rewrite element len pos o) := by
  have hsize := size_eq hmem
  have hbytes := e.length_bytes
  obtain ⟨hinside, hwritten⟩ := hrest ((element pos o).value mem)
  rw [rewrite, dif_pos hlen]
  have hlen' : len - ((mem (pos + 1)).toNat + 2) = len - e.bytes.length := by
    rw [hsize, hbytes]
    push_cast
    rfl
  have hpos : pos + ((mem (pos + 1)).toNat + 2) = pos + e.bytes.length := by
    rw [hsize, hbytes]
  refine ⟨only_bind.2 ⟨helement.1, only_byte_bind.2 ⟨by omega, ?_⟩⟩, ?_⟩
  · rw [hlen', hpos]
    exact hinside
  · rw [value_bind, value_byte_bind, hlen', hpos, hwritten, helement.2, List.append_assoc]

/-- The loop rewrites the elements that it comes to. -/
theorem does_rewrite {element : ℕ → Out → Peek Out} {f : Element → List UInt8}
    (helement : ∀ (e : Element) (pos : ℕ) (o : Out), Holds mem pos e.bytes →
      pos + e.bytes.length ≤ n → Does mem n o (f e) (element pos o))
    (hmem : Holds mem pos (es.flatMap Element.bytes))
    (hn : pos + (es.flatMap Element.bytes).length ≤ n) :
    Does mem n o ((reached es).flatMap f)
      (rewrite element (es.flatMap Element.bytes).length pos o) := by
  induction es generalizing pos o with
  | nil =>
    rw [rewrite, dif_neg (by simp)]
    exact ⟨only_pure _, (List.append_nil _).symm⟩
  | cons e es ih =>
    have hbytes := e.length_bytes
    rw [List.flatMap_cons, holds_append] at hmem
    rw [List.flatMap_cons, List.length_append] at hn ⊢
    by_cases hlast : es = [] ∧ e.body = []
    · -- Only two bytes are left.
      obtain ⟨rfl, hbody⟩ := hlast
      have hempty : e.bytes.length = 2 := by rw [hbytes, hbody]; rfl
      rw [rewrite, dif_neg (by rw [hempty]; decide), reached, if_pos hbody]
      exact ⟨only_pure _, (List.append_nil _).symm⟩
    · have hreached : reached (e :: es) = e :: reached es := by
        cases es with
        | nil => exact if_neg fun hbody => hlast ⟨rfl, hbody⟩
        | cons e' es => rfl
      have hlen : 2 < e.bytes.length + (es.flatMap Element.bytes).length := by
        cases es with
        | nil =>
          have hbody := List.length_pos_of_ne_nil fun hbody => hlast ⟨rfl, hbody⟩
          omega
        | cons e' es =>
          have hbytes' := e'.length_bytes
          rw [List.flatMap_cons, List.length_append]
          omega
      rw [hreached, List.flatMap_cons]
      refine does_rewrite_cons (by exact_mod_cast hlen) hmem.1 (by omega)
        (helement e pos o hmem.1 (by omega)) fun o => ?_
      have hrest : ((e.bytes.length + (es.flatMap Element.bytes).length : ℕ) : ℤ) -
          e.bytes.length = (es.flatMap Element.bytes).length := by
        push_cast
        omega
      rw [hrest]
      exact ih hmem.2 (by omega)

/-- A loop that does not come to the last element has not written what becomes of it. -/
theorem flatMap_reached_iff (f : Element → List UInt8) :
    (reached es).flatMap f = es.flatMap f ↔ ∀ e ∈ es.getLast?, e.body = [] → f e = [] := by
  induction es with
  | nil => simp [reached]
  | cons e es ih =>
    cases es with
    | nil =>
      rw [reached]
      split
      · rename_i hbody
        simp [hbody, eq_comm]
      · rename_i hbody
        simp [hbody]
    | cons e' es =>
      rw [reached, List.flatMap_cons, List.flatMap_cons, List.append_cancel_left_eq, ih,
        List.getLast?_cons_cons]

/-- Nothing is left out of a head. -/
theorem forHead_ne_nil (chn : UInt16) (e : Element) : e.forHead chn ≠ [] := by
  rw [Element.forHead]
  split
  · simp
  · split
    · exact List.cons_ne_nil _ _
    · exact List.cons_ne_nil _ _

/-- Only the ERP element is left out of a tail, in front of which it was written. -/
theorem forTail_eq_nil_iff (chn : UInt16) (e : Element) :
    e.forTail chn = [] ↔ e.id = wlanEidErpInfo := by
  rw [Element.forTail]
  constructor
  · intro h
    by_contra hid
    rw [if_neg hid] at h
    split at h
    · split at h <;> exact absurd h (by simp)
    · split at h
      · exact List.cons_ne_nil _ _ h
      · exact List.cons_ne_nil _ _ h
  · exact fun hid => if_pos hid

/-- What is written of a head. -/
theorem does_newBeaconHead {fixed : List UInt8} (hfixed : fixed.length = variablePos)
    (newHead : ℕ → UInt8) (h : Holds mem 0 (fixed ++ es.flatMap Element.bytes)) :
    let headLen := (fixed ++ es.flatMap Element.bytes).length
    Inside headLen mem (newBeaconHead headLen newHead chn) ∧
      ((newBeaconHead headLen newHead chn).value mem).written =
        fixed ++ (reached es).flatMap (Element.forHead chn) := by
  have hlen : (fixed ++ es.flatMap Element.bytes).length =
      fixed.length + (es.flatMap Element.bytes).length := List.length_append
  have hstart : bytesAt (put newHead 0 (fixed ++ es.flatMap Element.bytes)) 0 variablePos =
      fixed := by
    rw [← hfixed]
    exact (holds_append.1 (holds_put _ _)).1
  have hmem := (holds_append.1 h).2
  rw [Nat.zero_add, hfixed] at hmem
  have hsub : ((fixed ++ es.flatMap Element.bytes).length : ℤ) - variablePos =
      (es.flatMap Element.bytes).length := by
    rw [hlen, hfixed]
    push_cast
    omega
  obtain ⟨hinside, hwritten⟩ := does_rewrite
    (o := ⟨put newHead 0 (fixed ++ es.flatMap Element.bytes), variablePos⟩)
    (does_headElement chn) hmem
    (show _ ≤ (fixed ++ es.flatMap Element.bytes).length by omega)
  have hbytes : bytesAt mem 0 (fixed ++ es.flatMap Element.bytes).length = _ := h
  refine ⟨?_, ?_⟩
  · rw [newBeaconHead, Inside, only_bytes_bind, hbytes, hsub]
    exact ⟨fun i hi => by omega, hinside⟩
  · rw [newBeaconHead, value_bytes_bind, hbytes, hsub, hwritten, Out.written, hstart]

/-- A head is rewritten as it should exactly if its last element has a body. -/
theorem headRewritten_iff {fixed : List UInt8} (hfixed : fixed.length = variablePos) :
    HeadRewritten fixed es chn ↔ ∀ e ∈ es.getLast?, e.body ≠ [] := by
  have hiff : (reached es).flatMap (Element.forHead chn) = es.flatMap (Element.forHead chn) ↔
      ∀ e ∈ es.getLast?, e.body ≠ [] := by
    rw [flatMap_reached_iff]
    exact forall₂_congr fun e _ => imp_congr_right fun _ => iff_false_intro (forHead_ne_nil chn e)
  rw [← hiff]
  constructor
  · intro h
    have hmem := holds_put (fun _ => 0) (fixed ++ es.flatMap Element.bytes)
    have hwritten := (h _ (fun _ => 0) hmem).2
    rw [(does_newBeaconHead hfixed _ hmem).2] at hwritten
    exact List.append_cancel_left hwritten
  · intro h mem newHead hmem
    rw [← h]
    exact does_newBeaconHead hfixed newHead hmem

/-- What is written of a tail. -/
theorem does_newBeaconTail (newTail : ℕ → UInt8) (h : Holds mem 0 (es.flatMap Element.bytes)) :
    let tailLen := (es.flatMap Element.bytes).length
    Inside tailLen mem (newBeaconTail tailLen newTail chn) ∧
      ((newBeaconTail tailLen newTail chn).value mem).written =
        (if chn ≤ 14 then [wlanEidErpInfo, 1, erpInfoBarkerPreambleMode] else []) ++
          (reached es).flatMap (Element.forTail chn) := by
  have hdoes : ∀ o : Out, Does mem (es.flatMap Element.bytes).length o _ _ := fun o =>
    does_rewrite (o := o) (does_tailElement chn) h (Nat.zero_add _).le
  refine ⟨(hdoes _).1, (hdoes _).2.trans ?_⟩
  split
  · rw [Out.written_append]
    rfl
  · rfl

theorem tailRewritten_iff :
    TailRewritten es chn ↔ ∀ e ∈ es.getLast?, e.body = [] → e.id = wlanEidErpInfo := by
  have hiff : (reached es).flatMap (Element.forTail chn) = es.flatMap (Element.forTail chn) ↔
      ∀ e ∈ es.getLast?, e.body = [] → e.id = wlanEidErpInfo := by
    rw [flatMap_reached_iff]
    exact forall₂_congr fun e _ => imp_congr_right fun _ => forTail_eq_nil_iff chn e
  rw [← hiff]
  constructor
  · intro h
    have hmem := holds_put (fun _ => 0) (es.flatMap Element.bytes)
    have hwritten := (h _ (fun _ => 0) hmem).2
    rw [(does_newBeaconTail _ hmem).2] at hwritten
    exact List.append_cancel_left hwritten
  · intro h mem newTail hmem
    rw [← h]
    exact does_newBeaconTail newTail hmem

/-- A head is rewritten as it should exactly if its last element has a body. A tail is, too, or if
    its last element is an ERP element. -/
theorem rewritten_iff (fixed : List UInt8) (es : List Element) (chn : UInt16)
    (hfixed : fixed.length = variablePos) :
    (HeadRewritten fixed es chn ↔ ∀ e ∈ es.getLast?, e.body ≠ []) ∧
      (TailRewritten es chn ↔ ∀ e ∈ es.getLast?, e.body = [] → e.id = wlanEidErpInfo) :=
  ⟨headRewritten_iff hfixed, tailRewritten_iff⟩

/-- The elements of a network before its traffic map: its name, its rates and its channel. -/
def beforeTim : List Element :=
  [⟨0, [0x77, 0x31, 0x33, 0x32], by decide⟩, ⟨wlanEidSuppRates, supp24gRates, by decide⟩,
    ⟨wlanEidDsParams, [1], by decide⟩]

/-- Those behind it: ERP, more rates, and one of a vendor. -/
def behindTim : List Element :=
  [⟨wlanEidErpInfo, [0], by decide⟩, ⟨wlanEidExtSuppRates, ext24gRates, by decide⟩,
    ⟨221, [0, 0x50, 0xf2, 2, 1, 1], by decide⟩]

/-- A head and a tail of several elements, the last ones of which have a body. -/
theorem rewritten_beacon :
    HeadRewritten (List.replicate 36 0) beforeTim 6 ∧ TailRewritten behindTim 6 := by
  have hhead := rewritten_iff (List.replicate 36 0) beforeTim 6 (by decide)
  have htail := rewritten_iff (List.replicate 36 0) behindTim 6 (by decide)
  refine ⟨hhead.1.2 fun e he => ?_, htail.2.2 fun e he hnil => ?_⟩
  · obtain rfl := Option.some.inj he
    exact List.cons_ne_nil _ _
  · obtain rfl := Option.some.inj he
    exact absurd hnil (List.cons_ne_nil _ _)

/-- The SSID of a hidden network. -/
def hidden : Element := ⟨0, [], by decide⟩

/-- A last element without a body is not written. -/
theorem not_rewritten :
    ¬∀ fixed es chn, fixed.length = variablePos →
      HeadRewritten fixed es chn ∧ TailRewritten es chn := by
  intro h
  have hhead := (h (List.replicate 36 0) [hidden] 6 (by decide)).1
  exact (headRewritten_iff (by decide)).1 hhead hidden rfl rfl

end W132d.Beacon
