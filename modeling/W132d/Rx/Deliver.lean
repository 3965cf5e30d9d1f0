import W132d.Rx.Csum

/-!
# Delivery of received packets

An interface is not removed while something refers to it. `sprdwl_rx_skb_process` takes a reference
to the interface that a packet is for, and gives it back when the packet was passed on. But it drops
an IPv6 packet whose two addresses are the same after it has taken the reference, and does not give
it back then.

* `ctxIdToVif`, `sprdwlPutVif`, `sprdwlRxSkbProcess`: the functions;
* `Balanced`: the skb was consumed once, and the references are as they were;
* `balanced_iff`: the packets for which they are;
* `ref_run`: after a run, the references that are left are those of the packets dropped so.
-/

namespace W132d.Rx

/-! ## The functions -/

namespace Memory

/-- `ctx_id` of the `rx_msdu_desc` at `pos`. -/
def ctxId (mem : Memory) (pos : ℕ) : ℕ := (mem pos).toNat >>> 4

/-- `bc_mc_w2w_flag`. -/
def bcMcW2wFlag (mem : Memory) (pos : ℕ) : Bool := (mem (pos + 12)).toNat.testBit 3

/-- `uc_w2w_flag`. -/
def ucW2wFlag (mem : Memory) (pos : ℕ) : Bool := (mem (pos + 12)).toNat.testBit 5

/-- `h_proto`, as the processor reads it. -/
def hProto (eth : Memory) : ℕ := (eth 12).toNat + 256 * (eth 13).toNat

end Memory

/-- `SPRDWL_MAC_INDEX_MAX`. -/
def macIndexMax : ℕ := 4

/-- `enum sprdwl_mode`. -/
inductive Mode
  | none
  | station
  | ap
  | p2pDevice
  | p2pClient
  | p2pGo
  | ibss
  deriving DecidableEq

/-- An interface, with a device of `N` unless it is one for the management only. -/
structure Vif (N : Type) where
  ctxId : ℕ
  mode : Mode
  ndev : Option N
  ref : ℤ
  deriving DecidableEq

/-- An skb, the memory from its data on and how much room there is behind them. -/
structure Skb where
  mem : Memory
  tailroom : ℕ

/-- The skb that was received, or the copy of it that is forwarded. -/
inductive Buf
  | skb
  | copy
  deriving DecidableEq

/-- What becomes of a buffer: `dev_queue_xmit`, `sprdwl_netif_rx` and `dev_kfree_skb`. -/
inductive Consumed (N : Type)
  | xmit (buf : Buf) (ndev : N)
  | netifRx (buf : Buf) (ndev : N)
  | free (buf : Buf)

/-- The buffer that was consumed. -/
def Consumed.buf {N : Type} : Consumed N → Buf
  | .xmit buf _ => buf
  | .netifRx buf _ => buf
  | .free buf => buf

section

variable {N : Type}

def Vif.get (vif : Vif N) : Vif N := { vif with ref := vif.ref + 1 }

def Vif.put (vif : Vif N) : Vif N := { vif with ref := vif.ref - 1 }

/-- The interfaces, with a reference to the one that is found. -/
def ctxIdToVif (vifs : List (Vif N)) (vifCtxId : ℕ) : List (Vif N) × Option ℕ :=
  match vifs.findIdx? (·.ctxId = vifCtxId) with
  | none => (vifs, none)
  | some i => (vifs.modify i Vif.get, some i)

/-- A reference to one of the interfaces is put. -/
def sprdwlPutVif (vifs : List (Vif N)) (i : ℕ) : List (Vif N) := vifs.modify i Vif.put

/-- An IPv6 packet from a station to itself. -/
def IsLoopback (eth : Memory) : Prop := IsIpv6 eth ∧ eth.bytes 0 6 = eth.bytes 6 6

instance (eth : Memory) : Decidable (IsLoopback eth) := inferInstanceAs (Decidable (_ ∧ _))

/-- The mode is `SPRDWL_MODE_AP` or `SPRDWL_MODE_P2P_GO`. -/
def Mode.isAp (mode : Mode) : Bool := mode = .ap ∨ mode = .p2pGo

/-- The end of `sprdwl_rx_skb_process`. `pskb_copy` makes a copy if there is memory for one. The
    type is compared in the byte order of the processor here. -/
def deliver (copied : Bool) (mode : Mode) (ndev : N) (mem : Memory) : List (Consumed N) :=
  if mode.isAp ∧ mem.ucW2wFlag 0 then [.xmit .skb ndev]
  else
    (if mode.isAp ∧ mem.bcMcW2wFlag 0 ∧ mem.eth.hProto ≠ 0x0800 ∧ mem.eth.hProto ≠ 0x86dd ∧
        copied then [.xmit .copy ndev] else []) ++ [.netifRx .skb ndev]

/-- The interfaces afterwards, and what became of the buffers. There is nothing if the kernel stops:
    at `BUG_ON` if the interface has no device, and in `skb_put` if the packet is longer than the
    room in the skb. -/
def sprdwlRxSkbProcess (copied : Bool) (vifs : List (Vif N)) (skb : Skb) :
    Option (List (Vif N) × List (Consumed N)) :=
  if skb.mem.ctxId 0 ≥ macIndexMax then some (vifs, [.free .skb])
  else
    match ctxIdToVif vifs (skb.mem.ctxId 0) with
    | (vifs, none) => some (vifs, [.free .skb])
    | (vifs, some i) => do
      let vif ← vifs[i]?
      let ndev ← vif.ndev
      guard (skb.mem.msduTotalLen 0 ≤ skb.tailroom)
      if IsLoopback skb.mem.eth then return (vifs, [.free .skb])
      return (sprdwlPutVif vifs i, deliver copied vif.mode ndev skb.mem)

/-- Packets one after the other. -/
def run (vifs : List (Vif N)) : List (Bool × Skb) → Option (List (Vif N))
  | [] => some vifs
  | (copied, skb) :: skbs => do
    let (vifs, _) ← sprdwlRxSkbProcess copied vifs skb
    run vifs skbs

/-! ## The references -/

/-- The skb is consumed once, and the references are as they were. -/
def Balanced (copied : Bool) (vifs : List (Vif N)) (skb : Skb) : Prop :=
  ∃ consumed, sprdwlRxSkbProcess copied vifs skb = some (vifs, consumed) ∧
    consumed.countP (·.buf = .skb) = 1

/-- The interface that a packet is for. -/
def target (vifs : List (Vif N)) (skb : Skb) : Option ℕ :=
  if skb.mem.ctxId 0 ≥ macIndexMax then none
  else vifs.findIdx? (·.ctxId = skb.mem.ctxId 0)

/-- If there is an interface for the packet, it has a device, the packet is in the skb, and it is
    not one from a station to itself. -/
def Deliverable (vifs : List (Vif N)) (skb : Skb) : Prop :=
  ∀ i ∈ target vifs skb, ∀ vif ∈ vifs[i]?, vif.ndev.isSome ∧
    skb.mem.msduTotalLen 0 ≤ skb.tailroom ∧ ¬IsLoopback skb.mem.eth

variable {copied : Bool} {vifs vifs' : List (Vif N)} {skb : Skb} {consumed : List (Consumed N)}
  {i : ℕ}

/-- Taking and putting one is nothing. -/
theorem Vif.put_get (vif : Vif N) : vif.get.put = vif := by
  simp [Vif.get, Vif.put]

theorem put_get (vifs : List (Vif N)) (i : ℕ) :
    sprdwlPutVif (vifs.modify i Vif.get) i = vifs := by
  rw [sprdwlPutVif, List.modify_modify_eq]
  have hid : Vif.put ∘ Vif.get = (id : Vif N → Vif N) := funext Vif.put_get
  rw [hid, List.modify_id]

/-- The buffer is consumed once. -/
theorem countP_deliver (copied : Bool) (mode : Mode) (ndev : N) (mem : Memory) :
    (deliver copied mode ndev mem).countP (·.buf = .skb) = 1 := by
  rw [deliver]
  split
  · rfl
  · split <;> rfl

/-- All that the function can do. -/
theorem process_eq (copied : Bool) (vifs : List (Vif N)) (skb : Skb) :
    sprdwlRxSkbProcess copied vifs skb =
      match target vifs skb with
      | none => some (vifs, [.free .skb])
      | some i => do
        let vif ← vifs[i]?
        let ndev ← vif.ndev
        guard (skb.mem.msduTotalLen 0 ≤ skb.tailroom)
        if IsLoopback skb.mem.eth then return (vifs.modify i Vif.get, [.free .skb])
        return (vifs, deliver copied vif.mode ndev skb.mem) := by
  rw [sprdwlRxSkbProcess, target]
  split
  · rfl
  · rw [ctxIdToVif]
    cases vifs.findIdx? (·.ctxId = skb.mem.ctxId 0) with
    | none => rfl
    | some i =>
      simp only [put_get]
      rw [List.getElem?_modify_eq]
      cases vifs[i]? <;> rfl

/-- The interface of a packet is there. -/
theorem exists_of_target (h : target vifs skb = some i) : ∃ vif, vifs[i]? = some vif := by
  rw [target] at h
  split at h
  · exact absurd h (by simp)
  · obtain ⟨hi, -⟩ := List.findIdx?_eq_some_iff_getElem.1 h
    exact ⟨vifs[i], List.getElem?_eq_getElem hi⟩

/-- A reference that was taken and not put is seen. -/
theorem modify_get_ne {vif : Vif N} (h : vifs[i]? = some vif) : vifs.modify i Vif.get ≠ vifs := by
  intro heq
  have hi : (vifs.modify i Vif.get)[i]? = vifs[i]? := by rw [heq]
  rw [List.getElem?_modify_eq, h] at hi
  have href : vif.ref + 1 = vif.ref := congrArg Vif.ref (Option.some.inj hi)
  omega

/-- For a packet with an interface, everything is balanced exactly if it is delivered there. -/
theorem balanced_of_target (h : target vifs skb = some i) {vif : Vif N}
    (hvif : vifs[i]? = some vif) :
    Balanced copied vifs skb ↔ vif.ndev.isSome ∧ skb.mem.msduTotalLen 0 ≤ skb.tailroom ∧
      ¬IsLoopback skb.mem.eth := by
  rw [Balanced, process_eq, h]
  simp only [hvif, Option.bind_eq_bind, Option.bind_some]
  cases vif.ndev with
  | none => simp
  | some ndev =>
    by_cases hlen : skb.mem.msduTotalLen 0 ≤ skb.tailroom
    swap
    · simp [hlen]
    by_cases hloopback : IsLoopback skb.mem.eth
    · -- The reference is not given back.
      simp [hlen, hloopback, modify_get_ne hvif]
    · simp [hlen, hloopback, countP_deliver]

/-- A packet is passed on or freed, with the references as they were, if it is one of these only. -/
theorem balanced_iff (copied : Bool) (vifs : List (Vif N)) (skb : Skb) :
    Balanced copied vifs skb ↔ Deliverable vifs skb := by
  cases h : target vifs skb with
  | none =>
    have hbalanced : Balanced copied vifs skb := by
      rw [Balanced, process_eq, h]
      exact ⟨_, rfl, rfl⟩
    refine ⟨fun _ i hi => ?_, fun _ => hbalanced⟩
    rw [h] at hi
    exact absurd hi (by simp)
  | some i =>
    obtain ⟨vif, hvif⟩ := exists_of_target h
    rw [balanced_of_target h hvif, Deliverable, h]
    simp [hvif]

/-- An IPv6 packet for the first interface, with the address of one station twice. -/
def loopback : Skb where
  mem pos := if pos = 1 then 28 else if pos = 2 then 60 else if pos = 28 ∨ pos = 34 then 2
    else if pos = 40 then 0x86 else if pos = 41 then 0xdd else 0
  tailroom := 1600

/-- If the interface has no device, the reference is not put. -/
theorem not_balanced : ¬∀ (copied : Bool) (vifs : List (Vif Unit)) (skb : Skb),
    Balanced copied vifs skb := by
  intro h
  have hbalanced := h false [⟨0, .station, some (), 0⟩] loopback
  rw [balanced_of_target (i := 0) (by decide) rfl] at hbalanced
  exact hbalanced.2.2 (by decide)

/-! ## Runs -/

/-- An IPv6 packet from a station to itself takes a reference, and no other packet does. -/
theorem process_cases (h : sprdwlRxSkbProcess copied vifs skb = some (vifs', consumed)) :
    (∃ i, target vifs skb = some i ∧ IsLoopback skb.mem.eth ∧ vifs' = vifs.modify i Vif.get) ∨
      ((target vifs skb = none ∨ ¬IsLoopback skb.mem.eth) ∧ vifs' = vifs) := by
  rw [process_eq] at h
  cases htarget : target vifs skb with
  | none =>
    rw [htarget] at h
    obtain ⟨rfl, -⟩ : vifs = vifs' ∧ _ := by simpa using h
    exact .inr ⟨.inl rfl, rfl⟩
  | some i =>
    obtain ⟨vif, hvif⟩ := exists_of_target htarget
    rw [htarget] at h
    simp only [hvif, Option.bind_eq_bind, Option.bind_some, Option.bind_eq_some_iff] at h
    obtain ⟨ndev, -, -, -, h⟩ := h
    split at h
    · rename_i hloopback
      obtain ⟨rfl, -⟩ : vifs.modify i Vif.get = vifs' ∧ _ := by simpa using h
      exact .inl ⟨i, rfl, hloopback, rfl⟩
    · rename_i hloopback
      obtain ⟨rfl, -⟩ : vifs = vifs' ∧ _ := by simpa using h
      exact .inr ⟨.inr hloopback, rfl⟩

/-- The references do not matter to where a packet goes. -/
theorem target_modify (vifs : List (Vif N)) (i : ℕ) (skb : Skb) :
    target (vifs.modify i Vif.get) skb = target vifs skb := by
  have hctxId : (vifs.modify i Vif.get).map Vif.ctxId = vifs.map Vif.ctxId := by
    refine List.ext_getElem? fun j => ?_
    rw [List.getElem?_map, List.getElem?_map, List.getElem?_modify]
    split
    · cases vifs[j]? <;> rfl
    · simp
  have hfind : ∀ vs : List (Vif N), vs.findIdx? (·.ctxId = skb.mem.ctxId 0) =
      (vs.map Vif.ctxId).findIdx? (· = skb.mem.ctxId 0) := by
    intro vs
    rw [List.findIdx?_map]
    rfl
  rw [target, target, hfind, hctxId, hfind]

/-- The packets of a run that keep a reference to an interface. -/
def kept (vifs : List (Vif N)) (i : ℕ) (skbs : List (Bool × Skb)) : ℕ :=
  skbs.countP fun p => target vifs p.2 = some i ∧ IsLoopback p.2.mem.eth

/-- The references after a run. -/
theorem ref_run {skbs : List (Bool × Skb)} (h : run vifs skbs = some vifs') {vif : Vif N}
    (hvif : vifs[i]? = some vif) :
    vifs'[i]? = some { vif with ref := vif.ref + kept vifs i skbs } := by
  -- By induction on the packets. Each one takes a reference of its interface at most, which the
  -- others do not change.
  induction skbs generalizing vifs vif with
  | nil =>
    obtain rfl : vifs = vifs' := Option.some.inj h
    simp [hvif, kept]
  | cons p skbs ih =>
    obtain ⟨copied, skb⟩ := p
    obtain ⟨⟨vifs₁, consumed⟩, hprocess, hrun⟩ := Option.bind_eq_some_iff.1 h
    rcases process_cases hprocess with ⟨j, htarget, hloopback, rfl⟩ | ⟨hnot, rfl⟩
    · -- Where a packet goes does not depend on the references.
      have hkept : ∀ k, kept (vifs.modify j Vif.get) k skbs = kept vifs k skbs := by
        intro k
        simp only [kept, target_modify]
      by_cases hij : j = i
      · subst hij
        have hget : (vifs.modify j Vif.get)[j]? = some vif.get := by
          rw [List.getElem?_modify_eq, hvif]
          rfl
        rw [ih hrun hget, hkept, kept, kept, List.countP_cons_of_pos (by simp [htarget, hloopback])]
        simp [Vif.get]
        ring
      · have hget : (vifs.modify j Vif.get)[i]? = some vif := by
          rw [List.getElem?_modify_ne _ _ hij, hvif]
        rw [ih hrun hget, hkept, kept, kept,
          List.countP_cons_of_neg (by simp [htarget, hij])]
    · -- The packet goes nowhere, or its reference is put again.
      have hcons : kept vifs₁ i ((copied, skb) :: skbs) = kept vifs₁ i skbs := by
        rw [kept, kept, List.countP_cons_of_neg]
        rcases hnot with hnone | hloopback
        · simp [hnone]
        · simp [hloopback]
      rw [ih hrun hvif, hcons]

/-- A run of packets that are passed on or freed as they should. The interfaces are as they were, so
    that nothing refers to those that nothing referred to. -/
theorem run_of_deliverable {skbs : List (Bool × Skb)} (h : ∀ p ∈ skbs, Deliverable vifs p.2) :
    run vifs skbs = some vifs := by
  induction skbs with
  | nil => rfl
  | cons p skbs ih =>
    rw [List.forall_mem_cons] at h
    obtain ⟨consumed, hprocess, -⟩ := (balanced_iff p.1 vifs p.2).2 h.1
    rw [run, hprocess]
    exact ih h.2

end

end W132d.Rx
