import W132d.Defrag.Sound

/-!
# The frame that is made of fragments

A well-formed fragment (`WellFormed`) has its frame behind the descriptor and within the
buffer. The copies of well-formed fragments go one behind the other, as long as the offset
does not leave its 16 bits:

* `frameOf`: the header of the first fragment, and the payloads of all of them;
* `reassemble_frameLen`: this is the frame that is made of them.
-/

namespace W132d.Defrag

variable {skb buf first f : Skb} {rest frags : List Skb} {n o : ℕ}

/-! ## The descriptor -/

theorem byte_lt (skb : Skb) (i : ℕ) : byte skb i < 256 := UInt8.toNat_lt _

theorem msduLen_lt (skb : Skb) : msduLen skb < 2 ^ 16 := by
  have h₂ := byte_lt skb 2
  have h₃ := byte_lt skb 3
  rw [msduLen]
  omega

@[simp] theorem length_setMsduLen : (setMsduLen skb n).length = skb.length := by
  simp [setMsduLen]

/-- The length is in front of the rest. -/
theorem drop_setMsduLen (ho : 4 ≤ o) : (setMsduLen skb n).drop o = skb.drop o := by
  rw [setMsduLen, List.drop_set_of_lt (by omega), List.drop_set_of_lt (by omega)]

/-- A fragment has its frame behind the descriptor and within the buffer, and the header in
    the frame. -/
structure WellFormed (skb : Skb) : Prop where
  desc : rxMsduDescSize ≤ msduOffset skb
  header : headerLen skb ≤ msduLen skb
  buffer : msduTotalLen skb ≤ skb.length

instance : DecidablePred WellFormed := fun skb =>
  decidable_of_iff (rxMsduDescSize ≤ msduOffset skb ∧ headerLen skb ≤ msduLen skb ∧
    msduTotalLen skb ≤ skb.length)
    ⟨fun ⟨h₁, h₂, h₃⟩ => ⟨h₁, h₂, h₃⟩, fun ⟨h₁, h₂, h₃⟩ => ⟨h₁, h₂, h₃⟩⟩

namespace WellFormed

theorem fragLen_eq (h : WellFormed skb) : fragLen skb = msduLen skb - headerLen skb := by
  have hlen := msduLen_lt skb
  have hheader := h.header
  rw [fragLen, Nat.sub_add_comm hheader, Nat.add_mod_right, Nat.mod_eq_of_lt (by omega)]

theorem length_payload (h : WellFormed skb) : (payload skb).length = fragLen skb := by
  have hheader := h.header
  have hbuffer := h.buffer
  rw [payload, List.length_take, List.length_drop, h.fragLen_eq]
  rw [msduTotalLen] at hbuffer
  omega

theorem fragLen_le (h : WellFormed skb) : fragLen skb ≤ msduTotalLen skb := by
  rw [h.fragLen_eq, msduTotalLen]
  omega

end WellFormed

/-! ## The copies -/

/-- A copy behind what has been written. -/
theorem memcpy_length (src : Skb) : memcpy buf buf.length src = buf ++ src := by
  simp [memcpy]

/-- The further fragments are copied one behind the other. -/
theorem foldl_copyFragment (hrest : ∀ f ∈ rest, WellFormed f)
    (hlen : buf.length + (rest.map fragLen).sum < 2 ^ 16) :
    (rest.foldl copyFragment (buf, buf.length)).1 = buf ++ rest.flatMap payload := by
  induction rest generalizing buf with
  | nil => simp
  | cons f rest ih =>
    rw [List.forall_mem_cons] at hrest
    rw [List.map_cons, List.sum_cons] at hlen
    have hlength : (buf ++ payload f).length = buf.length + fragLen f := by
      rw [List.length_append, hrest.1.length_payload]
    have hcopy : copyFragment (buf, buf.length) f =
        (buf ++ payload f, (buf ++ payload f).length) := by
      rw [copyFragment, memcpy_length, hlength, Nat.mod_eq_of_lt (by omega)]
    rw [List.foldl_cons, hcopy, ih hrest.2 (by omega), List.flatMap_cons, List.append_assoc]

theorem sum_fragLen_le (hrest : ∀ f ∈ rest, WellFormed f) :
    (rest.map fragLen).sum ≤ (rest.map msduTotalLen).sum :=
  List.sum_le_sum fun f hf => (hrest f hf).fragLen_le

/-- The frame begins with the first fragment, with another length, and goes on with the
    payloads of the others. -/
theorem reassemble_cons (hwf : ∀ f ∈ first :: rest, WellFormed f)
    (hlen : ((first :: rest).map msduTotalLen).sum < 2 ^ 16) (len : ℕ) :
    reassemble len (first :: rest) =
      some ((setMsduLen first ((len + 2 ^ 16 - msduOffset first) % 2 ^ 16)).take
        (msduTotalLen first) ++ rest.flatMap payload) := by
  rw [List.forall_mem_cons] at hwf
  rw [List.map_cons, List.sum_cons] at hlen
  have hsum := sum_fragLen_le hwf.2
  have hoffset : msduTotalLen first % 2 ^ 16 = msduTotalLen first :=
    Nat.mod_eq_of_lt (by omega)
  have hhead : ∀ n, ((setMsduLen first n).take (msduTotalLen first)).length =
      msduTotalLen first := fun n => by
    rw [List.length_take, length_setMsduLen, min_eq_left hwf.1.buffer]
  simp only [reassemble, hoffset, Option.some_inj]
  conv_lhs =>
    enter [1, 2, 2]
    rw [← hhead ((len + 2 ^ 16 - msduOffset first) % 2 ^ 16)]
  exact foldl_copyFragment hwf.2 (by rw [hhead]; omega)

/-! ## The frame -/

/-- The header of the first fragment, with its length set to that of the whole frame, and the
    payloads of all fragments. -/
def frameOf : List Skb → Skb
  | [] => []
  | first :: rest =>
    (setMsduLen first (headerLen first + ((first :: rest).flatMap payload).length)).take
      (msduOffset first + headerLen first) ++ (first :: rest).flatMap payload

theorem length_flatMap_payload (hwf : ∀ f ∈ frags, WellFormed f) :
    (frags.flatMap payload).length = (frags.map fragLen).sum := by
  rw [List.length_flatMap]
  exact congrArg List.sum (List.map_congr_left fun f hf => (hwf f hf).length_payload)

/-- Adding up does not leave 32 bits. -/
theorem foldl_fragLen (hlen : n + (frags.map fragLen).sum < 2 ^ 32) :
    frags.foldl (fun n f => (n + fragLen f) % 2 ^ 32) n = n + (frags.map fragLen).sum := by
  induction frags generalizing n with
  | nil => simp
  | cons f frags ih =>
    rw [List.map_cons, List.sum_cons] at hlen ⊢
    rw [List.foldl_cons, Nat.mod_eq_of_lt (by omega), ih (by omega), Nat.add_assoc]

/-- The length of the frame, from the descriptor on. -/
theorem frameLen_cons (hwf : ∀ f ∈ first :: rest, WellFormed f)
    (hlen : ((first :: rest).map msduTotalLen).sum < 2 ^ 16) :
    frameLen (first :: rest) =
      headerLen first + msduOffset first + ((first :: rest).map fragLen).sum := by
  have hsum := sum_fragLen_le (List.forall_mem_cons.1 hwf).2
  have hfirst := (List.forall_mem_cons.1 hwf).1.fragLen_eq
  have hheader := (List.forall_mem_cons.1 hwf).1.header
  rw [List.map_cons, List.sum_cons] at hlen
  rw [msduTotalLen] at hlen
  rw [frameLen, foldl_fragLen]
  rw [List.map_cons, List.sum_cons]
  omega

/-- The frame that is made of well-formed fragments. -/
theorem reassemble_frameLen (hne : frags ≠ []) (hwf : ∀ f ∈ frags, WellFormed f)
    (hlen : (frags.map msduTotalLen).sum < 2 ^ 16) :
    reassemble (frameLen frags) frags = some (frameOf frags) := by
  obtain ⟨first, rest, rfl⟩ := List.exists_cons_of_ne_nil hne
  have hfirst := (List.forall_mem_cons.1 hwf).1
  have hsum := sum_fragLen_le (List.forall_mem_cons.1 hwf).2
  have hheader := hfirst.header
  have hdesc := hfirst.desc
  rw [rxMsduDescSize] at hdesc
  rw [reassemble_cons hwf hlen, frameLen_cons hwf hlen, frameOf, length_flatMap_payload hwf,
    Option.some_inj]
  rw [List.map_cons, List.sum_cons] at hlen ⊢
  have htotal : msduTotalLen first = (msduOffset first + headerLen first) + fragLen first := by
    rw [msduTotalLen, hfirst.fragLen_eq]
    omega
  have hmod : (headerLen first + msduOffset first + (fragLen first + (rest.map fragLen).sum) +
      2 ^ 16 - msduOffset first) % 2 ^ 16 =
      headerLen first + (fragLen first + (rest.map fragLen).sum) := by
    omega
  -- The first fragment is its header and its payload.
  rw [hmod, htotal, List.take_add, drop_setMsduLen (by omega), List.flatMap_cons,
    List.append_assoc]
  rfl

end W132d.Defrag
