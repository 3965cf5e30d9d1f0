import W132d.Machine
import W132d.Tally

/-!
# Leases

Clients take slots and give them back, and a counter is to tell how many are taken. A client that
takes a slot *counts* it first, is then *given* it, and marks it as busy at last. Between these
other clients take steps. A slot that is no longer used *ages*: it is not busy any more, and
becomes the hint where to find a free one.

* `Lease.Inv`: no two clients hold a slot, none holds a busy one, and the counter tells how many
  slots are busy or held;
* `Lease.Sole`: the condition of a step: a client that looks for a free slot finds one that nobody
  holds, and keeps it;
* `Lease.step_inv`: such a step keeps the invariant;
* `Lease.Inv.given_subsingleton`: under it, no slot is given to two clients at a time;
* `Lease.Inv.count_eq`: while no client holds a slot, the counter tells how many slots are busy;
* `Lease.step_deficit`: without any condition, the counter is never too small, and it stays right
  exactly if no client marks a busy slot as busy or loses one that it counted.

The invariant and the counter are two things. `Inv` needs the condition `Sole`, and says who holds
what. The counter alone is treated without any condition: its deficit, as a number, does not go up
in any step, because a slot is counted before it is busy and only a busy slot is counted off. Thus,
if it is right in the end, then it was right all along, and a step that makes it too large is seen
for ever.

Sums over slots and clients change in one term at each step (`W132d.Tally`).
-/

namespace W132d

/-- What a client holds: it has counted a slot, or was given it. -/
inductive Hold (I : Type*) where
  | nothing
  | counted (i : I)
  | granted (i : I)
  deriving DecidableEq

/-- The slot that a client holds. -/
def Hold.slot {I : Type*} : Hold I → Option I
  | .nothing => none
  | .counted i => some i
  | .granted i => some i

/-- Slots `I`, and clients `K` that take them for purposes `F`. -/
@[ext] structure Lease (I K F : Type*) where
  busy : I → Bool
  /-- A slot that is free. -/
  hint : Option I
  /-- The counter. -/
  count : ℤ
  hold : K → Hold I
  /-- The clients that were given a slot since it aged. -/
  given : I → List (K × F)

namespace Lease

variable {I K F : Type*}

/-- What happens to the slots. -/
inductive Op (I K F : Type*) where
  /-- A busy slot ages. -/
  | age (i : I)
  /-- A client counts and is given the slot of the hint. -/
  | take (k : K) (f : F)
  /-- A client finds that a slot is not busy, and counts it. -/
  | count (k : K) (i : I)
  /-- A client is given the slot that it has counted. -/
  | grant (k : K) (f : F)
  /-- A client loses the slot that it has counted. -/
  | lose (k : K)
  /-- A client marks its slot as busy. -/
  | publish (k : K)

section

variable [DecidableEq I] [DecidableEq K]

/-- A client is given a slot. -/
def give (s : Lease I K F) (k : K) (f : F) (i : I) : Lease I K F :=
  { s with
    hold := Function.update s.hold k (.granted i)
    given := Function.update s.given i (s.given i ++ [(k, f)]) }

/-- What an operation does. -/
def step (s : Lease I K F) : Op I K F → Option (Lease I K F)
  | .age i =>
    if s.busy i then
      some { s with
        busy := Function.update s.busy i false
        hint := some i
        count := s.count - 1
        given := Function.update s.given i
          ((s.given i).filter fun x => decide (s.hold x.1 = .granted i)) }
    else none
  | .take k f =>
    match s.hold k, s.hint with
    | .nothing, some i => some ({ s with hint := none, count := s.count + 1 }.give k f i)
    | _, _ => none
  | .count k i =>
    match s.hold k, s.busy i with
    | .nothing, false =>
      some { s with
        hint := none
        count := s.count + 1
        hold := Function.update s.hold k (.counted i) }
    | _, _ => none
  | .grant k f =>
    match s.hold k with
    | .counted i => some (s.give k f i)
    | _ => none
  | .lose k =>
    match s.hold k with
    | .counted _ => some { s with hold := Function.update s.hold k .nothing }
    | _ => none
  | .publish k =>
    match s.hold k with
    | .granted i =>
      some { s with
        busy := Function.update s.busy i true
        hold := Function.update s.hold k .nothing }
    | _ => none

end

/-- The condition of a step: a client that finds a slot that is not busy finds one that nobody
    holds, and does not lose it. -/
def Sole (s : Lease I K F) : Op I K F → Prop
  | .count _ i => ∀ k, (s.hold k).slot ≠ some i
  | .lose _ => False
  | _ => True

/-- One for what is so, else zero. -/
def ind (b : Bool) : ℤ := if b then 1 else 0

/-- The number of busy slots. -/
def busyNum [Fintype I] (s : Lease I K F) : ℤ := tally ind s.busy

/-- The number of clients that hold a slot. -/
def holdNum [Fintype K] (s : Lease I K F) : ℤ := tally (fun h : Hold I => ind h.slot.isSome) s.hold

/-- No slot was taken yet, and one of them is the hint. -/
def init (i : I) : Lease I K F where
  busy _ := false
  hint := some i
  count := 0
  hold _ := .nothing
  given _ := []

/-- How far the counter is below what it is to tell. -/
def deficit [Fintype I] [Fintype K] (s : Lease I K F) : ℤ := s.busyNum + s.holdNum - s.count

/-- The invariant. -/
structure Inv [Fintype I] [Fintype K] (s : Lease I K F) : Prop where
  unique : ∀ k k' i, (s.hold k).slot = some i → (s.hold k').slot = some i → k = k'
  free : ∀ k i, (s.hold k).slot = some i → s.busy i = false
  hint : ∀ i, s.hint = some i → s.busy i = false ∧ ∀ k, (s.hold k).slot ≠ some i
  count : s.count = s.busyNum + s.holdNum
  given : ∀ i, (s.given i).length ≤ 1
  holder : ∀ i, s.busy i = false → ∀ x ∈ s.given i, s.hold x.1 = .granted i

/-! ## What a step keeps -/

variable {s s' : Lease I K F} {op : Op I K F} {i j : I} {k k' : K} {f : F} {g : Hold I}

/-- A free slot that nobody holds was given to nobody. -/
theorem Inv.given_nil [Fintype I] [Fintype K] (h : Inv s) (hi : s.busy i = false)
    (hno : ∀ k, s.hold k ≠ .granted i) : s.given i = [] :=
  List.eq_nil_iff_forall_not_mem.2 fun x hx => hno x.1 (h.holder i hi x hx)

/-- Who was granted a slot has it. -/
theorem slot_granted (h : s.hold k = .granted i) : (s.hold k).slot = some i := by
  rw [h]
  rfl

variable [DecidableEq K]

/-- Who holds a slot, after what one client holds has changed. -/
theorem slot_update (h : (Function.update s.hold k g k').slot = some j) :
    k' = k ∧ g.slot = some j ∨ k' ≠ k ∧ (s.hold k').slot = some j := by
  rcases eq_or_ne k' k with rfl | hk
  · rw [Function.update_self] at h
    exact .inl ⟨rfl, h⟩
  · rw [Function.update_of_ne hk] at h
    exact .inr ⟨hk, h⟩

/-- A client that was given a slot still holds it, after what another one holds has changed. -/
theorem hold_update (h : s.hold k' = .granted j) (hk : s.hold k ≠ .granted j) :
    Function.update s.hold k g k' = .granted j := by
  have hne : k' ≠ k := by
    rintro rfl
    exact hk h
  rw [Function.update_of_ne hne, h]

variable [Fintype K]

/-- The clients that hold a slot, after what one client holds has changed. -/
theorem holdNum_update :
    tally (fun h : Hold I => ind h.slot.isSome) (Function.update s.hold k g) =
      s.holdNum - ind (s.hold k).slot.isSome + ind g.slot.isSome := tally_update

variable [Fintype I]

/-- A client that holds nothing comes to hold a free slot that nobody holds. -/
theorem Inv.hold_free (h : Inv s) (hk : s.hold k = .nothing) (hfree : s.busy i = false)
    (hno : ∀ k, (s.hold k).slot ≠ some i) (hg : g.slot = some i) :
    (∀ a b j, (Function.update s.hold k g a).slot = some j →
      (Function.update s.hold k g b).slot = some j → a = b) ∧
    (∀ a j, (Function.update s.hold k g a).slot = some j → s.busy j = false) ∧
    s.count + 1 =
      s.busyNum + tally (fun h : Hold I => ind h.slot.isSome) (Function.update s.hold k g) := by
  refine ⟨fun a b j ha hb => ?_, fun a j ha => ?_, ?_⟩
  · rcases slot_update ha with ⟨rfl, hj⟩ | ⟨-, ha'⟩
    · rw [hg] at hj
      obtain rfl := Option.some.inj hj
      rcases slot_update hb with ⟨rfl, -⟩ | ⟨-, hb'⟩
      · rfl
      · exact absurd hb' (hno b)
    · rcases slot_update hb with ⟨rfl, hj⟩ | ⟨-, hb'⟩
      · rw [hg] at hj
        obtain rfl := Option.some.inj hj
        exact absurd ha' (hno a)
      · exact h.unique a b j ha' hb'
  · rcases slot_update ha with ⟨rfl, hj⟩ | ⟨-, ha'⟩
    · rw [hg] at hj
      obtain rfl := Option.some.inj hj
      exact hfree
    · exact h.free a j ha'
  · rw [h.count, holdNum_update, hk, hg]
    simp [ind, Hold.slot]
    ring

variable [DecidableEq I]

/-- The invariant is kept as a slot ages. -/
theorem Inv.age (h : Inv s) (hs : s.step (.age i) = some s') : Inv s' := by
  rw [step] at hs
  split_ifs at hs with hbusy
  cases hs
  refine ⟨h.unique, fun k j hj => ?_, fun j hj => ?_, ?_, fun j => ?_, fun j hj x hx => ?_⟩
  all_goals dsimp only at *
  · rcases eq_or_ne j i with rfl | hji
    · exact Function.update_self ..
    · rw [Function.update_of_ne hji]
      exact h.free k j hj
  · -- It is the hint now; nobody holds it, as it was busy.
    obtain rfl := Option.some.inj hj
    refine ⟨Function.update_self .., fun k hk => ?_⟩
    rw [h.free k _ hk] at hbusy
    cases hbusy
  · rw [h.count, busyNum, busyNum, tally_update, hbusy]
    simp [ind, holdNum]
    ring
  · rcases eq_or_ne j i with rfl | hji
    · rw [Function.update_self]
      exact (List.length_filter_le ..).trans (h.given j)
    · rw [Function.update_of_ne hji]
      exact h.given j
  · rcases eq_or_ne j i with rfl | hji
    · rw [Function.update_self] at hx
      exact of_decide_eq_true (List.mem_filter.1 hx).2
    · rw [Function.update_of_ne hji] at hj hx
      exact h.holder j hj x hx

/-- A client is given a free slot, which was given to nobody. -/
theorem Inv.given_give (h : Inv s) (hnil : s.given i = []) (hk : ∀ j ≠ i, s.hold k ≠ .granted j) :
    (∀ j, ((s.give k f i).given j).length ≤ 1) ∧
      ∀ j, s.busy j = false →
        ∀ x ∈ (s.give k f i).given j, (s.give k f i).hold x.1 = .granted j := by
  refine ⟨fun j => ?_, fun j hj x hx => ?_⟩
  all_goals dsimp only [give] at *
  · rcases eq_or_ne j i with rfl | hji
    · rw [Function.update_self, hnil]
      rfl
    · rw [Function.update_of_ne hji]
      exact h.given j
  · rcases eq_or_ne j i with rfl | hji
    · rw [Function.update_self, hnil] at hx
      rw [List.mem_singleton.1 hx, Function.update_self]
    · rw [Function.update_of_ne hji] at hx
      exact hold_update (h.holder j hj x hx) (hk j hji)

theorem Inv.take (h : Inv s) (hs : s.step (.take k f) = some s') : Inv s' := by
  rw [step] at hs
  split at hs
  · rename_i i hk hhint
    cases hs
    obtain ⟨hfree, hno⟩ := h.hint i hhint
    have hnil : s.given i = [] := h.given_nil hfree fun k hk => hno k (slot_granted hk)
    obtain ⟨hunique, hfree', hcount⟩ := h.hold_free hk hfree hno (g := .granted i) rfl
    obtain ⟨hgiven, hholder⟩ := h.given_give (f := f) hnil fun j _ => by rw [hk]; nofun
    exact ⟨hunique, hfree', nofun, hcount, hgiven, hholder⟩
  · cases hs

theorem Inv.countSlot (h : Inv s) (hno : ∀ k, (s.hold k).slot ≠ some i)
    (hs : s.step (.count k i) = some s') : Inv s' := by
  rw [step] at hs
  split at hs
  · rename_i hk hfree
    cases hs
    obtain ⟨hunique, hfree', hcount⟩ := h.hold_free hk hfree hno (g := .counted i) rfl
    refine ⟨hunique, hfree', nofun, hcount, h.given, fun j hj x hx => ?_⟩
    exact hold_update (h.holder j hj x hx) (by rw [hk]; nofun)
  · cases hs

theorem Inv.grant (h : Inv s) (hs : s.step (.grant k f) = some s') : Inv s' := by
  rw [step] at hs
  split at hs
  · rename_i i hk
    cases hs
    have hslot : ∀ a, (Function.update s.hold k (.granted i) a).slot = (s.hold a).slot := by
      intro a
      rcases eq_or_ne a k with rfl | ha
      · rw [Function.update_self, hk]
        rfl
      · rw [Function.update_of_ne ha]
    have hnil : s.given i = [] := by
      -- Who was given it would hold it, too.
      refine h.given_nil (h.free k i (by rw [hk]; rfl)) fun a ha => ?_
      obtain rfl := h.unique k a i (by rw [hk]; rfl) (slot_granted ha)
      rw [hk] at ha
      cases ha
    obtain ⟨hgiven, hholder⟩ := h.given_give (f := f) hnil fun j _ => by rw [hk]; nofun
    refine ⟨fun a b j ha hb => ?_, fun a j ha => ?_, fun j hj => ?_, ?_, hgiven, hholder⟩
    all_goals dsimp only [give] at *
    · exact h.unique a b j (hslot a ▸ ha) (hslot b ▸ hb)
    · exact h.free a j (hslot a ▸ ha)
    · exact ⟨(h.hint j hj).1, fun a => hslot a ▸ (h.hint j hj).2 a⟩
    · rw [h.count, holdNum, holdNum]
      exact congrArg _ (tally_congr fun a => congrArg (fun o : Option I => ind o.isSome)
        (hslot a).symm)
  · cases hs

theorem Inv.publish (h : Inv s) (hs : s.step (.publish k) = some s') : Inv s' := by
  rw [step] at hs
  split at hs
  · rename_i i hk
    cases hs
    have hfree := h.free k i (slot_granted hk)
    refine ⟨fun a b j ha hb => ?_, fun a j ha => ?_, fun j hj => ?_, ?_, h.given,
      fun j hj x hx => ?_⟩
    all_goals dsimp only at *
    · rcases slot_update ha with ⟨-, hnone⟩ | ⟨-, ha'⟩
      · cases hnone
      rcases slot_update hb with ⟨-, hnone⟩ | ⟨-, hb'⟩
      · cases hnone
      exact h.unique a b j ha' hb'
    · rcases slot_update ha with ⟨-, hnone⟩ | ⟨hne, ha'⟩
      · cases hnone
      have hji : j ≠ i := by
        rintro rfl
        exact hne (h.unique a k j ha' (slot_granted hk))
      rw [Function.update_of_ne hji]
      exact h.free a j ha'
    · obtain ⟨hj', hno⟩ := h.hint j hj
      have hji : j ≠ i := by
        rintro rfl
        exact hno k (slot_granted hk)
      refine ⟨by rw [Function.update_of_ne hji]; exact hj', fun a ha => ?_⟩
      rcases slot_update ha with ⟨-, hnone⟩ | ⟨-, ha'⟩
      · cases hnone
      · exact hno a ha'
    · -- One more slot is busy, and one client fewer holds one.
      have hbusy : tally ind (Function.update s.busy i true) =
          s.busyNum - ind (s.busy i) + ind true := tally_update
      have hhold := holdNum_update (s := s) (k := k) (g := .nothing)
      have hcount : s.count = tally ind (Function.update s.busy i true) +
          tally (fun h : Hold I => ind h.slot.isSome) (Function.update s.hold k .nothing) := by
        rw [hbusy, hhold, hk, hfree, h.count]
        simp [ind, Hold.slot]
      exact hcount
    · have hji : j ≠ i := by
        rintro rfl
        rw [Function.update_self] at hj
        cases hj
      rw [Function.update_of_ne hji] at hj
      refine hold_update (h.holder j hj x hx) ?_
      rw [hk]
      rintro heq
      cases heq
      exact hji rfl
  · cases hs

/-- What one step keeps. -/
theorem step_inv (h : Inv s) (hsole : Sole s op) (hs : s.step op = some s') : Inv s' := by
  cases op with
  | age i => exact h.age hs
  | take k f => exact h.take hs
  | count k i => exact h.countSlot hsole hs
  | grant k f => exact h.grant hs
  | lose k => exact hsole.elim
  | publish k => exact h.publish hs

omit [DecidableEq K] [DecidableEq I] in
/-- No slot is missing in the beginning. -/
theorem init_deficit (i : I) : (init i : Lease I K F).deficit = 0 := by
  have hbusy : (init i : Lease I K F).busyNum = 0 := tally_eq_zero fun _ => rfl
  have hhold : (init i : Lease I K F).holdNum = 0 := tally_eq_zero fun _ => rfl
  rw [deficit, hbusy, hhold]
  rfl

omit [DecidableEq K] [DecidableEq I] in
theorem init_inv (i : I) : Inv (init i : Lease I K F) where
  unique _ _ _ ha := nomatch ha
  free _ _ ha := nomatch ha
  hint _ _ := ⟨rfl, fun _ => nofun⟩
  count := (sub_eq_zero.1 (init_deficit i)).symm
  given _ := Nat.zero_le _
  holder _ _ _ hx := absurd hx List.not_mem_nil

omit [DecidableEq K] [DecidableEq I] in
/-- No slot is given to two clients at a time. -/
theorem Inv.given_subsingleton (h : Inv s) {x y : K × F} (hx : x ∈ s.given i) (hy : y ∈ s.given i) :
    x = y := by
  have hlen := h.given i
  generalize s.given i = l at hx hy hlen
  match l, hlen with
  | [z], _ => rw [List.mem_singleton.1 hx, List.mem_singleton.1 hy]

/-! ## The counter -/

/-- A step that keeps the counter right if it is: no client marks a busy slot as busy, or loses one
    that it has counted. -/
def Keeps (s : Lease I K F) : Op I K F → Prop
  | .publish k => ∀ i, s.hold k = .granted i → s.busy i = false
  | .lose _ => False
  | _ => True

omit [DecidableEq I] in
/-- The deficit after what one client holds has changed, if the counter is `c` then. -/
theorem deficit_hold (k : K) (g : Hold I) (c : ℤ) :
    s.busyNum + tally (fun h : Hold I => ind h.slot.isSome) (Function.update s.hold k g) - c =
      s.deficit + (s.count - c) - ind (s.hold k).slot.isSome + ind g.slot.isSome := by
  rw [holdNum_update, deficit]
  ring

/-- A slot that ages is counted off, so that the deficit stays. -/
theorem deficit_age (hs : s.step (.age i) = some s') : s'.deficit = s.deficit := by
  rw [step] at hs
  split_ifs at hs with hbusy
  cases hs
  have hcount : tally ind (Function.update s.busy i false) + s.holdNum - (s.count - 1) =
      s.deficit := by
    rw [tally_update, hbusy, deficit, busyNum]
    simp [ind]
    ring
  exact hcount

theorem deficit_take (hs : s.step (.take k f) = some s') : s'.deficit = s.deficit := by
  rw [step] at hs
  split at hs
  · rename_i i hk _
    cases hs
    refine (deficit_hold (s := s) k (.granted i) (s.count + 1)).trans ?_
    rw [hk]
    simp [ind, Hold.slot]
  · cases hs

theorem deficit_count (hs : s.step (.count k i) = some s') : s'.deficit = s.deficit := by
  rw [step] at hs
  split at hs
  · rename_i hk _
    cases hs
    refine (deficit_hold (s := s) k (.counted i) (s.count + 1)).trans ?_
    rw [hk]
    simp [ind, Hold.slot]
  · cases hs

theorem deficit_grant (hs : s.step (.grant k f) = some s') : s'.deficit = s.deficit := by
  rw [step] at hs
  split at hs
  · rename_i i hk
    cases hs
    refine (deficit_hold (s := s) k (.granted i) s.count).trans ?_
    rw [hk]
    simp [ind, Hold.slot]
  · cases hs

/-- A slot that a client loses stays counted. -/
theorem deficit_lose (hs : s.step (.lose k) = some s') : s'.deficit = s.deficit - 1 := by
  rw [step] at hs
  split at hs
  · rename_i i hk
    cases hs
    refine (deficit_hold (s := s) k .nothing s.count).trans ?_
    rw [hk]
    simp [ind, Hold.slot]
  · cases hs

/-- A slot that two clients mark as busy was counted twice. -/
theorem deficit_publish (hs : s.step (.publish k) = some s') :
    ∃ i, s.hold k = .granted i ∧ s'.deficit = s.deficit - ind (s.busy i) := by
  rw [step] at hs
  split at hs
  · rename_i i hk
    cases hs
    refine ⟨i, hk, ?_⟩
    have hcount : tally ind (Function.update s.busy i true) +
        tally (fun h : Hold I => ind h.slot.isSome) (Function.update s.hold k .nothing) - s.count =
          s.deficit - ind (s.busy i) := by
      rw [holdNum_update, tally_update, hk, deficit, busyNum]
      simp [ind, Hold.slot]
      ring
    exact hcount
  · cases hs

/-- No step raises the deficit. -/
theorem step_deficit (hs : s.step op = some s') :
    s'.deficit ≤ s.deficit ∧ (s'.deficit = s.deficit ↔ Keeps s op) := by
  have hlt : s.deficit - 1 < s.deficit := sub_one_lt _
  cases op with
  | age i => exact ⟨(deficit_age hs).le, iff_of_true (deficit_age hs) trivial⟩
  | take k f => exact ⟨(deficit_take hs).le, iff_of_true (deficit_take hs) trivial⟩
  | count k i => exact ⟨(deficit_count hs).le, iff_of_true (deficit_count hs) trivial⟩
  | grant k f => exact ⟨(deficit_grant hs).le, iff_of_true (deficit_grant hs) trivial⟩
  | lose k =>
    rw [deficit_lose hs]
    exact ⟨hlt.le, iff_of_false hlt.ne id⟩
  | publish k =>
    obtain ⟨i, hk, hdeficit⟩ := deficit_publish hs
    have hkeeps : Keeps s (.publish k) ↔ s.busy i = false := by
      refine ⟨fun h => h i hk, fun h j hj => ?_⟩
      rw [hk] at hj
      cases hj
      exact h
    rw [hkeeps, hdeficit]
    cases s.busy i with
    | false => exact ⟨(sub_zero _).le, iff_of_true (sub_zero _) rfl⟩
    | true => exact ⟨hlt.le, iff_of_false hlt.ne Bool.noConfusion⟩

omit [DecidableEq K] [DecidableEq I] [Fintype K] in
/-- The slots that are busy. -/
theorem busyNum_eq : s.busyNum = (Finset.univ.filter fun i => s.busy i = true).card := by
  simp [busyNum, tally, ind]

omit [DecidableEq K] [DecidableEq I] in
/-- While no client holds a slot, the counter is off by the deficit. -/
theorem deficit_eq (h : ∀ k, s.hold k = .nothing) : s.deficit = s.busyNum - s.count := by
  have hhold : s.holdNum = 0 := tally_eq_zero fun k => by rw [h k]; rfl
  rw [deficit, hhold, add_zero]

omit [DecidableEq K] [DecidableEq I] in
/-- While no client holds a slot, the counter tells how many slots are busy. -/
theorem Inv.count_eq (hinv : Inv s) (h : ∀ k, s.hold k = .nothing) : s.count = s.busyNum := by
  have hdeficit : s.deficit = 0 := by
    rw [deficit, hinv.count, sub_self]
  exact (sub_eq_zero.1 ((deficit_eq h).symm.trans hdeficit)).symm

end Lease

end W132d
