import W132d.Bytes
import W132d.Elements
import W132d.Peek
import W132d.Wmmac

/-!
# The WMM element

The parameters of the access categories come with the association response, in the WMM element: a
vendor element whose body begins with an OUI and the type `WMM_OUI_TYPE`. `get_wmm_ie` goes from one
element to the next, but only up to the first vendor element, and reads the OUI and the type of
that one whether its body is that long or not.

* `getWmmIe`: the function;
* `IsWmm`: a WMM element;
* `Finds`: it stays within the elements, and finds the first WMM element;
* `Leading`: the first vendor element is the WMM element, or there is none, and the first one is
  passed by as it should;
* `getWmmIe_finds_iff`: where the function is right.
-/

namespace W132d.Wmmac

open Peek Elements

/-- `WMM_OUI_TYPE`. -/
def wmmOuiType : UInt8 := 2

/-- An OUI of three bytes. -/
def ouiOf (a b c : UInt8) : UInt32 := a.toUInt32 <<< 16 ||| b.toUInt32 <<< 8 ||| c.toUInt32

/-- The loop of `get_wmm_ie`, from the element at `pos` on. -/
def getWmmIeFrom (ieLen : UInt16) (ie : UInt8) (oui : UInt32) (pos : ℕ) : Peek (Option ℕ) :=
  if pos + 1 < ieLen.toNat then do
    let len ← byte (pos + 1)
    if ieLen.toNat < pos + 2 + len.toNat then return none
    else
      let id ← byte pos
      if id = ie then
        let a ← byte (pos + 2)
        let b ← byte (pos + 3)
        let c ← byte (pos + 4)
        if ouiOf a b c = oui then
          let type ← byte (pos + 5)
          if type = wmmOuiType then return some (pos + 2) else return none
        else return none
      else getWmmIeFrom ieLen ie oui (pos + 2 + len.toNat)
  else return none
termination_by ieLen.toNat - pos

/-- `get_wmm_ie`. It does not look at the type that it is asked for. -/
def getWmmIe (ieLen : UInt16) (ie : UInt8) (oui _ouiType : UInt32) : Peek (Option ℕ) :=
  getWmmIeFrom ieLen ie oui 0

section

variable (mem : ℕ → UInt8) (ieLen : UInt16) (ie : UInt8) (oui : UInt32)

/-- The elements from a position on that are complete. -/
def elements (pos : ℕ) : List ℕ := walk 2 (fun pos => (mem (pos + 1)).toNat) ieLen.toNat pos

/-- Where the body of an element would begin, there is the OUI, its highest byte first. -/
def HasOui (pos : ℕ) : Prop :=
  Bytes.le [mem (pos + 4), mem (pos + 3), mem (pos + 2)] = oui.toNat

/-- At a position, there is a WMM element. -/
def IsWmm (pos : ℕ) : Prop :=
  mem pos = ie ∧ 4 ≤ (mem (pos + 1)).toNat ∧ HasOui mem oui pos ∧ mem (pos + 5) = wmmOuiType

instance (pos : ℕ) : Decidable (HasOui mem oui pos) := inferInstanceAs (Decidable (_ = _))

instance (pos : ℕ) : Decidable (IsWmm mem ie oui pos) :=
  inferInstanceAs (Decidable (_ ∧ _ ∧ _ = _ ∧ _))

/-- From the element at `pos` on, the function stays within the elements, and finds the first WMM
    element. -/
def FindsFrom (pos : ℕ) : Prop :=
  Inside ieLen.toNat mem (getWmmIeFrom ieLen ie oui pos) ∧
    (getWmmIeFrom ieLen ie oui pos).value mem =
      ((elements mem ieLen pos).find? fun pos => IsWmm mem ie oui pos).map (· + 2)

/-- The function stays within the elements, and finds the first WMM element. -/
def Finds (ouiType : UInt32) : Prop :=
  Inside ieLen.toNat mem (getWmmIe ieLen ie oui ouiType) ∧
    (getWmmIe ieLen ie oui ouiType).value mem =
      ((elements mem ieLen 0).find? fun pos => IsWmm mem ie oui pos).map (· + 2)

/-- From the element at `pos` on, the first vendor element is a WMM element. Or none is, and what is
    read as the OUI and the type of the first one is within the elements, and is not that of one. -/
def Leading (pos : ℕ) : Prop :=
  ∀ first ∈ (elements mem ieLen pos).find? fun pos => mem pos = ie, IsWmm mem ie oui first ∨
    (∀ other ∈ elements mem ieLen pos, ¬IsWmm mem ie oui other) ∧ first + 4 < ieLen.toNat ∧
      (HasOui mem oui first → first + 5 < ieLen.toNat ∧ mem (first + 5) ≠ wmmOuiType)

end

variable {mem : ℕ → UInt8} {ieLen : UInt16} {ie : UInt8} {oui : UInt32} {pos : ℕ}

theorem ouiOf_eq_iff {a b c : UInt8} : ouiOf a b c = oui ↔ Bytes.le [c, b, a] = oui.toNat := by
  have ha := a.toNat_lt
  have hb := b.toNat_lt
  have hc := c.toNat_lt
  have hshift : (a.toUInt32 <<< 16).toNat = a.toNat <<< 16 := by
    rw [UInt32.toNat_shiftLeft]
    change a.toNat <<< 16 % 2 ^ 32 = _
    rw [Nat.shiftLeft_eq]
    omega
  have hshift' : (b.toUInt32 <<< 8).toNat = b.toNat <<< 8 := by
    rw [UInt32.toNat_shiftLeft]
    change b.toNat <<< 8 % 2 ^ 32 = _
    rw [Nat.shiftLeft_eq]
    omega
  have hlow : b.toNat <<< 8 ||| c.toNat = b.toNat <<< 8 + c.toNat :=
    (Nat.shiftLeft_add_eq_or_of_lt hc _).symm
  have hall : a.toNat <<< 16 ||| (b.toNat <<< 8 + c.toNat) =
      a.toNat <<< 16 + (b.toNat <<< 8 + c.toNat) := by
    refine (Nat.shiftLeft_add_eq_or_of_lt ?_ _).symm
    rw [Nat.shiftLeft_eq]
    omega
  rw [← UInt32.toNat_inj, ouiOf, UInt32.toNat_or, UInt32.toNat_or, hshift, hshift', Nat.or_assoc]
  change a.toNat <<< 16 ||| (b.toNat <<< 8 ||| c.toNat) = _ ↔ _
  rw [hlow, hall, Nat.shiftLeft_eq, Nat.shiftLeft_eq, Bytes.le_cons, Bytes.le_cons, Bytes.le_cons]
  change _ ↔ c.toNat + 256 * (b.toNat + 256 * (a.toNat + 256 * 0)) = _
  omega

theorem elements_of_le (h : pos + 2 + (mem (pos + 1)).toNat ≤ ieLen.toNat) :
    elements mem ieLen pos = pos :: elements mem ieLen (pos + 2 + (mem (pos + 1)).toNat) :=
  walk_of_le h

/-- An element that is not a vendor element is passed by. -/
theorem findsFrom_of_ne (h : pos + 2 + (mem (pos + 1)).toNat ≤ ieLen.toNat) (hne : mem pos ≠ ie) :
    FindsFrom mem ieLen ie oui pos ↔
      FindsFrom mem ieLen ie oui (pos + 2 + (mem (pos + 1)).toNat) := by
  have hnot : ¬IsWmm mem ie oui pos := fun hwmm => hne hwmm.1
  have hpos : pos + 1 < ieLen.toNat := by omega
  have hlen : ¬ieLen.toNat < pos + 2 + (mem (pos + 1)).toNat := by omega
  rw [FindsFrom, FindsFrom, elements_of_le h, List.find?_cons_of_neg (by simpa using hnot),
    getWmmIeFrom]
  simp [hpos, hlen, hne, Nat.lt_of_succ_lt hpos]

theorem leading_of_ne (h : pos + 2 + (mem (pos + 1)).toNat ≤ ieLen.toNat) (hne : mem pos ≠ ie) :
    Leading mem ieLen ie oui pos ↔
      Leading mem ieLen ie oui (pos + 2 + (mem (pos + 1)).toNat) := by
  have hnot : ¬IsWmm mem ie oui pos := fun hwmm => hne hwmm.1
  rw [Leading, Leading, elements_of_le h, List.find?_cons_of_neg (by simpa using hne)]
  simp only [List.forall_mem_cons, hnot, not_false_eq_true, true_and]

/-- What is read of the first vendor element. -/
theorem inside_of_eq (h : pos + 2 + (mem (pos + 1)).toNat ≤ ieLen.toNat) (heq : mem pos = ie) :
    Inside ieLen.toNat mem (getWmmIeFrom ieLen ie oui pos) ↔
      pos + 4 < ieLen.toNat ∧ (HasOui mem oui pos → pos + 5 < ieLen.toNat) := by
  have hpos : pos + 1 < ieLen.toNat := by omega
  have hlen : ¬ieLen.toNat < pos + 2 + (mem (pos + 1)).toNat := by omega
  rw [getWmmIeFrom, HasOui, ← ouiOf_eq_iff]
  simp only [hpos, hlen, heq, only_ite, only_byte_bind, only_pure, if_true, if_false,
    ite_self, and_true, true_and, if_true_right]
  constructor
  · rintro ⟨-, -, -, hoff, hread⟩
    exact ⟨hoff, hread⟩
  · rintro ⟨hoff, hread⟩
    exact ⟨by omega, by omega, by omega, hoff, hread⟩

/-- What the function yields for it. -/
theorem value_of_eq (h : pos + 2 + (mem (pos + 1)).toNat ≤ ieLen.toNat) (heq : mem pos = ie) :
    (getWmmIeFrom ieLen ie oui pos).value mem =
      if HasOui mem oui pos ∧ mem (pos + 5) = wmmOuiType then some (pos + 2) else none := by
  have hpos : pos + 1 < ieLen.toNat := by omega
  have hlen : ¬ieLen.toNat < pos + 2 + (mem (pos + 1)).toNat := by omega
  rw [getWmmIeFrom]
  simp only [hpos, hlen, heq, if_true, if_false, value_byte_bind, value_ite, value_pure]
  by_cases houi : HasOui mem oui pos
  · rw [if_pos (ouiOf_eq_iff.2 houi)]
    simp only [houi, true_and]
  · rw [if_neg fun heq => houi (ouiOf_eq_iff.1 heq), if_neg fun hboth => houi hboth.1]

/-- The first vendor element. -/
theorem findsFrom_of_eq (h : pos + 2 + (mem (pos + 1)).toNat ≤ ieLen.toNat) (heq : mem pos = ie) :
    FindsFrom mem ieLen ie oui pos ↔ Leading mem ieLen ie oui pos := by
  have hfirst : Leading mem ieLen ie oui pos ↔ IsWmm mem ie oui pos ∨
      (∀ other ∈ elements mem ieLen pos, ¬IsWmm mem ie oui other) ∧ pos + 4 < ieLen.toNat ∧
        (HasOui mem oui pos → pos + 5 < ieLen.toNat ∧ mem (pos + 5) ≠ wmmOuiType) := by
    have hfind : (elements mem ieLen pos).find? (fun pos => mem pos = ie) = some pos := by
      rw [elements_of_le h]
      exact List.find?_cons_of_pos (by simpa using heq)
    rw [Leading, hfind]
    simp only [Option.mem_some_iff, forall_eq']
  rw [FindsFrom, inside_of_eq h heq, value_of_eq h heq, hfirst]
  by_cases hwmm : IsWmm mem ie oui pos
  · -- It is found.
    have hfound : (elements mem ieLen pos).find? (fun pos => IsWmm mem ie oui pos) = some pos := by
      rw [elements_of_le h]
      exact List.find?_cons_of_pos (by simpa using hwmm)
    have hlen := hwmm.2.1
    rw [hfound, if_pos ⟨hwmm.2.2.1, hwmm.2.2.2⟩]
    exact iff_of_true ⟨⟨by omega, fun _ => by omega⟩, rfl⟩ (.inl hwmm)
  · rw [or_iff_right hwmm]
    split_ifs with hmatch
    · -- What is read looks like the WMM element, but is not in its body.
      refine iff_of_false (fun hfinds => ?_) fun hleads => (hleads.2.2 hmatch.1).2 hmatch.2
      obtain ⟨found, hfound, hpos⟩ := Option.map_eq_some_iff.1 hfinds.2.symm
      obtain rfl : found = pos := by omega
      simpa [hwmm] using List.find?_some hfound
    · have hnone : none = ((elements mem ieLen pos).find? fun pos => IsWmm mem ie oui pos).map
          (· + 2) ↔ ∀ other ∈ elements mem ieLen pos, ¬IsWmm mem ie oui other := by
        rw [eq_comm, Option.map_eq_none_iff, List.find?_eq_none]
        simp
      rw [hnone]
      constructor
      · rintro ⟨⟨hoff, hread⟩, hnot⟩
        exact ⟨hnot, hoff, fun houi => ⟨hread houi, fun htype => hmatch ⟨houi, htype⟩⟩⟩
      · rintro ⟨hnot, hoff, hread⟩
        exact ⟨⟨hoff, fun houi => (hread houi).1⟩, hnot⟩

/-- No element is complete. -/
theorem findsFrom_of_lt (h : ieLen.toNat < pos + 2 + (mem (pos + 1)).toNat) :
    FindsFrom mem ieLen ie oui pos ∧ Leading mem ieLen ie oui pos := by
  have hnil : elements mem ieLen pos = [] := walk_of_lt h
  rw [FindsFrom, Leading, hnil, getWmmIeFrom]
  simp [h]

theorem findsFrom_iff (pos : ℕ) :
    FindsFrom mem ieLen ie oui pos ↔ Leading mem ieLen ie oui pos := by
  induction pos using walk.induct 2 (fun pos => (mem (pos + 1)).toNat) ieLen.toNat with
  | case1 pos h ih =>
    by_cases hie : mem pos = ie
    · exact findsFrom_of_eq h hie
    · rw [findsFrom_of_ne h hie, leading_of_ne h hie]
      exact ih
  | case2 pos h =>
    have hboth := @findsFrom_of_lt mem ieLen ie oui pos (by omega)
    exact iff_of_true hboth.1 hboth.2

/-- For all elements of `ieLen` bytes, `get_wmm_ie` stays within them and yields where the body of
    the first WMM element is, if there is one, exactly if the first vendor element is a WMM element,
    or there is no WMM element and the first vendor element, if there is one, has the bytes where
    the OUI and the type would be and these are not those of one. -/
theorem getWmmIe_finds_iff (mem : ℕ → UInt8) (ieLen : UInt16) (ie : UInt8) (oui ouiType : UInt32) :
    Finds mem ieLen ie oui ouiType ↔ Leading mem ieLen ie oui 0 := findsFrom_iff 0

/-- A vendor element of 4 bytes, and a WMM element of 4 bytes behind it. -/
def vendorFirst : ℕ → UInt8 :=
  fun i => [221, 4, 0, 0x10, 0x18, 2, 221, 4, 0, 0x50, 0xf2, 2].getD i 0

/-- The WMM element is not found. -/
theorem not_getWmmIe_finds : ¬∀ mem ieLen ie oui ouiType, Finds mem ieLen ie oui ouiType := by
  intro hfinds
  have hleads := (findsFrom_iff 0).1 (hfinds vendorFirst 12 221 0x0050f2 2)
  have helements : elements vendorFirst 12 0 = [0, 6] := by
    rw [elements_of_le (by decide)]
    change 0 :: elements vendorFirst 12 6 = [0, 6]
    rw [elements_of_le (by decide)]
    change [0, 6] ++ elements vendorFirst 12 12 = [0, 6]
    rw [elements, walk_of_lt (by decide)]
    rfl
  rw [Leading, helements] at hleads
  revert hleads
  decide

end W132d.Wmmac
