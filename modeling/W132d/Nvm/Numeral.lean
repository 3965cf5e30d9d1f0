import W132d.Literal
import W132d.Nvm.Parse

/-!
# Numbers and assignments as text

A value of the configuration file is a decimal number without leading zeros, or the digits of a
hexadecimal one behind `0x`, and it may have a sign.

* `Denotes`: a text is that of a number;
* `kstrtol_of_denotes`: it is read as this number;
* `words_assignment`: the words of a line that assigns values to a key.
-/

namespace W132d.Nvm

open Literal

/-! ## Numbers -/

/-- A text of a number without a sign. -/
inductive Unsigned : List UInt8 → ℕ → Prop
  | zero : Unsigned [48] 0
  | decimal {ds : List UInt8} (hne : ds ≠ []) (hzero : ds.head? ≠ some 48)
      (hds : ∀ c ∈ ds, isDigit 10 c) : Unsigned ds (ofDigits 10 ds)
  | hex {x : UInt8} {ds : List UInt8} (hx : x = 120 ∨ x = 88) (hne : ds ≠ [])
      (hds : ∀ c ∈ ds, isDigit 16 c) : Unsigned (48 :: x :: ds) (ofDigits 16 ds)

/-- A text of a number. -/
inductive Denotes : List UInt8 → ℤ → Prop
  | pos {s : List UInt8} {n : ℕ} (h : Unsigned s n) : Denotes s n
  | neg {s : List UInt8} {n : ℕ} (h : Unsigned s n) : Denotes (45 :: s) (-n)

variable {s tmp text ds : List UInt8} {n : ℕ} {z : ℤ} {c x : UInt8} {ws : List (List UInt8)}

/-- A decimal digit is a hexadecimal one. -/
theorem isDigit_mono (h : isDigit 10 c) : isDigit 16 c := by
  rw [isDigit, Option.any_eq_true_iff_get] at h ⊢
  obtain ⟨hsome, hlt⟩ := h
  exact ⟨hsome, by simp at hlt ⊢; omega⟩

/-- A digit is a character of a word. -/
theorem isWord_of_isDigit (h : isDigit 16 c) : isWord c ∧ c ≠ 43 ∧ c ≠ 45 := by
  have hall : ∀ n : Fin 256, isDigit 16 (UInt8.ofNat n) →
      isWord (UInt8.ofNat n) ∧ UInt8.ofNat n ≠ 43 ∧ UInt8.ofNat n ≠ 45 := by decide +kernel
  have hc := hall ⟨c.toNat, c.toNat_lt⟩
  rw [UInt8.ofNat_toNat] at hc
  exact hc h

/-- Digits are read to the end. -/
theorem takeWhile_isDigit {base : ℕ} (h : ∀ c ∈ ds, isDigit base c) :
    ds.takeWhile (isDigit base) = ds := List.takeWhile_eq_self_iff.2 h

/-- A number that does not begin with zero is decimal. -/
theorem fixupRadix_of_head (h : s.head? ≠ some 48) : fixupRadix s = (10, s) := by
  unfold fixupRadix
  split
  · exact absurd rfl h
  · exact absurd rfl h
  · rfl

/-- The base and the digits of a number that is read. -/
theorem fixupRadix_of_unsigned (h : Unsigned s n) :
    ∃ base ds, fixupRadix s = (base, ds) ∧ ds ≠ [] ∧ (∀ c ∈ ds, isDigit base c) ∧
      ofDigits base ds = n := by
  cases h with
  | zero => exact ⟨8, [48], rfl, List.cons_ne_nil _ _, by decide, rfl⟩
  | decimal hne hzero hds => exact ⟨10, s, fixupRadix_of_head hzero, hne, hds, rfl⟩
  | hex hx hne hds =>
    obtain ⟨d, ds, rfl⟩ := List.exists_cons_of_ne_nil hne
    refine ⟨16, d :: ds, ?_, hne, hds, rfl⟩
    rw [fixupRadix, if_pos ⟨hx, hds d List.mem_cons_self⟩]

/-- A number is read. -/
theorem kstrtoull_of_unsigned (h : Unsigned s n) (hn : n < 2 ^ 64) : kstrtoull s = some n := by
  obtain ⟨base, ds, hs, hne, hds, rfl⟩ := fixupRadix_of_unsigned h
  rw [kstrtoull, hs]
  simp only [takeWhile_isDigit hds, List.drop_length]
  rw [if_neg]
  rintro (h | h | h)
  · exact hne h
  · exact h (.inl trivial)
  · omega

/-- A numeral is not empty. -/
theorem unsigned_ne_nil (h : Unsigned s n) : s ≠ [] := by
  cases h with
  | zero => exact List.cons_ne_nil _ _
  | decimal hne _ _ => exact hne
  | hex _ _ _ => exact List.cons_ne_nil _ _

/-- A number without a sign has characters of a word, and no sign. -/
theorem isWord_of_unsigned (h : Unsigned s n) : ∀ c ∈ s, isWord c ∧ c ≠ 43 ∧ c ≠ 45 := by
  cases h with
  | zero => decide
  | decimal _ _ hds => exact fun c hc => isWord_of_isDigit (isDigit_mono (hds c hc))
  | hex hx _ hds =>
    rw [List.forall_mem_cons, List.forall_mem_cons]
    refine ⟨by decide, ?_, fun c hc => isWord_of_isDigit (hds c hc)⟩
    rcases hx with rfl | rfl
    · decide
    · decide

/-- A number in the range of a `long` is read as what it is. -/
theorem kstrtol_of_denotes (h : Denotes s z) (hz : -2 ^ 63 ≤ z ∧ z < 2 ^ 63) :
    kstrtol s = some z := by
  cases h with
  | @pos s n h =>
    obtain ⟨c, s, rfl⟩ := List.exists_cons_of_ne_nil (unsigned_ne_nil h)
    obtain ⟨_, hplus, hminus⟩ := isWord_of_unsigned h c List.mem_cons_self
    unfold kstrtol
    split
    · rename_i heq
      exact absurd (List.cons.inj heq).1 hminus
    split
    · rename_i heq
      exact absurd (List.cons.inj heq).1 hplus
    rw [kstrtoull_of_unsigned h (by omega)]
    show (if n < 2 ^ 63 then _ else _) = _
    rw [if_pos (by omega)]
  | @neg s n h =>
    rw [kstrtol, kstrtoull_of_unsigned h (by omega)]
    show (if n ≤ 2 ^ 63 then _ else _) = _
    rw [if_pos (by omega)]

theorem denotes_ne_nil (h : Denotes s z) : s ≠ [] := by
  cases h with
  | pos h => exact unsigned_ne_nil h
  | neg _ => exact List.cons_ne_nil _ _

theorem isWord_of_denotes (h : Denotes s z) : ∀ c ∈ s, isWord c := by
  cases h with
  | pos h => exact fun c hc => (isWord_of_unsigned h c hc).1
  | neg h =>
    rw [List.forall_mem_cons]
    exact ⟨by decide, fun c hc => (isWord_of_unsigned h c hc).1⟩

/-! ## Assignments -/

/-- The text of a line that assigns values to a key. -/
def assignment (key : List UInt8) (ws : List (List UInt8)) : List UInt8 :=
  key ++ bytesOf " = " ++ (bytesOf ",").intercalate ws

/-- The characters of a word go on with it. -/
theorem wordsFrom_append (hs : ∀ c ∈ s, isWord c) (tmp text : List UInt8) :
    wordsFrom tmp (s ++ text) = wordsFrom (tmp ++ s) text := by
  induction s generalizing tmp with
  | nil => rw [List.nil_append, List.append_nil]
  | cons c s ih =>
    rw [List.forall_mem_cons] at hs
    rw [List.cons_append, wordsFrom, if_pos hs.1, ih hs.2, List.append_assoc,
      List.singleton_append]

/-- A word in front of a character that is none of a word. -/
theorem words_cons (hs : s ≠ [] ∧ ∀ c ∈ s, isWord c) (hc : ¬isWord c) (text : List UInt8) :
    words (s ++ c :: text) = s :: words text := by
  rw [words, wordsFrom_append hs.2, List.nil_append, wordsFrom, if_neg hc, if_neg hs.1, words]

/-- A word is the only one of itself. -/
theorem words_singleton (hs : s ≠ [] ∧ ∀ c ∈ s, isWord c) : words s = [s] := by
  have h := wordsFrom_append hs.2 [] []
  rw [List.append_nil, List.nil_append] at h
  rw [words, h, wordsFrom, if_neg hs.1]

/-- The words between commas. -/
theorem words_intercalate (hws : ∀ s ∈ ws, s ≠ [] ∧ ∀ c ∈ s, isWord c) :
    words ((bytesOf ",").intercalate ws) = ws := by
  induction ws with
  | nil => rfl
  | cons s ws ih =>
    rw [List.forall_mem_cons] at hws
    cases ws with
    | nil =>
      rw [List.intercalate_singleton]
      exact words_singleton hws.1
    | cons s' ws =>
      rw [List.intercalate_cons_cons, List.append_assoc]
      exact (words_cons hws.1 (by decide) _).trans (congrArg (s :: ·) (ih hws.2))

/-- What is between words is passed. -/
theorem words_cons_of_not (hc : ¬isWord c) (text : List UInt8) :
    words (c :: text) = words text := by
  rw [words, wordsFrom, if_neg hc, if_pos rfl, words]

/-- No character of a word is an end. -/
theorem findType_ne_of_isWord (hc : isWord c) : findType c ≠ 4 := by
  have h := isWord_iff.1 hc
  omega

theorem findType_of_mem_intercalate (hws : ∀ s ∈ ws, ∀ c ∈ s, isWord c) :
    ∀ c ∈ (bytesOf ",").intercalate ws, findType c ≠ 4 := by
  induction ws with
  | nil => exact fun c hc => absurd hc List.not_mem_nil
  | cons s ws ih =>
    rw [List.forall_mem_cons] at hws
    have hs : ∀ c ∈ s, findType c ≠ 4 := fun c hc => findType_ne_of_isWord (hws.1 c hc)
    cases ws with
    | nil => rwa [List.intercalate_singleton]
    | cons s' ws =>
      rw [List.intercalate_cons_cons, List.forall_mem_append, List.forall_mem_append]
      exact ⟨⟨hs, by decide⟩, ih hws.2⟩

theorem findType_of_mem_assignment {key : List UInt8} (hkey : ∀ c ∈ key, isWord c)
    (hws : ∀ s ∈ ws, ∀ c ∈ s, isWord c) : ∀ c ∈ assignment key ws, findType c ≠ 4 := by
  rw [assignment, List.forall_mem_append, List.forall_mem_append]
  exact ⟨⟨fun c hc => findType_ne_of_isWord (hkey c hc), by decide⟩,
    findType_of_mem_intercalate hws⟩

/-- The words of an assignment are the key and the values. -/
theorem words_assignment {key : List UInt8} (hkey : key ≠ [] ∧ ∀ c ∈ key, isWord c)
    (hws : ∀ s ∈ ws, s ≠ [] ∧ ∀ c ∈ s, isWord c) :
    words (uncommented (assignment key ws)) = key :: ws := by
  have huncommented : uncommented (assignment key ws) = assignment key ws :=
    List.takeWhile_eq_self_iff.2 fun c hc => decide_eq_true
      (findType_of_mem_assignment hkey.2 (fun s hs => (hws s hs).2) c hc)
  rw [huncommented, assignment, List.append_assoc]
  refine (words_cons hkey (by decide) _).trans (congrArg (key :: ·) ?_)
  refine (words_cons_of_not (by decide) _).trans ?_
  exact (words_cons_of_not (by decide) _).trans (words_intercalate hws)

end W132d.Nvm
