import W132d.Tally

/-!
# Rundown

Threads use a resource, and a counter is to tell how many of them do. To *withdraw* the resource, a
`bias` is added to the counter that no number of users reaches: a thread that counts itself and
finds the bias has to leave, and the one that withdraws the resource waits until the counter has
come down to the bias.

* `Rundown.Counts`: the counter is the number of users and the bias for every mark;
* `Rundown.Counts.update`, `Rundown.Counts.mark`: a step of one thread, and one that adds the bias
  or takes it away;
* `Rundown.Counts.marks_nonpos`, `Rundown.Counts.marks_pos`: what the counter tells of the marks;
* `Rundown.Counts.drained`: a marked counter that has come down to the bias has one mark, and
  nobody uses the resource.
-/

namespace W132d.Rundown

variable {I A : Type*} [Fintype I] {bias marks count : ℤ} {user : A → Bool} {t : I → A} {a : A}
  {i : I}

/-- The counter is the number of entries that are users, and the bias for every mark. -/
def Counts (bias : ℤ) (user : A → Bool) (marks count : ℤ) (t : I → A) : Prop :=
  count = bias * marks + tally (fun a => (user a).toInt) t

theorem toInt_nonneg (b : Bool) : 0 ≤ b.toInt := by
  cases b <;> decide

theorem toInt_le_one (b : Bool) : b.toInt ≤ 1 := by
  cases b <;> decide

/-- Nobody uses the resource yet. -/
theorem counts_of_forall (marks : ℤ) (h : ∀ i, user (t i) = false) :
    Counts bias user marks (bias * marks) t := by
  have hzero : tally (fun a => (user a).toInt) t = 0 :=
    tally_eq_zero fun i => by rw [h i]; rfl
  rw [Counts, hzero, add_zero]

namespace Counts

/-- A thread goes on, and counts itself if it becomes a user, or ceases to be one. -/
theorem update [DecidableEq I] (h : Counts bias user marks count t) {count' : ℤ}
    (hcount : count' = count - (user (t i)).toInt + (user a).toInt) :
    Counts bias user marks count' (Function.update t i a) := by
  rw [Counts] at h ⊢
  rw [tally_update, hcount, h]
  ring

/-- The bias is added, or taken away. -/
theorem mark (h : Counts bias user marks count t) (k : ℤ) :
    Counts bias user (marks + k) (count + bias * k) t := by
  rw [Counts] at h ⊢
  rw [h]
  ring

/-- The counter has at least its marks. -/
theorem le_count (h : Counts bias user marks count t) : bias * marks ≤ count := by
  have husers : 0 ≤ tally (fun a => (user a).toInt) t := tally_nonneg fun i => toInt_nonneg _
  rw [Counts] at h
  omega

/-- A counter below the bias has no mark. -/
theorem marks_nonpos (h : Counts bias user marks count t) (hbias : 0 < bias)
    (hlt : count < bias) : marks ≤ 0 := by
  have hcount := h.le_count
  by_contra hmarks
  have hle : bias * 1 ≤ bias * marks := Int.mul_le_mul_of_nonneg_left (by omega) hbias.le
  omega

/-- One that has reached the bias has a mark. -/
theorem marks_pos (h : Counts bias user marks count t) (hbias : (Fintype.card I : ℤ) < bias)
    (hle : bias ≤ count) : 0 < marks := by
  have husers : tally (fun a => (user a).toInt) t ≤ Fintype.card I :=
    tally_le_card fun i => toInt_le_one _
  by_contra hmarks
  have hmul : bias * marks ≤ bias * 0 := Int.mul_le_mul_of_nonneg_left (by omega) (by omega)
  rw [Counts] at h
  omega

/-- Nobody uses a resource whose counter has no more than its marks. -/
theorem none_of_le (h : Counts bias user marks count t) (hle : count ≤ bias * marks) (i : I) :
    user (t i) = false := by
  have hi := le_tally (f := fun a => (user a).toInt) (t := t) (fun i => toInt_nonneg _) i
  rw [Counts] at h
  cases hu : user (t i) with
  | false => rfl
  | true =>
    rw [hu, Bool.toInt_true] at hi
    omega

/-- A marked counter that has come down to the bias. -/
theorem drained (h : Counts bias user marks count t) (hbias : 0 < bias) (hmarks : 0 < marks)
    (hle : count ≤ bias) : marks = 1 ∧ ∀ i, user (t i) = false := by
  have hcount := h.le_count
  have hone : marks = 1 := by
    by_contra hne
    have hmul : bias * 2 ≤ bias * marks := Int.mul_le_mul_of_nonneg_left (by omega) hbias.le
    omega
  exact ⟨hone, h.none_of_le (by rw [hone, mul_one]; exact hle)⟩

/-- While nobody uses the resource, the counter has its marks only. -/
theorem count_eq (h : Counts bias user marks count t) (hnone : ∀ i, user (t i) = false) :
    count = bias * marks := by
  have hzero : tally (fun a => (user a).toInt) t = 0 :=
    tally_eq_zero fun i => by rw [hnone i]; rfl
  rw [Counts, hzero, add_zero] at h
  exact h

end Counts

end W132d.Rundown
