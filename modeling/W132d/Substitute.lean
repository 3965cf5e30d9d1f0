import Mathlib.Tactic

/-!
# Substitution

Texts whose parts of one form are replaced. A text is a list; the lines of one are what stands
between the elements `nl`.

* `subnLines`: the lines with a property are replaced;
* `subn`: the occurrences of a pattern are replaced, from left to right, none within another;
* `of_subnLines_eq_one`, `of_subn_eq_one`: what one replacement leaves. Around the part that is
  replaced the text stays, and has no other.

`re.subn` of Python works like this for patterns that cannot match the empty text. Most lemmas are
about one replacement, because scripts that edit a file this way ask for a count of 1: from the
count, the text is split at the place that was replaced, and the parts around it have no further
occurrence. Such a split is what a proof about the edited file begins with.
-/

namespace W132d.Substitute

variable {α : Type}

/-! ## Lines -/

/-- No element has the property: nothing is replaced. -/
theorem map_of_not {p : α → Bool} {g : α → α} {l : List α} (h : ∀ a ∈ l, ¬p a) :
    (l.map fun a => if p a then g a else a) = l := by
  rw [List.map_congr_left (fun a ha => if_neg (h a ha)), List.map_id']

/-- If one element has a property, the others are around it. -/
theorem of_countP_eq_one {p : α → Bool} {l : List α} (h : l.countP p = 1) :
    ∃ x a y, l = x ++ a :: y ∧ p a ∧ ∀ b ∈ x ++ y, ¬p b := by
  induction l with
  | nil => simp at h
  | cons a l ih =>
    rw [List.countP_cons] at h
    split at h
    next ha =>
      have hl : l.countP p = 0 := by omega
      exact ⟨[], a, l, rfl, ha, List.countP_eq_zero.1 hl⟩
    next ha =>
      obtain ⟨x, b, y, rfl, hb, hxy⟩ := ih (by omega)
      refine ⟨a :: x, b, y, rfl, hb, ?_⟩
      intro c hc
      rcases List.mem_cons.1 hc with rfl | hc
      · exact ha
      · exact hxy c hc

/-- The text with these lines. -/
def unlines (nl : α) (ls : List (List α)) : List α := [nl].intercalate ls

/-- A character of the text is between lines or in one. -/
theorem mem_unlines {nl c : α} {ls : List (List α)} (h : c ∈ unlines nl ls) :
    c = nl ∨ ∃ l ∈ ls, c ∈ l := by
  induction ls with
  | nil => simp [unlines] at h
  | cons l ls ih =>
    cases ls with
    | nil => exact .inr ⟨l, List.mem_cons_self, by simpa [unlines] using h⟩
    | cons l' ls =>
      rw [unlines, List.intercalate_cons_cons, ← unlines] at h
      simp only [List.mem_append, List.mem_singleton] at h
      rcases h with (h | h) | h
      · exact .inr ⟨l, List.mem_cons_self, h⟩
      · exact .inl h
      · rcases ih h with h | ⟨x, hx, hc⟩
        · exact .inl h
        · exact .inr ⟨x, List.mem_cons_of_mem l hx, hc⟩

theorem mem_unlines_of_mem {nl c : α} {l : List α} {ls : List (List α)} (hl : l ∈ ls)
    (hc : c ∈ l) : c ∈ unlines nl ls := by
  induction ls with
  | nil => simp at hl
  | cons l' ls ih =>
    cases ls with
    | nil =>
      rw [List.mem_singleton] at hl
      simpa [unlines, ← hl] using hc
    | cons x ls =>
      rw [unlines, List.intercalate_cons_cons, ← unlines]
      rcases List.mem_cons.1 hl with rfl | hl
      · exact List.mem_append_left _ (List.mem_append_left _ hc)
      · exact List.mem_append_right _ (ih hl)

/-- Two texts one after the other: the last line of the first goes on. -/
theorem unlines_append (nl : α) (x y : List (List α)) (a b : List α) :
    unlines nl (x ++ [a]) ++ unlines nl (b :: y) = unlines nl (x ++ (a ++ b) :: y) := by
  induction x with
  | nil =>
    cases y with
    | nil => simp [unlines]
    | cons c y => simp [unlines, List.intercalate_cons_cons]
  | cons c x ih =>
    cases x with
    | nil =>
      simp only [List.nil_append, List.cons_append, unlines, List.intercalate_cons_cons] at ih ⊢
      rw [List.append_assoc, ih]
    | cons d x =>
      simp only [List.cons_append, unlines, List.intercalate_cons_cons] at ih ⊢
      rw [List.append_assoc, ih]

section Lines

variable [DecidableEq α]

/-- Replace the lines with `p`. How many there are is counted. -/
def subnLines (nl : α) (p : List α → Bool) (g : List α → List α) (t : List α) : List α × ℕ :=
  (unlines nl ((t.splitOn nl).map fun l => if p l then g l else l), (t.splitOn nl).countP p)

variable {nl : α} {p : List α → Bool} {g : List α → List α} {t l : List α} {ls : List (List α)}

/-- The lines of a text make it. -/
theorem unlines_splitOn (nl : α) (t : List α) : unlines nl (t.splitOn nl) = t :=
  List.intercalate_splitOn nl

theorem splitOn_unlines (h : ∀ l ∈ ls, nl ∉ l) (hne : ls ≠ []) :
    (unlines nl ls).splitOn nl = ls :=
  List.splitOn_intercalate nl h hne

/-- No line has an end inside. -/
theorem not_mem_of_mem_splitOn (h : l ∈ t.splitOn nl) : nl ∉ l := by
  induction t generalizing l with
  | nil =>
    rw [List.splitOn_nil, List.mem_singleton] at h
    simp [h]
  | cons c cs ih =>
    rw [List.splitOn_cons_eq_if_modifyHead] at h
    split at h
    · rcases List.mem_cons.1 h with rfl | h
      · exact List.not_mem_nil
      · exact ih h
    next hc =>
      cases hsplit : cs.splitOn nl with
      | nil => exact absurd hsplit (List.splitOn_ne_nil nl cs)
      | cons x xs =>
        rw [hsplit, List.modifyHead_cons] at h
        rcases List.mem_cons.1 h with rfl | h
        · have hx := ih (hsplit ▸ List.mem_cons_self)
          grind
        · exact ih (hsplit ▸ List.mem_cons_of_mem x h)

/-- Two texts are joined in the middle of a line. -/
theorem splitOn_append {u v : List α} {x y : List (List α)} {a b : List α}
    (hu : u.splitOn nl = x ++ [a]) (hv : v.splitOn nl = b :: y) :
    (u ++ v).splitOn nl = x ++ (a ++ b) :: y := by
  have hnl : ∀ l ∈ x ++ (a ++ b) :: y, nl ∉ l := by
    intro l hl
    have hu' : ∀ l ∈ x ++ [a], nl ∉ l := fun l hl => not_mem_of_mem_splitOn (hu ▸ hl)
    have hv' : ∀ l ∈ b :: y, nl ∉ l := fun l hl => not_mem_of_mem_splitOn (hv ▸ hl)
    simp only [List.mem_append, List.mem_cons, List.not_mem_nil, or_false] at hl hu' hv'
    rcases hl with hl | rfl | hl
    · exact hu' l (.inl hl)
    · rw [List.mem_append, not_or]
      exact ⟨hu' a (.inr rfl), hv' b (.inl rfl)⟩
    · exact hv' l (.inr hl)
  rw [← splitOn_unlines hnl (by simp), ← unlines_append, ← hu, ← hv, unlines_splitOn,
    unlines_splitOn]

/-- If one line is substituted, the others are around it. -/
theorem of_subnLines_eq_one (h : (subnLines nl p g t).2 = 1) :
    ∃ before line after, (∀ l ∈ before ++ line :: after, nl ∉ l) ∧ p line ∧
      (∀ l ∈ before ++ after, ¬p l) ∧ t = unlines nl (before ++ line :: after) ∧
      (subnLines nl p g t).1 = unlines nl (before ++ g line :: after) := by
  obtain ⟨before, line, after, hsplit, hline, hothers⟩ := of_countP_eq_one h
  refine ⟨before, line, after, ?_, hline, hothers, ?_, ?_⟩
  · rw [← hsplit]
    exact fun l => not_mem_of_mem_splitOn
  · rw [← hsplit, unlines_splitOn]
  · have hbefore : ∀ l ∈ before, ¬p l := fun l hl => hothers l (List.mem_append_left _ hl)
    have hafter : ∀ l ∈ after, ¬p l := fun l hl => hothers l (List.mem_append_right _ hl)
    simp only [subnLines, hsplit, List.map_append, List.map_cons, map_of_not hbefore,
      map_of_not hafter, if_pos hline]

end Lines

/-! ## Occurrences -/

/-- Replace the occurrences of a pattern after the first `skip` elements. The length of the
    occurrence at the head of a list is `matchAt`, which is `0` where there is none. -/
def subnFrom (matchAt : List α → ℕ) (g : List α → List α) : ℕ → List α → List α × ℕ
  | _, [] => ([], 0)
  | skip + 1, _ :: cs => subnFrom matchAt g skip cs
  | 0, c :: cs =>
    match matchAt (c :: cs) with
    | 0 => (c :: (subnFrom matchAt g 0 cs).1, (subnFrom matchAt g 0 cs).2)
    | n + 1 => (g (c :: cs.take n) ++ (subnFrom matchAt g n cs).1, (subnFrom matchAt g n cs).2 + 1)

/-- Replace the occurrences of a pattern. How many there are is counted. -/
def subn (matchAt : List α → ℕ) (g : List α → List α) (t : List α) : List α × ℕ :=
  subnFrom matchAt g 0 t

variable {matchAt : List α → ℕ} {g : List α → List α} {t : List α}

/-- A match is passed, and the rest goes on behind it. -/
theorem subnFrom_eq_subn_drop (n : ℕ) (t : List α) :
    subnFrom matchAt g n t = subn matchAt g (t.drop n) := by
  induction t generalizing n with
  | nil => simp [subn, subnFrom]
  | cons c cs ih =>
    cases n with
    | zero => rfl
    | succ n => rw [subnFrom, ih, List.drop_succ_cons]

/-- In no text, nothing is substituted. -/
@[simp] theorem subn_nil : subn matchAt g [] = ([], 0) := rfl

/-- Without a match, a character stays. -/
theorem subn_cons_of_not {c : α} (h : matchAt (c :: t) = 0) :
    subn matchAt g (c :: t) = (c :: (subn matchAt g t).1, (subn matchAt g t).2) := by
  simp only [subn, subnFrom, h]

theorem subn_cons_of_match {c : α} {n : ℕ} (h : matchAt (c :: t) = n + 1) :
    subn matchAt g (c :: t) =
      (g (c :: t.take n) ++ (subn matchAt g (t.drop n)).1, (subn matchAt g (t.drop n)).2 + 1) := by
  simp only [subn, subnFrom, h]
  rw [subnFrom_eq_subn_drop, subn]

/-- How many occurrences there are does not depend on what they are replaced by. -/
theorem subn_snd (g g' : List α → List α) (t : List α) :
    (subn matchAt g t).2 = (subn matchAt g' t).2 := by
  have hfrom : ∀ n, (subnFrom matchAt g n t).2 = (subnFrom matchAt g' n t).2 := by
    induction t with
    | nil => intro n; simp only [subnFrom]
    | cons c cs ih =>
      intro n
      cases n with
      | succ n => exact ih n
      | zero =>
        simp only [subnFrom]
        split
        · exact ih 0
        next n _ => exact congrArg (· + 1) (ih n)
  exact hfrom 0

/-- The text has no occurrence. -/
def Free (matchAt : List α → ℕ) (t : List α) : Prop :=
  ∀ x c y, t = x ++ c :: y → matchAt (c :: y) = 0

/-- If nothing is substituted, the text is as it was. -/
theorem of_subn_eq_zero (h : (subn matchAt g t).2 = 0) :
    Free matchAt t ∧ (subn matchAt g t).1 = t := by
  induction t with
  | nil => simp [Free]
  | cons c cs ih =>
    cases hc : matchAt (c :: cs) with
    | succ n =>
      rw [subn_cons_of_match hc] at h
      exact absurd h (Nat.succ_ne_zero _)
    | zero =>
      rw [subn_cons_of_not hc] at h ⊢
      obtain ⟨hfree, heq⟩ := ih h
      refine ⟨?_, by rw [heq]⟩
      intro x d y hxy
      cases x with
      | nil =>
        rw [List.nil_append] at hxy
        rw [← hxy, hc]
      | cons b x => exact hfree x d y (List.cons.inj hxy).2

/-- One occurrence, at the end of `x`, is replaced: neither does another begin before it, nor after
    it has ended. -/
theorem of_subn_eq_one (h : (subn matchAt g t).2 = 1) :
    ∃ x m y, t = x ++ m ++ y ∧ m ≠ [] ∧ m = (m ++ y).take (matchAt (m ++ y)) ∧
      (∀ x' c z, x = x' ++ c :: z → matchAt (c :: z ++ m ++ y) = 0) ∧ Free matchAt y ∧
      (subn matchAt g t).1 = x ++ g m ++ y := by
  induction t with
  | nil => simp at h
  | cons c cs ih =>
    cases hc : matchAt (c :: cs) with
    | succ n =>
      rw [subn_cons_of_match hc] at h ⊢
      obtain ⟨hfree, heq⟩ := of_subn_eq_zero (Nat.succ.inj h)
      refine ⟨[], c :: cs.take n, cs.drop n, ?_, List.cons_ne_nil _ _, ?_, ?_, hfree, ?_⟩
      · simp
      · simp [hc]
      · simp
      · rw [heq, List.nil_append]
    | zero =>
      rw [subn_cons_of_not hc] at h ⊢
      obtain ⟨x, m, y, rfl, hm, hmatch, hbefore, hfree, heq⟩ := ih h
      refine ⟨c :: x, m, y, rfl, hm, hmatch, ?_, hfree, by rw [heq]; rfl⟩
      intro x' d z hx
      cases x' with
      | nil =>
        obtain ⟨rfl, rfl⟩ := List.cons.inj hx
        simpa using hc
      | cons b x' => exact hbefore x' d z (List.cons.inj hx).2

end W132d.Substitute
