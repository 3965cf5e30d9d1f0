import Mathlib.Tactic

/-!
# Framed streams

A reader gets a stream in chunks, and takes records of `n` elements from it. What is left of a chunk
stays in a buffer until the next one comes.

* `Framed.drain`: the records of a buffer, one after the other, each of which changes a state and
  puts something out;
* `Framed.drain_append`: a buffer may be drained before more comes;
* `Framed.feedAll`, `Framed.feedAll_eq`: chunks one after the other are as good as all at once;
* `Framed.feedAll_split`: so it does not matter how the stream is split;
* `Framed.feedAll_rel`: a relation of states that records keep, where they put out the same.
-/

namespace W132d.Framed

variable {A S O : Type*} (n : ℕ) (f : S → List A → S × List O)

/-- Take the records from a buffer: what is left of it, the state and what they put out. -/
def drain [NeZero n] (buffer : List A) (s : S) : List A × S × List O :=
  if n ≤ buffer.length then
    let taken := f s (buffer.take n)
    let rest := drain (buffer.drop n) taken.1
    (rest.1, rest.2.1, taken.2 ++ rest.2.2)
  else (buffer, s, [])
termination_by buffer.length
decreasing_by
  have hpos := NeZero.pos n
  rw [List.length_drop]
  omega

/-- A chunk comes. -/
def feed [NeZero n] (buffer : List A) (s : S) (chunk : List A) : List A × S × List O :=
  drain n f (buffer ++ chunk) s

/-- Chunks come. -/
def feedAll [NeZero n] (buffer : List A) (s : S) : List (List A) → List A × S × List O
  | [] => (buffer, s, [])
  | chunk :: chunks =>
    let fed := feed n f buffer s chunk
    let rest := feedAll fed.1 fed.2.1 chunks
    (rest.1, rest.2.1, fed.2.2 ++ rest.2.2)

variable {n} [NeZero n] {f} {buffer chunk : List A} {s t : S} {chunks : List (List A)}

theorem drain_of_length_lt (h : buffer.length < n) : drain n f buffer s = (buffer, s, []) := by
  rw [drain, if_neg (Nat.not_le.2 h)]

theorem drain_of_le (h : n ≤ buffer.length) : drain n f buffer s =
    ((drain n f (buffer.drop n) (f s (buffer.take n)).1).1,
      (drain n f (buffer.drop n) (f s (buffer.take n)).1).2.1,
      (f s (buffer.take n)).2 ++ (drain n f (buffer.drop n) (f s (buffer.take n)).1).2.2) := by
  rw [drain, if_pos h]

/-- A buffer may be drained before more comes. -/
theorem drain_append : drain n f (buffer ++ chunk) s =
    ((feed n f (drain n f buffer s).1 (drain n f buffer s).2.1 chunk).1,
      (feed n f (drain n f buffer s).1 (drain n f buffer s).2.1 chunk).2.1,
      (drain n f buffer s).2.2 ++
        (feed n f (drain n f buffer s).1 (drain n f buffer s).2.1 chunk).2.2) := by
  induction hlen : buffer.length using Nat.strong_induction_on generalizing buffer s with
  | _ len ih =>
    by_cases hle : n ≤ buffer.length
    · have hpos := NeZero.pos n
      have hrest := @ih (buffer.drop n).length (by rw [List.length_drop]; omega)
        (buffer.drop n) (f s (buffer.take n)).1 rfl
      have hle' : n ≤ (buffer ++ chunk).length := by rw [List.length_append]; omega
      rw [drain_of_le hle', List.take_append_of_le_length hle, List.drop_append_of_le_length hle,
        hrest, drain_of_le hle]
      simp only [List.append_assoc]
    · have hlt : buffer.length < n := by omega
      rw [drain_of_length_lt hlt]
      rfl

/-- Chunks are as good as all at once. -/
theorem feedAll_eq (h : chunks ≠ []) :
    feedAll n f buffer s chunks = feed n f buffer s chunks.flatten := by
  induction chunks generalizing buffer s with
  | nil => exact absurd rfl h
  | cons chunk chunks ih =>
    rw [feedAll, List.flatten_cons]
    cases chunks with
    | nil =>
      rw [feedAll, List.flatten_nil, List.append_nil]
      simp only [List.append_nil]
    | cons next chunks =>
      have happend := @drain_append _ _ _ n f _ (buffer ++ chunk) (next :: chunks).flatten s
      rw [List.append_assoc] at happend
      rw [ih (List.cons_ne_nil _ _)]
      exact happend.symm

/-- It does not matter how a stream is split into chunks that are not empty. -/
theorem feedAll_split (buffer : List A) (s : S) {chunks' : List (List A)} (h : [] ∉ chunks)
    (h' : [] ∉ chunks') (heq : chunks.flatten = chunks'.flatten) :
    feedAll n f buffer s chunks = feedAll n f buffer s chunks' := by
  have hnil : ∀ {chunks : List (List A)}, [] ∉ chunks → chunks.flatten = [] → chunks = [] := by
    intro chunks h hflat
    cases chunks with
    | nil => rfl
    | cons chunk chunks =>
      rw [List.flatten_cons, List.append_eq_nil_iff] at hflat
      exact absurd (hflat.1 ▸ List.mem_cons_self) h
  rcases eq_or_ne chunks [] with rfl | hne
  · rw [hnil h' heq.symm]
  · have hne' : chunks' ≠ [] := by
      rintro rfl
      exact hne (hnil h heq)
    rw [feedAll_eq hne, feedAll_eq hne', heq]

/-- A relation of states that records keep, where they put out the same. -/
def Respects (f : S → List A → S × List O) (R : S → S → Prop) : Prop :=
  ∀ s t record, R s t → R (f s record).1 (f t record).1 ∧ (f s record).2 = (f t record).2

variable {R : S → S → Prop}

theorem drain_rel (hf : Respects f R) (h : R s t) :
    (drain n f buffer s).1 = (drain n f buffer t).1 ∧
      R (drain n f buffer s).2.1 (drain n f buffer t).2.1 ∧
      (drain n f buffer s).2.2 = (drain n f buffer t).2.2 := by
  induction hlen : buffer.length using Nat.strong_induction_on generalizing buffer s t with
  | _ len ih =>
    by_cases hle : n ≤ buffer.length
    · have hpos := NeZero.pos n
      obtain ⟨hstate, hout⟩ := hf s t (buffer.take n) h
      obtain ⟨hrest, hstate', hout'⟩ :=
        ih (buffer.drop n).length (by rw [List.length_drop]; omega) hstate rfl
      rw [drain_of_le hle, drain_of_le hle]
      exact ⟨hrest, hstate', by rw [hout, hout']⟩
    · rw [drain_of_length_lt (by omega), drain_of_length_lt (by omega)]
      exact ⟨rfl, h, rfl⟩

/-- What records keep of the state, a buffer of them does. -/
theorem drain_invariant {I : S → Prop} (hf : ∀ s record, I s → I (f s record).1) (h : I s) :
    I (drain n f buffer s).2.1 := by
  induction hlen : buffer.length using Nat.strong_induction_on generalizing buffer s with
  | _ len ih =>
    by_cases hle : n ≤ buffer.length
    · have hpos := NeZero.pos n
      rw [drain_of_le hle]
      exact ih (buffer.drop n).length (by rw [List.length_drop]; omega) (hf s _ h) rfl
    · rw [drain_of_length_lt (by omega)]
      exact h

theorem feedAll_rel (buffer : List A) (chunks : List (List A)) (hf : Respects f R) (h : R s t) :
    (feedAll n f buffer s chunks).1 = (feedAll n f buffer t chunks).1 ∧
      R (feedAll n f buffer s chunks).2.1 (feedAll n f buffer t chunks).2.1 ∧
      (feedAll n f buffer s chunks).2.2 = (feedAll n f buffer t chunks).2.2 := by
  induction chunks generalizing buffer s t with
  | nil => exact ⟨rfl, h, rfl⟩
  | cons chunk chunks ih =>
    obtain ⟨hbuffer, hstate, hout⟩ : (feed n f buffer s chunk).1 = (feed n f buffer t chunk).1 ∧
        R (feed n f buffer s chunk).2.1 (feed n f buffer t chunk).2.1 ∧
        (feed n f buffer s chunk).2.2 = (feed n f buffer t chunk).2.2 := drain_rel hf h
    rw [feedAll, feedAll, ← hbuffer, ← hout]
    obtain ⟨hbuffer', hstate', hout'⟩ := ih (feed n f buffer s chunk).1 hstate
    exact ⟨hbuffer', hstate', congrArg ((feed n f buffer s chunk).2.2 ++ ·) hout'⟩

end W132d.Framed
