import Mathlib.Data.List.AList
import Mathlib.Tactic
import W132d.Checks

/-!
# Stores with hashes in their keys

A store maps keys to contents. Some keys *name* the hash of the content they are for. A program
that writes under such a key only what has its hash can replace a content, but not lose it.

* `Holds`: the content of a key has a hash;
* `Keeps`: what one store holds under a name, another still holds. It is a preorder, and putting
  the right content under a key keeps everything (`keeps_insert`);
* `Keeps.foldlM`, `holds_foldlM`: a loop of such steps keeps what was there, and holds what each
  of its turns puts there.
-/

namespace W132d.Addressed

variable {K B H ε A : Type} [DecidableEq K]

/-- Keys and their contents. -/
abbrev Store (K B : Type) := AList fun _ : K => B

/-- The content of the key has the hash. -/
def Holds (hash : B → H) (s : Store K B) (k : K) (h : H) : Prop :=
  ∃ b, s.lookup k = some b ∧ hash b = h

/-- Under each name, `s'` has a content of the hash if `s` does. -/
def Keeps (hash : B → H) (names : K → H → Prop) (s s' : Store K B) : Prop :=
  ∀ k h, names k h → Holds hash s k h → Holds hash s' k h

variable {hash : B → H} {names : K → H → Prop} {s s' s'' : Store K B} {k : K} {h : H} {b : B}

theorem holds_insert (hb : hash b = h) : Holds hash (s.insert k b) k h :=
  ⟨b, AList.lookup_insert s, hb⟩

/-- Another key does not matter. -/
theorem Holds.congr (hs : Holds hash s k h) (heq : s'.lookup k = s.lookup k) :
    Holds hash s' k h := by
  obtain ⟨b, hb, hh⟩ := hs
  exact ⟨b, heq.trans hb, hh⟩

theorem Keeps.refl (s : Store K B) : Keeps hash names s s := fun _ _ _ hs => hs

theorem Keeps.trans (hs : Keeps hash names s s') (hs' : Keeps hash names s' s'') :
    Keeps hash names s s'' :=
  fun k h hk hold => hs' k h hk (hs k h hk hold)

/-- A content is put under a key that names its hash, if any. -/
theorem keeps_insert (hb : ∀ h, names k h → hash b = h) :
    Keeps hash names s (s.insert k b) := by
  intro k' h hk hold
  by_cases heq : k' = k
  · subst heq
    exact holds_insert (hb h hk)
  · exact hold.congr (AList.lookup_insert_ne heq)

/-- A loop keeps what each of its turns keeps. -/
theorem Keeps.foldlM {f : Store K B → A → Except ε (Store K B)} {l : List A}
    (hf : ∀ a ∈ l, ∀ s s', f s a = .ok s' → Keeps hash names s s')
    (hl : l.foldlM f s = .ok s') : Keeps hash names s s' := by
  induction l generalizing s with
  | nil => exact Except.ok.inj hl ▸ Keeps.refl s
  | cons a l ih =>
    rw [List.foldlM_cons] at hl
    obtain ⟨t, ht, hl⟩ := bind_eq_ok.1 hl
    exact (hf a List.mem_cons_self s t ht).trans
      (ih (fun a ha => hf a (List.mem_cons_of_mem _ ha)) hl)

/-- After a loop, the store holds what each turn has put there under a name. -/
theorem holds_foldlM (names : K → H → Prop) {f : Store K B → A → Except ε (Store K B)}
    {key : A → K} {sum : A → H} {l : List A} (hf : ∀ a ∈ l, ∀ s s', f s a = .ok s' →
      Keeps hash names s s' ∧ Holds hash s' (key a) (sum a))
    (hnames : ∀ a ∈ l, names (key a) (sum a)) (hl : l.foldlM f s = .ok s') :
    ∀ a ∈ l, Holds hash s' (key a) (sum a) := by
  induction l generalizing s with
  | nil => exact fun _ ha => absurd ha List.not_mem_nil
  | cons a l ih =>
    rw [List.foldlM_cons] at hl
    obtain ⟨t, ht, hrest⟩ := bind_eq_ok.1 hl
    have hturn : ∀ a ∈ l, ∀ s s', f s a = .ok s' →
        Keeps hash names s s' ∧ Holds hash s' (key a) (sum a) :=
      fun a ha => hf a (List.mem_cons_of_mem _ ha)
    intro a' ha'
    rcases List.mem_cons.1 ha' with rfl | ha'
    · -- Later turns keep what this one has put there.
      exact Keeps.foldlM (fun a ha s s' h => (hturn a ha s s' h).1) hrest _ _
        (hnames _ List.mem_cons_self) (hf _ List.mem_cons_self s t ht).2
    · exact ih hturn (fun a ha => hnames a (List.mem_cons_of_mem _ ha)) hrest a' ha'

/-- A key that no turn of a loop writes has the same content after it. -/
theorem lookup_foldlM {f : Store K B → A → Except ε (Store K B)} {l : List A}
    (hf : ∀ a ∈ l, ∀ s s', f s a = .ok s' → s'.lookup k = s.lookup k)
    (hl : l.foldlM f s = .ok s') : s'.lookup k = s.lookup k := by
  induction l generalizing s with
  | nil => rw [Except.ok.inj hl]
  | cons a l ih =>
    rw [List.foldlM_cons] at hl
    obtain ⟨t, ht, hl⟩ := bind_eq_ok.1 hl
    rw [ih (fun a ha => hf a (List.mem_cons_of_mem _ ha)) hl, hf a List.mem_cons_self s t ht]

end W132d.Addressed
