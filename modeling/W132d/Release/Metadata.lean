import W132d.Deb822
import W132d.TextFile

/-!
# What is read of a package

`metadata` (`packages.py`) takes the fields of a package from what `dpkg-deb` prints, by its lines:
a line that begins without white space and has a colon is a field, with what is on this line as the
value.

* `metadata`, `get`: the functions, with those of Python that they rely on;
* `entries`: the fields that the lines of a text are taken for. `entries_text` has those of a
  paragraph. White space at the end of the text makes no difference, and how the lines end neither
  (`entries_strip`, `entries_universalNewlines`).

A line ends where `str.splitlines` says so, which is in more places than where a line of a paragraph
ends.
-/

namespace W132d.Release.Metadata

open Deb822 TextFile

/-! ## Control files -/

/-- What the script raises. -/
inductive Error
  | unicodeDecode
  | key (name : List Char)
  | calledProcess
  deriving DecidableEq, Repr

/-- `str.isspace`. -/
def isSpace (c : Char) : Bool :=
  (9 ≤ c.toNat ∧ c.toNat ≤ 13) ∨ (0x1c ≤ c.toNat ∧ c.toNat ≤ 0x20) ∨
    c.toNat ∈ [0x85, 0xa0, 0x1680, 0x2028, 0x2029, 0x202f, 0x205f, 0x3000] ∨
    (0x2000 ≤ c.toNat ∧ c.toNat ≤ 0x200a)

/-- The ends of lines of `str.splitlines`. -/
def isBoundary (c : Char) : Bool :=
  (10 ≤ c.toNat ∧ c.toNat ≤ 13) ∨ c.toNat ∈ [0x1c, 0x1d, 0x1e, 0x85, 0x2028, 0x2029]

/-- `str.splitlines`, of a text without `\r\n`. -/
def splitlines : List Char → List (List Char)
  | [] => []
  | c :: cs =>
    if isBoundary c then [] :: splitlines cs
    else
      match splitlines cs with
      | [] => [[c]]
      | l :: ls => (c :: l) :: ls

/-- `str.strip`. -/
def strip (t : List Char) : List Char := (t.dropWhile isSpace).rdropWhile isSpace

/-- The field that a line begins. -/
def entry : List Char → Option (List Char × List Char)
  | [] => none
  | c :: cs =>
    if isSpace c ∨ ':' ∉ c :: cs then none
    else some ((c :: cs).takeWhile (· ≠ ':'), strip ((c :: cs).dropWhile (· ≠ ':')).tail)

/-- The fields of a control file, by their first lines. -/
def metadata (control : List UInt8) : Except Error (List (List Char × List Char)) :=
  match readText control with
  | none => .error .unicodeDecode
  | some t => .ok ((splitlines (strip t)).filterMap entry)

/-- `m.get(key)`. The last line of a key counts. -/
def get (m : List (List Char × List Char)) (key : List Char) : Option (List Char) :=
  (m.filter (·.1 = key)).getLast?.map (·.2)

/-- `m[key]`. -/
def getItem (m : List (List Char × List Char)) (key : List Char) : Except Error (List Char) :=
  match get m key with
  | none => .error (.key key)
  | some v => .ok v

/-- `str.split(", ")`. -/
def splitComma : List Char → List (List Char)
  | [] => [[]]
  | ',' :: ' ' :: cs => [] :: splitComma cs
  | c :: cs => (splitComma cs).modifyHead (c :: ·)

/-! ## Lines -/

section Lines

variable {l t u v w : List Char} {c : Char}

/-- A boundary at the beginning ends an empty line. -/
theorem splitlines_cons_boundary (h : isBoundary c) :
    splitlines (c :: t) = [] :: splitlines t := by
  rw [splitlines, if_pos h]

/-- Only the empty text has no line. -/
theorem splitlines_eq_nil : splitlines t = [] ↔ t = [] := by
  cases t with
  | nil => simp [splitlines]
  | cons c t =>
    rw [splitlines]
    split
    · simp
    · split <;> simp

/-- The characters before the first end of a line are in the first line. -/
theorem splitlines_append (hne : u ≠ []) (hu : ∀ c ∈ u, ¬isBoundary c) :
    splitlines (u ++ v) = (u ++ (splitlines v).headD []) :: (splitlines v).tail := by
  induction u with
  | nil => exact absurd rfl hne
  | cons c u ih =>
    rw [List.forall_mem_cons] at hu
    rw [List.cons_append, splitlines, if_neg hu.1]
    cases u with
    | nil => cases hv : splitlines v <;> simp [hv]
    | cons d u => rw [ih (by simp) hu.2]; rfl

/-- Without a boundary, the text is a line. -/
theorem splitlines_of_not (hne : u ≠ []) (hu : ∀ c ∈ u, ¬isBoundary c) : splitlines u = [u] := by
  have h := splitlines_append (v := []) hne hu
  simpa [splitlines] using h

/-- A character that is no boundary is the first one of its line. -/
theorem splitlines_cons_of_not (h : ¬isBoundary c) :
    splitlines (c :: t) = (c :: (splitlines t).headD []) :: (splitlines t).tail :=
  splitlines_append (List.cons_ne_nil c []) (by simpa using h)

/-- A line that ends adds its lines, and maybe an empty one. -/
theorem splitlines_append_newline (l t : List Char) : ∃ e, (∀ x ∈ e, x = []) ∧
    splitlines (l ++ '\n' :: t) = splitlines l ++ e ++ splitlines t := by
  induction l with
  | nil => exact ⟨[[]], by simp, by rw [List.nil_append, splitlines_cons_boundary (by decide)]; rfl⟩
  | cons c l ih =>
    obtain ⟨e, he, hsplit⟩ := ih
    rw [List.cons_append, splitlines, splitlines, hsplit]
    by_cases hc : isBoundary c
    · rw [if_pos hc, if_pos hc]
      exact ⟨e, he, rfl⟩
    · rw [if_neg hc, if_neg hc]
      cases hl : splitlines l with
      | cons x xs => exact ⟨e, he, rfl⟩
      | nil =>
        rw [splitlines_eq_nil.1 hl, List.nil_append, splitlines_cons_boundary (by decide)] at hsplit
        have hnew : e ++ splitlines t = [] :: splitlines t := hsplit.symm
        rw [List.nil_append, hnew]
        exact ⟨[], by simp, rfl⟩

/-- The entries of a text. -/
def entries (t : List Char) : List (List Char × List Char) := (splitlines t).filterMap entry

/-- Empty lines have no entries. -/
theorem filterMap_entry_of_nil {e : List (List Char)} (h : ∀ x ∈ e, x = []) :
    e.filterMap entry = [] := by
  rw [List.filterMap_eq_nil_iff]
  intro x hx
  rw [h x hx, entry]

/-- The entries of a text are those of its parts, if a newline is between them. -/
theorem entries_append_newline (l t : List Char) :
    entries (l ++ '\n' :: t) = entries l ++ entries t := by
  obtain ⟨e, he, hsplit⟩ := splitlines_append_newline l t
  rw [entries, hsplit, List.filterMap_append, List.filterMap_append, filterMap_entry_of_nil he,
    List.append_nil, entries, entries]

/-- Empty lines have no entries. -/
theorem entries_text (m : ℕ) (fs : List Field) (n : ℕ) :
    entries (text m fs n) = (lines fs).flatMap entries := by
  have hlines : ∀ ls : List (List Char),
      entries (ls.flatMap (· ++ ['\n'])) = ls.flatMap entries := by
    intro ls
    induction ls with
    | nil => rfl
    | cons l ls ih =>
      rw [List.flatMap_cons, List.append_assoc, List.singleton_append, entries_append_newline, ih,
        List.flatMap_cons]
  have hempty : ∀ k : ℕ, (List.replicate k ([] : List Char)).flatMap entries = [] := fun k => by
    rw [List.flatMap_eq_nil_iff]
    intro l hl
    rw [List.eq_of_mem_replicate hl]
    rfl
  rw [text, hlines, framed, List.flatMap_append, List.flatMap_append, hempty, hempty,
    List.nil_append, List.append_nil]

/-- The entries of the first line, and of the others. -/
theorem filterMap_entry_eq (ls : List (List Char)) : ls.filterMap entry =
    (entry (ls.headD [])).toList ++ ls.tail.filterMap entry := by
  cases ls with
  | nil => rfl
  | cons l ls =>
    rw [List.filterMap_cons, List.headD_cons, List.tail_cons]
    cases entry l <;> rfl

/-- How lines end makes no difference to the entries. -/
theorem entries_universalNewlines (t : List Char) : entries (universalNewlines t) = entries t := by
  have hlines : (splitlines (universalNewlines t)).headD [] = (splitlines t).headD [] ∧
      (splitlines (universalNewlines t)).tail.filterMap entry =
        (splitlines t).tail.filterMap entry := by
    fun_induction universalNewlines t with
    | case1 => exact ⟨rfl, rfl⟩
    | case2 cs ih =>
      rw [splitlines_cons_boundary (by decide), splitlines_cons_boundary (by decide),
        splitlines_cons_boundary (by decide)]
      refine ⟨rfl, ?_⟩
      rw [List.tail_cons, List.tail_cons, List.filterMap_cons, entry, filterMap_entry_eq, ih.1,
        ih.2, ← filterMap_entry_eq]
    | case3 cs _ ih =>
      rw [splitlines_cons_boundary (by decide), splitlines_cons_boundary (by decide)]
      refine ⟨rfl, ?_⟩
      rw [List.tail_cons, List.tail_cons, filterMap_entry_eq, ih.1, ih.2, ← filterMap_entry_eq]
    | case4 c cs _ _ ih =>
      by_cases hc : isBoundary c
      · rw [splitlines_cons_boundary hc, splitlines_cons_boundary hc]
        refine ⟨rfl, ?_⟩
        rw [List.tail_cons, List.tail_cons, filterMap_entry_eq, ih.1, ih.2, ← filterMap_entry_eq]
      · rw [splitlines_cons_of_not hc, splitlines_cons_of_not hc, ih.1]
        exact ⟨rfl, ih.2⟩
  rw [entries, entries, filterMap_entry_eq, hlines.1, hlines.2, ← filterMap_entry_eq]

/-! ### White space around -/

/-- Spaces at the end are dropped. -/
theorem rdropWhile_append_spaces (hw : ∀ c ∈ w, isSpace c) :
    (u ++ w).rdropWhile isSpace = u.rdropWhile isSpace := by
  induction w using List.reverseRecOn with
  | nil => rw [List.append_nil]
  | append_singleton w c ih =>
    rw [← List.append_assoc, List.rdropWhile_concat_pos _ _ _ (hw c (by simp)),
      ih fun d hd => hw d (by simp [hd])]

/-- A text is what is left of it and white space. -/
theorem rdropWhile_append_rest (t : List Char) :
    ∃ w, (∀ c ∈ w, isSpace c) ∧ t = t.rdropWhile isSpace ++ w :=
  ⟨t.rtakeWhile isSpace, fun _ => List.mem_rtakeWhile_imp,
    (List.rdropWhile_append_rtakeWhile ..).symm⟩

theorem strip_append_spaces (hw : ∀ c ∈ w, isSpace c) : strip (u ++ w) = strip u := by
  induction u with
  | nil =>
    have hdrop : w.dropWhile isSpace = [] := List.dropWhile_eq_nil_iff.2 hw
    simp [strip, hdrop]
  | cons c u ih =>
    by_cases hc : isSpace c
    · simpa [strip, hc] using ih
    · rw [strip, strip, List.cons_append, List.dropWhile_cons_of_neg hc,
        List.dropWhile_cons_of_neg hc, ← List.cons_append, rdropWhile_append_spaces hw]

theorem strip_eq_self (hhead : ∀ c ∈ t.head?, ¬isSpace c) (hlast : ∀ c ∈ t.getLast?, ¬isSpace c) :
    strip t = t := by
  have hdrop : t.dropWhile isSpace = t := by
    cases t with
    | nil => rfl
    | cons c t => exact List.dropWhile_cons_of_neg (hhead c rfl)
  rw [strip, hdrop, List.rdropWhile_eq_self_iff]
  intro hl
  exact hlast _ (List.getLast?_eq_some_getLast hl)

/-- Stripping does not see spaces at the beginning. -/
theorem strip_spaces_append (hu : ∀ c ∈ u, isSpace c) : strip (u ++ t) = strip t := by
  rw [strip, List.dropWhile_append_of_pos hu, strip]

/-- What is left of a text from a character on. -/
theorem rdropWhile_cons (c : Char) (t : List Char) : (c :: t).rdropWhile isSpace =
    if isSpace c ∧ t.rdropWhile isSpace = [] then [] else c :: t.rdropWhile isSpace := by
  obtain ⟨w, hw, ht⟩ := rdropWhile_append_rest t
  have hcons : (c :: t).rdropWhile isSpace = (c :: t.rdropWhile isSpace).rdropWhile isSpace := by
    conv_lhs => rw [ht]
    rw [← List.cons_append, rdropWhile_append_spaces hw]
  rw [hcons]
  by_cases hnil : t.rdropWhile isSpace = []
  · rw [hnil, List.rdropWhile_singleton]
    simp
  · have hlast := List.rdropWhile_last_not isSpace t hnil
    rw [if_neg (by simp [hnil]), List.rdropWhile_eq_self_iff]
    intro hl
    rwa [List.getLast_cons hnil]

/-- A line with a colon has an entry: its key, and its value without spaces around it. -/
theorem entry_append_colon {a b : List Char} (ha : ':' ∉ a)
    (hs : ∀ c ∈ (a ++ ':' :: b).head?, ¬isSpace c) : entry (a ++ ':' :: b) = some (a, strip b) := by
  obtain ⟨htake, hdrop⟩ := takeWhile_colon (b := b) ha
  obtain ⟨c, cs, hcons⟩ := List.exists_cons_of_ne_nil (List.append_ne_nil_of_right_ne_nil a
    (List.cons_ne_nil ':' b))
  have hcolon : ':' ∈ c :: cs := hcons ▸ List.mem_append_right a List.mem_cons_self
  rw [hcons] at htake hdrop hs ⊢
  rw [entry, if_neg (by simpa [hcolon] using hs c rfl), htake, hdrop, List.tail_cons]

/-- A line without a colon has no entry. -/
theorem entry_of_not_colon (h : ':' ∉ l) : entry l = none := by
  cases l with
  | nil => rfl
  | cons c l => rw [entry, if_pos (.inr h)]

theorem entry_of_space (h : isSpace c) : entry (c :: l) = none := by
  rw [entry, if_pos (.inl h)]

/-- The white space at the end of a line is not part of an entry. -/
theorem entry_rdropWhile (l : List Char) : entry (l.rdropWhile isSpace) = entry l := by
  obtain ⟨w, hw, hl⟩ := rdropWhile_append_rest l
  generalize l.rdropWhile isSpace = u at hl
  subst hl
  cases u with
  | nil =>
    cases w with
    | nil => rfl
    | cons c w =>
      rw [List.nil_append, entry_of_space (hw c List.mem_cons_self)]
      rfl
  | cons c u =>
    by_cases hc : isSpace c
    · rw [List.cons_append, entry_of_space hc, entry_of_space hc]
    by_cases hcolon : ':' ∈ c :: u
    · obtain ⟨a, b, hab, ha⟩ := List.eq_append_cons_of_mem hcolon
      have hhead : ∀ d ∈ (c :: u).head?, ¬isSpace d := by simpa using hc
      rw [hab] at hhead ⊢
      have hhead' : ∀ d ∈ (a ++ ':' :: (b ++ w)).head?, ¬isSpace d := by
        cases a <;> simpa using hhead
      rw [List.append_assoc, List.cons_append, entry_append_colon ha hhead,
        entry_append_colon ha hhead', strip_append_spaces hw]
    · have hw' : ':' ∉ c :: u ++ w := by
        rw [List.mem_append, not_or]
        exact ⟨hcolon, fun h => absurd (hw ':' h) (by decide)⟩
      rw [entry_of_not_colon hcolon, entry_of_not_colon hw']

/-- The lines have characters of the text only. -/
theorem mem_of_mem_splitlines (hl : l ∈ splitlines t) (hc : c ∈ l) : c ∈ t := by
  induction t generalizing l with
  | nil => exact absurd hl List.not_mem_nil
  | cons d t ih =>
    rw [splitlines] at hl
    split at hl
    · rcases List.mem_cons.1 hl with rfl | hl
      · exact absurd hc List.not_mem_nil
      · exact List.mem_cons_of_mem d (ih hl hc)
    · split at hl
      · rw [List.mem_singleton] at hl
        rw [hl, List.mem_singleton] at hc
        exact hc ▸ List.mem_cons_self
      next x xs hsplit =>
        rw [hsplit] at ih
        rcases List.mem_cons.1 hl with rfl | hl
        · rcases List.mem_cons.1 hc with rfl | hc
          · exact List.mem_cons_self
          · exact List.mem_cons_of_mem d (ih List.mem_cons_self hc)
        · exact List.mem_cons_of_mem d (ih (List.mem_cons_of_mem x hl) hc)

/-- What is dropped at the end does not depend on what comes before. -/
theorem rdropWhile_cons_congr {x y : List Char}
    (h : x.rdropWhile isSpace = y.rdropWhile isSpace) :
    (c :: x).rdropWhile isSpace = (c :: y).rdropWhile isSpace := by
  rw [rdropWhile_cons, rdropWhile_cons, h]

/-- White space at the end of a text makes lines that are empty without it. -/
theorem rdropWhile_splitlines (u : List Char) (hw : ∀ c ∈ w, isSpace c) : ∃ e,
    (∀ x ∈ e, x = []) ∧ (splitlines (u ++ w)).map (·.rdropWhile isSpace) =
      (splitlines u).map (·.rdropWhile isSpace) ++ e := by
  induction u with
  | nil =>
    refine ⟨_, ?_, (List.nil_append _).symm⟩
    intro x hx
    obtain ⟨l, hl, rfl⟩ := List.mem_map.1 hx
    rw [List.rdropWhile_eq_nil_iff]
    exact fun c hc => hw c (mem_of_mem_splitlines hl hc)
  | cons c u ih =>
    obtain ⟨e, he, hmap⟩ := ih
    rw [List.cons_append, splitlines, splitlines]
    by_cases hc : isBoundary c
    · rw [if_pos hc, if_pos hc, List.map_cons, hmap]
      exact ⟨e, he, rfl⟩
    rw [if_neg hc, if_neg hc]
    -- The first lines differ in white space at most, and so they do after `c`.
    cases hu : splitlines u with
    | nil =>
      rw [hu, List.map_nil, List.nil_append] at hmap
      cases hx : splitlines (u ++ w) with
      | nil => exact ⟨[], by simp, by simp⟩
      | cons x xs =>
        rw [hx, List.map_cons] at hmap
        refine ⟨e.tail, fun y hy => he y (List.mem_of_mem_tail hy), ?_⟩
        have hempty : x.rdropWhile isSpace = [].rdropWhile isSpace :=
          he _ (hmap ▸ List.mem_cons_self)
        rw [← hmap]
        simp [rdropWhile_cons_congr hempty]
    | cons y ys =>
      rw [hu, List.map_cons] at hmap
      cases hx : splitlines (u ++ w) with
      | nil =>
        rw [hx] at hmap
        exact absurd hmap (by simp)
      | cons x xs =>
        rw [hx, List.map_cons, List.cons_append, List.cons.injEq] at hmap
        refine ⟨e, he, ?_⟩
        simp [rdropWhile_cons_congr hmap.1, hmap.2]

/-- The white space at the end of a text is not part of its entries. -/
theorem entries_append_spaces (u : List Char) (hw : ∀ c ∈ w, isSpace c) :
    entries (u ++ w) = entries u := by
  have hentry : ∀ t, entries t = ((splitlines t).map (·.rdropWhile isSpace)).filterMap entry := by
    intro t
    rw [List.filterMap_map, entries]
    exact congrArg (List.filterMap · _) (funext fun l => (entry_rdropWhile l).symm)
  obtain ⟨e, he, hmap⟩ := rdropWhile_splitlines u hw
  rw [hentry, hmap, List.filterMap_append, filterMap_entry_of_nil he, List.append_nil, ← hentry]

/-- Stripping the text leaves its entries, if it does not begin with a space. -/
theorem entries_strip (h : ∀ c ∈ t.head?, ¬isSpace c) : entries (strip t) = entries t := by
  have hdrop : t.dropWhile isSpace = t := by
    cases t with
    | nil => rfl
    | cons c t => exact List.dropWhile_cons_of_neg (h c rfl)
  obtain ⟨w, hw, ht⟩ := rdropWhile_append_rest t
  rw [strip, hdrop]
  conv_rhs => rw [ht, entries_append_spaces _ hw]

end Lines

end W132d.Release.Metadata
