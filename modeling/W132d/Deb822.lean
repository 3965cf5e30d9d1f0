import Mathlib.Data.List.DropRight
import W132d.Literal
import W132d.Substitute

/-!
# Control paragraphs

A paragraph of the control files of Debian is a list of fields. A field has a name and a value,
which begins after the colon and goes on in the lines that begin with a blank. Empty lines end a
paragraph, and a file with one paragraph may have any number of them before and behind it. The
value of a field like `Depends` is a list of relations between commas, however its lines are folded.

* `Field`, `text`: the fields of a paragraph and its text, which determines them (`text_inj`);
* `text_ne_append`: a line behind the empty lines is not part of the paragraph;
* `relations`: the relations of a value, each by its words;
* `relations_append`: what becomes of them when something is written into the value.

That the text of a paragraph tells its fields is proved from the lines: a line that does not begin
with a blank begins a field, its name ends at the first colon, and the lines that follow with a
blank belong to its value (`lines_inj`). So an edit of the text that keeps the form of a paragraph
is an edit of its fields.

The relations of a value are cut at commas and into words at white space, so that folding makes no
difference. What is written behind a text goes on with its last relation, or begins another one if a
comma is in between; `before`, `last`, `head` and `after` name the parts that meet there.
-/

namespace W132d.Deb822

open Literal Substitute

/-! ## Fields -/

/-- A character that a line may begin with to continue a field. -/
def isBlank (c : Char) : Bool := c = ' ' ∨ c = '\t'

/-- A field, whose value may go on in the lines that follow. -/
@[ext]
structure Field where
  name : List Char
  /-- What follows the colon. -/
  first : List Char
  /-- The lines that follow. -/
  rest : List (List Char)
  deriving DecidableEq, Repr

namespace Field

/-- Its first line. -/
def header (f : Field) : List Char := f.name ++ ':' :: f.first

def lines (f : Field) : List (List Char) := f.header :: f.rest

def value (f : Field) : List Char := unlines '\n' (f.first :: f.rest)

/-- What follows the first line of the value. -/
def folded (f : Field) : List Char := f.rest.flatMap ('\n' :: ·)

/-- A field as it may be written: the name is of ASCII, and the value is not empty. -/
structure Valid (f : Field) : Prop where
  name_ne : f.name ≠ []
  name : ∀ c ∈ f.name, 33 ≤ c.toNat ∧ c.toNat ≤ 126 ∧ c ≠ ':'
  head : ∀ c ∈ f.name.head?, c ≠ '#' ∧ c ≠ '-'
  first : '\n' ∉ f.first
  rest : ∀ l ∈ f.rest, '\n' ∉ l ∧ (∃ c ∈ l.head?, isBlank c) ∧ ∃ c ∈ l, ¬isBlank c
  value : f.rest ≠ [] ∨ ∃ c ∈ f.first, ¬isBlank c

end Field

/-- The lines of a paragraph. -/
def lines (fs : List Field) : List (List Char) := fs.flatMap Field.lines

/-- The lines of a file, with `m` empty ones before the paragraph and `n` behind it. -/
def framed (m : ℕ) (fs : List Field) (n : ℕ) : List (List Char) :=
  List.replicate m [] ++ lines fs ++ List.replicate n []

/-- The text of the file. Each line has an end. -/
def text (m : ℕ) (fs : List Field) (n : ℕ) : List Char := (framed m fs n).flatMap (· ++ ['\n'])

variable {f g : Field} {fs gs : List Field} {l : List Char} {m m' n n' : ℕ}

/-- The lines of no field. -/
@[simp] theorem lines_nil : lines [] = [] := rfl

@[simp] theorem lines_cons : lines (f :: fs) = f.header :: (f.rest ++ lines fs) := rfl

@[simp] theorem lines_append : lines (fs ++ gs) = lines fs ++ lines gs := List.flatMap_append

/-- Without empty lines behind it, a paragraph goes on with the lines that are written there. -/
theorem text_append : text m (fs ++ gs) 0 = text m fs 0 ++ text 0 gs 0 := by
  simp [text, framed]

/-- A line of the file is empty or one of a field. -/
theorem mem_framed (h : l ∈ framed m fs n) : l = [] ∨ l ∈ lines fs := by
  simp only [framed, List.mem_append, List.mem_replicate] at h
  tauto

/-- Each line of the file ends with a newline. -/
theorem flatMap_lines (ls : List (List Char)) :
    ls.flatMap (· ++ ['\n']) = unlines '\n' (ls ++ [[]]) := by
  induction ls with
  | nil => rfl
  | cons l ls ih =>
    rw [List.flatMap_cons, ih]
    cases ls with
    | nil => simp [unlines, List.intercalate_cons_cons]
    | cons l' ls => simp [unlines, List.intercalate_cons_cons]

/-- All lines but the first one begin with a newline. -/
theorem unlines_cons (l : List Char) (ls : List (List Char)) :
    unlines '\n' (l :: ls) = l ++ ls.flatMap ('\n' :: ·) := by
  induction ls generalizing l with
  | nil => simp [unlines]
  | cons l' ls ih =>
    have hcons : unlines '\n' (l :: l' :: ls) = l ++ '\n' :: unlines '\n' (l' :: ls) := by
      simp [unlines, List.intercalate_cons_cons]
    rw [hcons, ih, List.flatMap_cons, List.cons_append]

/-- The value is its first line, and what continues it. -/
theorem Field.value_eq (f : Field) : f.value = f.first ++ f.folded :=
  unlines_cons f.first f.rest

/-- The first line of a field is one line. -/
theorem Field.Valid.newline_header (hf : f.Valid) : '\n' ∉ f.header := by
  rw [Field.header, List.mem_append, List.mem_cons]
  rintro (h | h | h)
  · exact absurd (hf.name _ h).1 (by decide)
  · exact absurd h (by decide)
  · exact hf.first h

theorem newline_lines (hf : ∀ f ∈ fs, f.Valid) : ∀ l ∈ lines fs, '\n' ∉ l := by
  intro l hl
  obtain ⟨f, hmem, hl⟩ := List.mem_flatMap.1 hl
  rcases List.mem_cons.1 hl with rfl | hl
  · exact (hf f hmem).newline_header
  · exact ((hf f hmem).rest l hl).1

theorem newline_framed (hf : ∀ f ∈ fs, f.Valid) : ∀ l ∈ framed m fs n, '\n' ∉ l := by
  intro l hl
  rcases mem_framed hl with rfl | hl
  · exact List.not_mem_nil
  · exact newline_lines hf l hl

/-- The lines of a text, the last of which has no end. -/
theorem splitOn_flatMap {ls : List (List Char)} (h : ∀ l ∈ ls, '\n' ∉ l) :
    (ls.flatMap (· ++ ['\n'])).splitOn '\n' = ls ++ [[]] := by
  rw [flatMap_lines, splitOn_unlines _ (by simp)]
  intro l hl
  rcases List.mem_append.1 hl with hl | hl
  · exact h l hl
  · rw [List.mem_singleton.1 hl]
    exact List.not_mem_nil

/-- The text is split into the lines that it was made of. -/
theorem splitOn_text (hf : ∀ f ∈ fs, f.Valid) :
    (text m fs n).splitOn '\n' = framed m fs n ++ [[]] := splitOn_flatMap (newline_framed hf)

/-- The name ends at the first colon. -/
theorem Field.Valid.colon_name (hf : f.Valid) : ':' ∉ f.name :=
  fun h => (hf.name _ h).2.2 rfl

/-- The first colon of a text. -/
theorem takeWhile_colon {a b : List Char} (ha : ':' ∉ a) :
    (a ++ ':' :: b).takeWhile (· ≠ ':') = a ∧ (a ++ ':' :: b).dropWhile (· ≠ ':') = ':' :: b := by
  have ha' : ∀ c ∈ a, decide (c ≠ ':') = true :=
    fun c hc => decide_eq_true fun hcolon => ha (hcolon ▸ hc)
  rw [List.takeWhile_append_of_pos ha', List.dropWhile_append_of_pos ha']
  simp

/-- The first colon ends the name. -/
theorem header_inj (hf : f.Valid) (hg : g.Valid) (h : f.header = g.header) :
    f.name = g.name ∧ f.first = g.first := by
  have hf' := takeWhile_colon (b := f.first) hf.colon_name
  have hg' := takeWhile_colon (b := g.first) hg.colon_name
  rw [Field.header, Field.header] at h
  rw [h] at hf'
  exact ⟨hf'.1.symm.trans hg'.1, (List.cons.inj (hf'.2.symm.trans hg'.2)).2⟩

/-- A line begins with a blank. -/
def isContinuation (l : List Char) : Bool := l.head?.any isBlank

/-- A first line is known by its first character. -/
theorem Field.Valid.isContinuation_header (hf : f.Valid) : isContinuation f.header = false := by
  obtain ⟨c, cs, hname⟩ := List.exists_cons_of_ne_nil hf.name_ne
  have hc := (hf.name c (hname ▸ List.mem_cons_self)).1
  rw [isContinuation, Field.header, hname]
  simp only [List.cons_append, List.head?_cons, Option.any_some, isBlank,
    decide_eq_false_iff_not]
  rintro (rfl | rfl) <;> exact absurd hc (by decide)

theorem Field.Valid.isContinuation_rest (hf : f.Valid) (hl : l ∈ f.rest) :
    isContinuation l = true := by
  obtain ⟨c, hc, hblank⟩ := (hf.rest l hl).2.1
  rw [isContinuation, Option.mem_def.1 hc]
  exact hblank

/-- A field ends before the first line that does not begin with a blank. -/
theorem takeWhile_rest (hf : f.Valid) (hfs : ∀ g ∈ fs, g.Valid) :
    (f.rest ++ lines fs).takeWhile isContinuation = f.rest ∧
      (f.rest ++ lines fs).dropWhile isContinuation = lines fs := by
  have hrest : ∀ l ∈ f.rest, isContinuation l = true := fun l => hf.isContinuation_rest
  rw [List.takeWhile_append_of_pos hrest, List.dropWhile_append_of_pos hrest]
  cases fs with
  | nil => simp
  | cons g fs =>
    have hg := (hfs g List.mem_cons_self).isContinuation_header
    simp [hg]

/-- The lines of a file tell its fields. -/
theorem lines_inj (hf : ∀ f ∈ fs, f.Valid) (hg : ∀ g ∈ gs, g.Valid) (h : lines fs = lines gs) :
    fs = gs := by
  induction fs generalizing gs with
  | nil =>
    cases gs with
    | nil => rfl
    | cons g gs => exact absurd h (by simp)
  | cons f fs ih =>
    cases gs with
    | nil => exact absurd h (by simp)
    | cons g gs =>
      rw [List.forall_mem_cons] at hf hg
      rw [lines_cons, lines_cons, List.cons.injEq] at h
      obtain ⟨hname, hfirst⟩ := header_inj hf.1 hg.1 h.1
      have hf' := takeWhile_rest hf.1 hf.2
      have hg' := takeWhile_rest hg.1 hg.2
      rw [h.2] at hf'
      have hrest : f.rest = g.rest := hf'.1.symm.trans hg'.1
      obtain rfl := ih hf.2 hg.2 (hf'.2.symm.trans hg'.2)
      rw [Field.ext hname hfirst hrest]

/-- The lines of a paragraph are not empty. -/
theorem ne_nil_of_mem_lines (hf : ∀ f ∈ fs, f.Valid) (hl : l ∈ lines fs) : l ≠ [] := by
  obtain ⟨f, hmem, hl⟩ := List.mem_flatMap.1 hl
  rcases List.mem_cons.1 hl with rfl | hl
  · exact List.append_ne_nil_of_right_ne_nil _ (List.cons_ne_nil _ _)
  · have hcontinues := (hf f hmem).isContinuation_rest hl
    rintro rfl
    exact absurd hcontinues (by decide)

/-- Without the empty lines, the file has the lines of its fields. -/
theorem filter_framed (hf : ∀ f ∈ fs, f.Valid) :
    (framed m fs n).filter (!·.isEmpty) = lines fs := by
  have hlines : (lines fs).filter (!·.isEmpty) = lines fs :=
    List.filter_eq_self.2 fun l hl => by simpa using ne_nil_of_mem_lines hf hl
  simp [framed, hlines]

/-- The text of a paragraph determines its fields. -/
theorem text_inj (hf : ∀ f ∈ fs, f.Valid) (hg : ∀ g ∈ gs, g.Valid)
    (h : text m fs n = text m' gs n') : fs = gs := by
  have hlines := congrArg (List.splitOn '\n') h
  rw [splitOn_text hf, splitOn_text hg] at hlines
  have hfilter := congrArg (List.filter (!·.isEmpty)) (List.append_cancel_right hlines)
  rw [filter_framed hf, filter_framed hg] at hfilter
  exact lines_inj hf hg hfilter

/-! ### Empty lines -/

/-- The lines behind the first ones that are not empty. -/
def behind (ls : List (List Char)) : List (List Char) :=
  (ls.dropWhile (·.isEmpty)).dropWhile (!·.isEmpty)

/-- Behind a paragraph, all lines are empty. -/
theorem behind_framed (hf : ∀ f ∈ fs, f.Valid) : ∀ l ∈ behind (framed m fs n), l = [] := by
  have hreplicate : ∀ k : ℕ, ∀ l ∈ List.replicate k ([] : List Char), l.isEmpty := fun k l hl => by
    rw [List.eq_of_mem_replicate hl, List.isEmpty_nil]
  have hlines : ∀ l ∈ lines fs, !l.isEmpty := fun l hl => by
    simpa using ne_nil_of_mem_lines hf hl
  rw [behind, framed, List.append_assoc, List.dropWhile_append_of_pos (hreplicate m)]
  cases hfs : lines fs with
  | nil =>
    rw [List.nil_append, List.dropWhile_eq_nil_iff.2 (hreplicate n)]
    exact fun l hl => absurd hl List.not_mem_nil
  | cons x xs =>
    have hx := hlines x (by rw [hfs]; exact List.mem_cons_self)
    rw [List.cons_append, List.dropWhile_cons_of_neg (by simpa using hx), ← List.cons_append, ← hfs,
      List.dropWhile_append_of_pos hlines]
    exact fun l hl => List.isEmpty_iff.1 (hreplicate n l ((List.dropWhile_sublist _).subset hl))

/-- A line that is written behind the empty lines behind a paragraph makes another one. -/
theorem text_ne_append (hf : ∀ f ∈ fs, f.Valid) (hg : ∀ g ∈ gs, g.Valid) (hne : fs ≠ [])
    (hn : n ≠ 0) (hl : l ≠ []) (hnewline : '\n' ∉ l) :
    text m fs n ++ (l ++ ['\n']) ≠ text m' gs n' := by
  intro h
  have hlines : framed m fs n ++ [l] = framed m' gs n' := by
    have hsplit := congrArg (List.splitOn '\n') h
    have htext : text m fs n ++ (l ++ ['\n']) = (framed m fs n ++ [l]).flatMap (· ++ ['\n']) := by
      simp [text]
    rw [htext, splitOn_flatMap, splitOn_text hg] at hsplit
    · exact List.append_cancel_right hsplit
    · intro l' hl'
      rcases List.mem_append.1 hl' with hl' | hl'
      · exact newline_framed hf l' hl'
      · rwa [List.mem_singleton.1 hl']
  -- The line is behind the first lines that are not empty.
  have hmem : l ∈ behind (framed m fs n ++ [l]) := by
    obtain ⟨n, rfl⟩ := Nat.exists_eq_succ_of_ne_zero hn
    obtain ⟨f, fs, rfl⟩ := List.exists_cons_of_ne_nil hne
    have hreplicate : ∀ x ∈ List.replicate m ([] : List Char), x.isEmpty := fun x hx => by
      rw [List.eq_of_mem_replicate hx, List.isEmpty_nil]
    have hlines : ∀ x ∈ lines (f :: fs), !x.isEmpty := fun x hx => by
      simpa using ne_nil_of_mem_lines hf hx
    have hheader : ¬f.header.isEmpty := by
      simpa using hlines f.header List.mem_cons_self
    rw [behind, framed, List.append_assoc, List.append_assoc,
      List.dropWhile_append_of_pos hreplicate, lines_cons, List.cons_append,
      List.dropWhile_cons_of_neg hheader, ← List.cons_append, ← lines_cons,
      List.dropWhile_append_of_pos hlines, List.replicate_succ, List.cons_append,
      List.dropWhile_cons_of_neg (by simp)]
    simp
  rw [hlines] at hmem
  exact hl (behind_framed hg l hmem)

/-! ## Relations -/

/-- A character between words. -/
def isWhite (c : Char) : Bool := isBlank c ∨ c = '\n'

/-- The words of a text, between white space. -/
def words (t : List Char) : List (List Char) := (t.splitOnP isWhite).filter (· ≠ [])

/-- The relations of a value, between commas. -/
def relations (t : List Char) : List (List (List Char)) := (t.splitOn ',').map words

variable {t u v : List Char} {c : Char}

/-- No text has no words. -/
@[simp] theorem words_nil : words [] = [] := rfl

/-- A white character is between words. -/
theorem words_append_white (hc : isWhite c) : words (u ++ c :: v) = words u ++ words v := by
  rw [words, List.splitOnP_append_cons u v hc, List.filter_append, words, words]

theorem words_cons_white (hc : isWhite c) : words (c :: v) = words v :=
  words_append_white (u := []) hc

theorem words_of_not_white (hne : t ≠ []) (h : ∀ c ∈ t, isWhite c = false) : words t = [t] := by
  rw [words, List.splitOnP_eq_singleton h]
  simp [hne]

/-- Each character of a text is white or in a word. -/
theorem mem_words (hc : c ∈ t) : isWhite c ∨ ∃ w ∈ words t, c ∈ w := by
  have hsplit : ∀ t : List Char, c ∈ t → isWhite c ∨ ∃ w ∈ t.splitOnP isWhite, c ∈ w := by
    intro t
    induction t with
    | nil => simp
    | cons d t ih =>
      intro hc
      rw [List.splitOnP_cons_eq_if_modifyHead]
      split
      next hd =>
        rcases List.mem_cons.1 hc with rfl | hc
        · exact .inl hd
        · rcases ih hc with h | ⟨w, hw, hcw⟩
          · exact .inl h
          · exact .inr ⟨w, List.mem_cons_of_mem _ hw, hcw⟩
      next hd =>
        obtain ⟨x, xs, hx⟩ := List.exists_cons_of_ne_nil (List.splitOnP_ne_nil isWhite t)
        rw [hx] at ih
        rw [hx, List.modifyHead_cons]
        rcases List.mem_cons.1 hc with rfl | hc
        · exact .inr ⟨_, List.mem_cons_self, List.mem_cons_self⟩
        · rcases ih hc with h | ⟨w, hw, hcw⟩
          · exact .inl h
          · rcases List.mem_cons.1 hw with rfl | hw
            · exact .inr ⟨_, List.mem_cons_self, List.mem_cons_of_mem _ hcw⟩
            · exact .inr ⟨w, List.mem_cons_of_mem _ hw, hcw⟩
  rcases hsplit t hc with h | ⟨w, hw, hcw⟩
  · exact .inl h
  · refine .inr ⟨w, List.mem_filter.2 ⟨hw, ?_⟩, hcw⟩
    exact decide_eq_true (List.ne_nil_of_mem hcw)

/-- Each character of a value is a comma, white or in a word of a relation. -/
theorem mem_relations (hc : c ∈ t) : c = ',' ∨ isWhite c ∨ ∃ ws ∈ relations t, ∃ w ∈ ws, c ∈ w := by
  rw [← unlines_splitOn ',' t] at hc
  rcases mem_unlines hc with h | ⟨l, hl, hc⟩
  · exact .inl h
  · rcases mem_words hc with h | h
    · exact .inr (.inl h)
    · exact .inr (.inr ⟨words l, List.mem_map_of_mem hl, h⟩)

/-- The last relation is behind the last comma. -/
theorem splitOn_eq_dropLast (t : List Char) : t.splitOn ',' =
    (t.splitOn ',').dropLast ++ [(t.splitOn ',').getLast (List.splitOn_ne_nil ',' t)] :=
  (List.dropLast_append_getLast _).symm

/-- The relations before the last comma of a text. -/
def before (t : List Char) : List (List (List Char)) := (t.splitOn ',').dropLast.map words

/-- The words after the last comma. -/
def last (t : List Char) : List (List Char) :=
  words ((t.splitOn ',').getLast (List.splitOn_ne_nil ',' t))

/-- The words up to the first comma. -/
def head (t : List Char) : List (List Char) :=
  words ((t.splitOn ',').head (List.splitOn_ne_nil ',' t))

/-- The relations after the first comma. -/
def after (t : List Char) : List (List (List Char)) := (t.splitOn ',').tail.map words

/-- The relations are that one and those before it. -/
theorem relations_eq_before (t : List Char) : relations t = before t ++ [last t] := by
  conv_lhs => rw [relations, splitOn_eq_dropLast]
  rw [List.map_append, List.map_singleton, before, last]

/-- White space before a text is in none of its relations. -/
theorem before_last_cons_white (hc : isWhite c) :
    before (c :: t) = before t ∧ last (c :: t) = last t := by
  have hrelations : relations (c :: t) = relations t := by
    have hne : c ≠ ',' := by
      rintro rfl
      exact absurd hc (by decide)
    obtain ⟨x, xs, hx⟩ := List.exists_cons_of_ne_nil (List.splitOn_ne_nil ',' t)
    rw [relations, List.splitOn_cons_eq_if_modifyHead, if_neg (by simpa using hne), hx,
      List.modifyHead_cons, List.map_cons, words_cons_white hc, relations, hx, List.map_cons]
  rw [relations_eq_before, relations_eq_before] at hrelations
  have hboth := List.append_inj' hrelations rfl
  exact ⟨hboth.1, (List.cons.inj hboth.2).1⟩

/-- Two lists of relations, with a comma between them. -/
theorem relations_append_comma : relations (u ++ ',' :: v) = relations u ++ relations v := by
  rw [relations, List.splitOn_append_cons_self, List.map_append, relations, relations]

/-- A text that goes on after white space: the last relation gets more words. -/
theorem relations_append (hv : ∀ c ∈ v.head?, isWhite c) :
    relations (u ++ v) = before u ++ (last u ++ head v) :: after v := by
  have hsplit := Substitute.splitOn_append (splitOn_eq_dropLast u)
    (List.cons_head_tail (List.splitOn_ne_nil ',' v)).symm
  have hwords : words ((u.splitOn ',').getLast (List.splitOn_ne_nil ',' u) ++
      (v.splitOn ',').head (List.splitOn_ne_nil ',' v)) = last u ++ head v := by
    cases v with
    | nil => simp [last, head]
    | cons c v =>
      have hc : isWhite c := hv c rfl
      have hne : c ≠ ',' := by
        rintro rfl
        exact absurd hc (by decide)
      have hhead : ((c :: v).splitOn ',').head (List.splitOn_ne_nil ',' (c :: v)) =
          c :: (v.splitOn ',').head (List.splitOn_ne_nil ',' v) := by
        simp [List.splitOn_cons_eq_if_modifyHead, hne]
      rw [hhead, words_append_white hc, last, head, hhead, words_cons_white hc]
  rw [relations, hsplit, List.map_append, List.map_cons, hwords, before, after]

/-! ### Syntax -/

/-- A character of a package's name, also with an architecture. -/
def isNameChar (c : Char) : Bool := c.isAlphanum || c ∈ ['+', '-', '.', ':']

def isVersionChar (c : Char) : Bool := c.isAlphanum || c ∈ ['.', '+', '~', ':', '-']

/-- A text without the white space around it. -/
def trim (t : List Char) : List Char := (t.dropWhile isWhite).rdropWhile isWhite

local instance lawfulBEqText : LawfulBEq (List Char) := inferInstance

/-- A restriction on the version, in parentheses, or none. -/
def isRestriction : List Char → Bool
  | [] => true
  | '(' :: t =>
    let op := (t.dropWhile isWhite).takeWhile (· ∈ ['<', '=', '>'])
    let version := trim ((t.dropWhile isWhite).dropWhile (· ∈ ['<', '=', '>'])).dropLast
    t.getLast? = some ')' ∧ op ∈ [['<', '<'], ['<', '='], ['='], ['>', '='], ['>', '>']] ∧
      version ≠ [] ∧ version.all isVersionChar
  | _ => false

/-- A package, of which there may be a restriction on the version. -/
def isAlternative (t : List Char) : Bool :=
  let name := (t.dropWhile isWhite).takeWhile isNameChar
  let restriction := trim ((t.dropWhile isWhite).dropWhile isNameChar)
  name.head?.any Char.isAlphanum ∧ isRestriction restriction

/-- The words form alternatives between bars. -/
def isRelation (ws : List (List Char)) : Bool :=
  (ws.all fun w => w.all fun c => 33 ≤ c.toNat ∧ c.toNat ≤ 126) ∧
    ((unlines ' ' ws).splitOn '|').all isAlternative

/-- White characters at the beginning are trimmed. -/
theorem trim_cons_white (hc : isWhite c) : trim (c :: t) = trim t := by
  rw [trim, List.dropWhile_cons_of_pos hc, trim]

theorem trim_eq_self (hhead : ∀ c ∈ t.head?, ¬isWhite c) (hlast : ∀ c ∈ t.getLast?, ¬isWhite c) :
    trim t = t := by
  have hdrop : t.dropWhile isWhite = t := by
    cases t with
    | nil => rfl
    | cons c t => exact List.dropWhile_cons_of_neg (hhead c rfl)
  rw [trim, hdrop, List.rdropWhile_eq_self_iff]
  intro hl
  exact hlast _ (List.getLast?_eq_some_getLast hl)

/-- Letters and digits are printable. -/
theorem isAlphanum_ascii (h : c.isAlphanum) : 33 ≤ c.toNat ∧ c.toNat ≤ 126 := by
  change ((decide (65 ≤ c.val ∧ c.val ≤ 90) || decide (97 ≤ c.val) && decide (c.val ≤ 122)) ||
    decide (48 ≤ c.val) && decide (c.val ≤ 57)) = true at h
  simp only [Bool.or_eq_true, Bool.and_eq_true, decide_eq_true_eq, UInt32.le_iff_toNat_le] at h
  rcases h with (h | h) | h
  all_goals exact ⟨le_trans (by decide) h.1, le_trans h.2 (by decide)⟩

theorem isVersionChar_ascii (h : isVersionChar c) : 33 ≤ c.toNat ∧ c.toNat ≤ 126 := by
  simp only [isVersionChar, Bool.or_eq_true, decide_eq_true_eq, List.mem_cons, List.not_mem_nil,
    or_false] at h
  rcases h with h | rfl | rfl | rfl | rfl | rfl
  · exact isAlphanum_ascii h
  all_goals decide

theorem isNameChar_ascii (h : isNameChar c) : 33 ≤ c.toNat ∧ c.toNat ≤ 126 := by
  simp only [isNameChar, Bool.or_eq_true, decide_eq_true_eq, List.mem_cons, List.not_mem_nil,
    or_false] at h
  rcases h with h | rfl | rfl | rfl | rfl
  · exact isAlphanum_ascii h
  all_goals decide

/-- The characters of a version are not white. -/
theorem not_isWhite_of_isVersionChar (h : isVersionChar c) : ¬isWhite c := by
  rw [isWhite, isBlank]
  simp only [decide_eq_true_eq]
  rintro ((rfl | rfl) | rfl) <;> exact absurd h (by decide)

/-- A version between `(= ` and `)`. -/
theorem isRestriction_version {version : List Char} (hne : version ≠ [])
    (h : ∀ c ∈ version, isVersionChar c) : isRestriction ("(= ".toList ++ version ++ [')']) := by
  have hwhite : ∀ c ∈ version, ¬isWhite c := fun c hc => not_isWhite_of_isVersionChar (h c hc)
  have htrim : trim (' ' :: version) = version := by
    rw [trim_cons_white (by decide), trim_eq_self
      (fun c hc => hwhite c (List.mem_of_mem_head? hc))
      fun c hc => hwhite c (List.mem_of_mem_getLast? hc)]
  have hdrop : ("= ".toList ++ version ++ [')']).dropWhile isWhite =
      "= ".toList ++ version ++ [')'] := rfl
  have hop : ("= ".toList ++ version ++ [')']).takeWhile (· ∈ ['<', '=', '>']) = ['='] := by
    simp
  have hafter : (("= ".toList ++ version ++ [')']).dropWhile (· ∈ ['<', '=', '>'])) =
      (' ' :: version) ++ [')'] := by
    simp
  have hlast : ("= ".toList ++ version ++ [')']).getLast? = some ')' := List.getLast?_concat
  change isRestriction ('(' :: ("= ".toList ++ version ++ [')'])) = true
  rw [isRestriction]
  simp only [hdrop, hop, hafter, hlast, List.dropLast_concat, htrim, List.all_eq_true]
  simpa [hne] using h

/-- A package of one version. -/
theorem isRelation_version {name version : List Char} (hname : ∀ c ∈ name, isNameChar c)
    (hhead : name.head?.any Char.isAlphanum) (hne : version ≠ [])
    (h : ∀ c ∈ version, isVersionChar c) :
    isRelation [name, "(=".toList, version ++ [')']] := by
  have htext : unlines ' ' [name, "(=".toList, version ++ [')']] =
      name ++ ' ' :: ("(= ".toList ++ version ++ [')']) := by
    simp [unlines, List.intercalate_cons_cons]
  have hbar : '|' ∉ name ++ ' ' :: ("(= ".toList ++ version ++ [')']) := by
    have hname' : '|' ∉ name := fun hc => absurd (hname _ hc) (by decide)
    have hversion : '|' ∉ version := fun hc => absurd (h _ hc) (by decide)
    simp [hname', hversion]
  -- The text is one alternative, and begins with the name.
  obtain ⟨c, cs, rfl⟩ : ∃ c cs, name = c :: cs := by
    cases name with
    | nil => exact absurd hhead (by decide)
    | cons c cs => exact ⟨c, cs, rfl⟩
  have hc : ¬isWhite c := by
    have hchar := hname c List.mem_cons_self
    rw [isWhite, isBlank]
    simp only [decide_eq_true_eq]
    rintro ((rfl | rfl) | rfl) <;> exact absurd hchar (by decide)
  have halternative : isAlternative (c :: cs ++ ' ' :: ("(= ".toList ++ version ++ [')'])) := by
    have hspace : ¬isNameChar ' ' := by decide
    have hwhite : ∀ d ∈ ("(= ".toList ++ version ++ [')']).getLast?, ¬isWhite d := by
      rw [List.getLast?_concat]
      rintro d ⟨⟩
      decide
    have htrim : trim (' ' :: ("(= ".toList ++ version ++ [')'])) =
        "(= ".toList ++ version ++ [')'] := by
      rw [trim_cons_white (by decide), trim_eq_self (by simp [isWhite, isBlank]) hwhite]
    rw [isAlternative, List.cons_append, List.dropWhile_cons_of_neg hc, ← List.cons_append,
      List.takeWhile_append_of_pos hname, List.dropWhile_append_of_pos hname,
      List.takeWhile_cons_of_neg hspace, List.dropWhile_cons_of_neg hspace, List.append_nil, htrim]
    exact decide_eq_true ⟨hhead, isRestriction_version hne h⟩
  rw [isRelation, htext, List.splitOn_eq_singleton hbar]
  -- Its words are printable.
  have hascii : ∀ w ∈ [c :: cs, "(=".toList, version ++ [')']], ∀ d ∈ w,
      33 ≤ d.toNat ∧ d.toNat ≤ 126 := by
    intro w hw d hd
    simp only [List.mem_cons, List.not_mem_nil, or_false] at hw
    rcases hw with rfl | rfl | rfl
    · exact isNameChar_ascii (hname d hd)
    · revert d
      decide
    · rcases List.mem_append.1 hd with hd | hd
      · exact isVersionChar_ascii (h d hd)
      · rw [List.mem_singleton.1 hd]
        decide
  refine decide_eq_true ⟨?_, ?_⟩
  · simp only [List.all_eq_true, decide_eq_true_eq]
    exact hascii
  · rw [List.all_cons, halternative, List.all_nil, Bool.and_true]

/-- A relation has a name at least. -/
theorem isRelation_nil : isRelation [] = false := by
  decide

/-- All of a relation is printable. -/
theorem ascii_of_isRelation {ws : List (List Char)} (h : isRelation ws) {w : List Char}
    (hw : w ∈ ws) (hc : c ∈ w) : 33 ≤ c.toNat ∧ c.toNat ≤ 126 := by
  simp only [isRelation, decide_eq_true_eq, List.all_eq_true] at h
  exact h.1 w hw c hc

end W132d.Deb822
