import W132d.Release.Metadata

/-!
# Dependencies of packages

Before a package is published, the relations that it needs are added to its field `Depends`
(`finalize` in `packages.py`): the kernel image needs the device trees of its version, and the
board support package the programs that it runs.

* `metadata`, `finalize`: the functions. The control file is edited as a text, by its lines;
* `finalized_iff`: when the edit does what it is for, for all paragraphs whose fields `metadata`
  reads as they are.

The edit appends to the first line of the field, which is only right if a relation ends there. It
takes each `Depends:` in the text for the field, and what the first line lists for all the
relations that are there.

A control file is read twice, by two programs that do not agree on what a line is. `dpkg` reads the
paragraph (`W132d.Deb822`): its lines end at newlines, and a line that begins with a blank goes on
with the field before. The script reads the text with `str.splitlines`, which also ends a line at a
form feed, at a line separator and at some more characters, and it takes every part with a colon for
a field, wherever in the text it is. `Legible` says that the two agree on the three fields that the
script asks for; it says nothing of the others.

How the theorem is proved:

* under `Legible`, the script reads the name and the version of the paragraph (`getItem_package`,
  `getItem_version`), so that it adds what is required;
* what the edit of the text does is what an edit of the fields does (`edit_text`): it extends the
  first line of each field that matches, or appends a field if the word `Depends:` occurs nowhere;
* the relations before and after are compared (`relations_extend`). A relation may go on from the
  first line of the field to the next one, and then what is appended to the first line runs into it.
  What is required is lost there, or else what was there is (`of_subperm_extend`);
* the edited file is again a paragraph that is legible, with its relations listed, so that
  finalizing it once more leaves it as it is (`finalize_again`).

`dpkg-deb`, which packs the package, is a parameter. All that is said about it is that it accepts
the edited paragraphs as well (`Builds`); what it writes is not looked at.
-/

namespace W132d.Release.Finalize

open Deb822 Literal Substitute TextFile Metadata

/-! ## The edit -/

/-- The packages that are finalized. -/
inductive Kind
  | image
  | bsp
  deriving DecidableEq, Repr

def Kind.package : Kind → List Char
  | image => "linux-image-edge-rockchip64".toList
  | bsp => "armbian-bsp-cli-w132d-edge".toList

def dtbPackage : List Char := "linux-dtb-edge-rockchip64".toList

/-- The programs that the board support package runs, separated by `, `. -/
def runtimeDepends : List Char :=
  ", ".toList.intercalate
    (["bluez", "rfkill", "ir-keytable", "python3", "python3-dbus", "python3-gi", "alsa-utils",
      "util-linux", "kmod", "dbus", "init-system-helpers", "v4l-utils", "libdrm-tests",
      "wireless-regdb"].map String.toList)

/-- The relations that a package of some version needs. -/
def addition (k : Kind) (version : List Char) : List Char :=
  match k with
  | .image => dtbPackage ++ " (= ".toList ++ version ++ [')']
  | .bsp => runtimeDepends

/-- Each relation is listed. -/
def isListed (added depends : List Char) : Bool :=
  (splitComma added).all fun x => strip x ∈ splitComma depends

/-- The text with the relations in its field `Depends`. -/
def edit (added text : List Char) : List Char :=
  if "Depends:".toList <:+: text then
    (subnLines '\n' ("Depends: ".toList.isPrefixOf ·) (· ++ (", ".toList ++ added)) text).1
  else text ++ "Depends: ".toList ++ added ++ ['\n']

/-- Edit the control file, and build the package if `dpkg-deb` `builds` one with it. -/
def rebuild (builds : List UInt8 → Bool) (added : List Char) (control : List UInt8) :
    Except Error (List UInt8) :=
  match readText control with
  | none => .error .unicodeDecode
  | some t =>
    if builds (encode (edit added t)) then .ok (encode (edit added t)) else .error .calledProcess

/-- The package that is to be finalized. -/
def kindOf (package : List Char) : Option Kind :=
  if package = Kind.image.package then some .image
  else if package = Kind.bsp.package then some .bsp
  else none

/-- The control file of a package, once it is finalized. -/
def finalize (builds : List UInt8 → Bool) (control : List UInt8) : Except Error (List UInt8) := do
  let m ← metadata control
  let package ← getItem m "Package".toList
  match kindOf package with
  | none => return control
  | some k =>
    let version ← if k = .image then getItem m "Version".toList else pure []
    if isListed (addition k version) ((get m "Depends".toList).getD []) then return control
    rebuild builds (addition k version) control

/-! ## Paragraphs -/

/-- Field names are the same in both cases of letters. -/
def lower (name : List Char) : List Char := name.map Char.toLower

/-- The field is `Depends`, in any spelling. -/
def isDepends (f : Field) : Bool := lower f.name = "depends".toList

/-- The text is `w`, with blanks around it. -/
def Pads (w t : List Char) : Prop := ∃ u v, (∀ c ∈ u ++ v, isBlank c) ∧ t = u ++ w ++ v

/-- The control file of a package that is to be finalized: one paragraph, with `lead` empty lines
    before and `trail` behind it, which has the fields that it must have, each once, and whose
    `Depends` is a list of relations. -/
structure Paragraph where
  kind : Kind
  version : List Char
  lead : ℕ
  fields : List Field
  trail : ℕ
  valid : ∀ f ∈ fields, f.Valid
  nodup : (fields.map fun f => lower f.name).Nodup
  mandatory : ["package", "version", "architecture", "maintainer", "description"].map
    String.toList ⊆ fields.map fun f => lower f.name
  package : ∀ f ∈ fields, lower f.name = "package".toList →
    f.rest = [] ∧ Pads kind.package f.first
  version_ne : version ≠ []
  version_chars : ∀ c ∈ version, isVersionChar c
  version_field : ∀ f ∈ fields, lower f.name = "version".toList →
    f.rest = [] ∧ Pads version f.first
  relations : ∀ f ∈ fields, isDepends f →
    ∀ ws ∈ relations f.value, isRelation ws

namespace Paragraph

variable (q : Paragraph)

def text : List Char := Deb822.text q.lead q.fields q.trail

/-- What the package needs, as it is written. -/
def added : List Char := addition q.kind q.version

/-- What the package needs. -/
def required : List (List (List Char)) := Deb822.relations q.added

/-- The relations of `Depends`. -/
def depends : List (List (List Char)) :=
  ((q.fields.find? isDepends).map fun f => Deb822.relations f.value).getD []

/-- The other fields. -/
def others : List Field := q.fields.filter fun f => !isDepends f

/-- The package depends on all that it needs. -/
def Complete : Prop := q.required ⊆ q.depends

end Paragraph

/-- `dpkg-deb` builds the package, also with other relations in `Depends`. -/
def Builds (builds : List UInt8 → Bool) (q : Paragraph) : Prop :=
  ∀ q' : Paragraph, q'.others = q.others → q'.lead = q.lead → q'.trail = q.trail →
    builds (encode q'.text)

/-- The package is finalized, and finalized again without a change: `Depends` has all that it had
    and what the package needs, and the other fields are as they were. -/
def Finalized (builds : List UInt8 → Bool) (q : Paragraph) : Prop :=
  ∃ q' : Paragraph, finalize builds (encode q.text) = .ok (encode q'.text) ∧
    q.required ⊆ q'.depends ∧ q.depends.Subperm q'.depends ∧ q'.others = q.others ∧
    finalize builds (encode q'.text) = .ok (encode q'.text)

/-! ## When the edit is right -/

/-- The keys that `finalize` asks for. -/
def keys : List (List Char) := ["Package", "Version", "Depends"].map String.toList

/-- No part of a line after its begin, as `str.splitlines` cuts it, looks like one of these
    fields. -/
def Legible (q : Paragraph) : Prop :=
  ∀ l ∈ lines q.fields, ∀ part ∈ (splitlines l).tail, ∀ e ∈ entry part, e.1 ∉ keys

namespace Paragraph

variable (q : Paragraph)

/-- The first line of `Depends` lists what the package needs, and is found as such. -/
def Listed : Prop :=
  isListed q.added (((q.fields.find? fun f => f.name = "Depends".toList).map fun f =>
    strip f.first).getD [])

instance : Decidable q.Listed := inferInstanceAs (Decidable (_ = true))

end Paragraph

/-- The conditions of the edit. `listed` is about the paragraphs that are left alone: what is listed
    is there, so that the last relation of the line does not go on in the next one. The others are
    about those that are edited. -/
structure Finalizable (q : Paragraph) : Prop where
  package : ∃ f ∈ q.fields, f.name = "Package".toList
  version : q.kind = .image → ∃ f ∈ q.fields, f.name = "Version".toList
  listed : q.Listed → q.Complete
  no_cr : ¬q.Listed → '\r' ∉ q.text
  /-- A line `Depends: ` is appended to: the next one begins with a comma, or the last relation is
      the last one that is added. -/
  folded : ¬q.Listed → ∀ f ∈ q.fields, f.name = "Depends".toList → f.first.head? = some ' ' →
    head f.folded = [] ∨ last f.first = last q.added
  /-- A text `Depends:` that is not at such a line, so that nothing is added. -/
  unmatched : ¬q.Listed → "Depends:".toList <:+: q.text →
    (∀ f ∈ q.fields, f.name = "Depends".toList → f.first.head? ≠ some ' ') → q.Complete
  /-- A field is added at the end of the text, if there is none in another spelling. An empty line
      before it would make it another paragraph. -/
  absent : ¬q.Listed → ¬"Depends:".toList <:+: q.text →
    q.trail = 0 ∧ ∀ f ∈ q.fields, ¬isDepends f

/-! ## What is read -/

section Reading

variable {q : Paragraph} {f : Field} {fs : List Field} {key : List Char} {l : List Char}

/-- A printable character does not end a line. -/
theorem not_isBoundary_of_ascii {c : Char} (h : 32 ≤ c.toNat ∧ c.toNat ≤ 126) :
    ¬isBoundary c := by
  simp only [isBoundary, decide_eq_true_eq, List.mem_cons, List.not_mem_nil, or_false]
  omega

/-- A printable character but the blank is not stripped. -/
theorem not_isSpace_of_ascii {c : Char} (h : 33 ≤ c.toNat ∧ c.toNat ≤ 126) : ¬isSpace c := by
  simp only [isSpace, decide_eq_true_eq, List.mem_cons, List.not_mem_nil, or_false]
  omega

/-- The entries of a line that begins a field: its own, and those of parts of it. -/
theorem entries_header (hf : f.Valid) : ∃ v, entries f.header =
    (f.name, v) :: (splitlines f.header).tail.filterMap entry ∧
      ((∀ c ∈ f.first, ¬isBoundary c) → v = strip f.first) := by
  have hname : ∀ c ∈ f.name ++ [':'], ¬isBoundary c := by
    intro c hc
    rcases List.mem_append.1 hc with hc | hc
    · have := hf.name c hc
      exact not_isBoundary_of_ascii (by omega)
    · rw [List.mem_singleton.1 hc]
      decide
  -- The name and the colon have no boundary, so the first part begins with them.
  have hsplit := splitlines_append (v := f.first) (by simp) hname
  have hheader : f.header = f.name ++ [':'] ++ f.first := by simp [Field.header]
  rw [← hheader] at hsplit
  refine ⟨strip ((splitlines f.first).headD []), ?_, ?_⟩
  · have hhead : ∀ c ∈ (f.name ++ ':' :: (splitlines f.first).headD []).head?, ¬isSpace c := by
      obtain ⟨c, cs, hcons⟩ := List.exists_cons_of_ne_nil hf.name_ne
      have hc := hf.name c (hcons ▸ List.mem_cons_self)
      rw [hcons]
      intro d hd
      obtain rfl : c = d := by simpa using hd
      exact not_isSpace_of_ascii ⟨hc.1, hc.2.1⟩
    rw [entries, hsplit, List.filterMap_cons, List.append_assoc, List.singleton_append,
      entry_append_colon hf.colon_name hhead, List.tail_cons]
  · intro hfirst
    cases hcons : f.first with
    | nil => simp [splitlines]
    | cons c cs =>
      rw [← hcons, splitlines_of_not (by simp [hcons]) hfirst, List.headD_cons]

/-- A line that goes on with a field has the entries of parts of it only. -/
theorem entries_continuation (h : isContinuation l) :
    entries l = (splitlines l).tail.filterMap entry := by
  cases l with
  | nil => rfl
  | cons c l =>
    have hblank : c = ' ' ∨ c = '\t' := by simpa [isContinuation, isBlank] using h
    have hc : ¬isBoundary c ∧ isSpace c := by
      rcases hblank with rfl | rfl <;> decide
    have hsplit := splitlines_append (u := [c]) (v := l) (by simp) (by simpa using hc.1)
    rw [List.singleton_append] at hsplit
    rw [entries, hsplit, List.filterMap_cons, List.singleton_append, entry_of_space hc.2,
      List.tail_cons]

/-- Of a paragraph, the lines with a key are those of the fields of this name. -/
theorem filter_entries (hkey : key ∈ keys) (hvalid : ∀ f ∈ fs, f.Valid)
    (hlegible : ∀ l ∈ lines fs, ∀ part ∈ (splitlines l).tail, ∀ e ∈ entry part, e.1 ∉ keys)
    (hfirst : ∀ f ∈ fs, f.name = key → ∀ c ∈ f.first, ¬isBoundary c) :
    ((lines fs).flatMap entries).filter (·.1 = key) =
      (fs.filter (·.name = key)).map fun f => (key, strip f.first) := by
  -- The parts behind the first one have none of the keys.
  have hparts : ∀ l ∈ lines fs,
      ((splitlines l).tail.filterMap entry).filter (·.1 = key) = [] := by
    intro l hl
    rw [List.filter_eq_nil_iff]
    intro e he
    obtain ⟨part, hpart, hentry⟩ := List.mem_filterMap.1 he
    rw [decide_eq_true_eq]
    rintro rfl
    exact hlegible l hl part hpart e hentry hkey
  induction fs with
  | nil => rfl
  | cons f fs ih =>
    rw [List.forall_mem_cons] at hvalid hfirst
    -- A line that goes on has only these parts.
    have hrest : (f.rest.flatMap entries).filter (·.1 = key) = [] := by
      rw [List.filter_eq_nil_iff]
      intro e he
      obtain ⟨l, hl, he⟩ := List.mem_flatMap.1 he
      rw [entries_continuation (hvalid.1.isContinuation_rest hl)] at he
      exact List.filter_eq_nil_iff.1 (hparts l (by simp [hl])) e he
    obtain ⟨v, hheader, hv⟩ := entries_header hvalid.1
    rw [lines_cons, List.flatMap_cons, List.flatMap_append, List.filter_append,
      List.filter_append, hrest, List.nil_append, hheader, List.filter_cons,
      hparts f.header (by simp),
      ih hvalid.2 (fun l hl => hlegible l (by simp [hl])) hfirst.2
        (fun l hl => hparts l (by simp [hl]))]
    by_cases hname : f.name = key
    · simp [hname, hv (hfirst.1 hname)]
    · simp [hname]

/-- Fields with one name are alike in lower case. -/
theorem lower_of_name {name : List Char} (h : f.name = name) : lower f.name = lower name :=
  congrArg lower h

/-- The names of the packages are printable, without blanks. -/
theorem package_ascii (k : Kind) : ∀ c ∈ k.package, 33 ≤ c.toNat ∧ c.toNat ≤ 126 := by
  cases k <;> decide

/-- A blank does not end a line. -/
theorem not_isBoundary_of_blank {c : Char} (h : isBlank c) : ¬isBoundary c := by
  have hblank : c = ' ' ∨ c = '\t' := by simpa [isBlank] using h
  rcases hblank with rfl | rfl <;> decide

/-- What stands between blanks ends no line. -/
theorem not_isBoundary_of_pads {w t : List Char} (h : Pads w t)
    (hw : ∀ c ∈ w, 33 ≤ c.toNat ∧ c.toNat ≤ 126) : ∀ c ∈ t, ¬isBoundary c := by
  obtain ⟨u, v, huv, rfl⟩ := h
  intro c hc
  rw [List.mem_append, List.mem_append] at hc
  rcases hc with (hc | hc) | hc
  · exact not_isBoundary_of_blank (huv c (List.mem_append_left v hc))
  · have := hw c hc
    exact not_isBoundary_of_ascii (by omega)
  · exact not_isBoundary_of_blank (huv c (List.mem_append_right u hc))

/-- A field with the name `Depends` is the one that `dpkg` reads. -/
theorem isDepends_of_name (h : f.name = "Depends".toList) : isDepends f := by
  rw [isDepends, h]
  decide

/-- The first lines that are read are not cut. -/
theorem not_isBoundary_first (q : Paragraph) (hkey : key ∈ keys) (hf : f ∈ q.fields)
    (hname : f.name = key) : ∀ c ∈ f.first, ¬isBoundary c := by
  simp only [keys, List.map_cons, List.map_nil, List.mem_cons, List.not_mem_nil, or_false] at hkey
  -- The first two keys have one word between blanks, and `Depends` has relations.
  rcases hkey with rfl | rfl | rfl
  · exact not_isBoundary_of_pads (q.package f hf (lower_of_name hname)).2 (package_ascii q.kind)
  · exact not_isBoundary_of_pads (q.version_field f hf (lower_of_name hname)).2
      fun c hc => isVersionChar_ascii (q.version_chars c hc)
  · intro c hc
    have hvalue : c ∈ f.value := by
      rw [f.value_eq]
      exact List.mem_append_left _ hc
    rcases mem_relations hvalue with rfl | hwhite | ⟨ws, hws, w, hw, hcw⟩
    · decide
    · simp only [isWhite, decide_eq_true_eq] at hwhite
      rcases hwhite with hblank | rfl
      · exact not_isBoundary_of_blank hblank
      · exact absurd hc (q.valid f hf).first
    · have := ascii_of_isRelation (q.relations f hf (isDepends_of_name hname) ws hws) hw hcw
      exact not_isBoundary_of_ascii (by omega)

/-- The fields have different names. -/
theorem filter_name (q : Paragraph) (key : List Char) :
    q.fields.filter (·.name = key) = (q.fields.find? (·.name = key)).toList := by
  have hnodup : ((q.fields.filter (·.name = key)).map fun f => lower f.name).Nodup :=
    q.nodup.sublist ((List.filter_sublist).map _)
  have hmem : ∀ f ∈ q.fields.filter (·.name = key), f.name = key := by
    intro f hf
    simpa using (List.mem_filter.1 hf).2
  rw [← List.head?_filter]
  -- Two fields of one name cannot be.
  cases hfilter : q.fields.filter (·.name = key) with
  | nil => rfl
  | cons f fs =>
    cases fs with
    | nil => rfl
    | cons g gs =>
      rw [hfilter] at hnodup hmem
      have heq : f.name = g.name := (hmem f (by simp)).trans (hmem g (by simp)).symm
      exact absurd (List.mem_map.2 ⟨g, List.mem_cons_self, (lower_of_name heq).symm⟩)
        (List.nodup_cons.1 hnodup).1

/-- A paragraph has the field `Package`, at least. -/
theorem fields_ne_nil (q : Paragraph) : q.fields ≠ [] := by
  intro hnil
  have hmem := q.mandatory (List.mem_map.2 ⟨"package", by simp, rfl⟩)
  rw [hnil] at hmem
  exact List.not_mem_nil hmem

/-- A paragraph begins with the name of a field. -/
theorem text_eq_cons (q : Paragraph) :
    ∃ c cs, Deb822.text 0 q.fields q.trail = c :: cs ∧ 33 ≤ c.toNat ∧ c.toNat ≤ 126 := by
  obtain ⟨f, fs, hfs⟩ := List.exists_cons_of_ne_nil (fields_ne_nil q)
  have hf := q.valid f (hfs ▸ List.mem_cons_self)
  obtain ⟨c, cs, hname⟩ := List.exists_cons_of_ne_nil hf.name_ne
  have hc := hf.name c (hname ▸ List.mem_cons_self)
  have hhead : (Deb822.text 0 q.fields q.trail).head? = some c := by
    rw [Deb822.text, framed, hfs, lines_cons, Field.header, hname]
    rfl
  obtain ⟨cs', htext⟩ := List.head?_eq_some_iff.1 hhead
  exact ⟨c, cs', htext, hc.1, hc.2.1⟩

/-- What `metadata` takes off the ends of a paragraph has no entries. -/
theorem entries_read (q : Paragraph) (m : ℕ) :
    entries (strip (universalNewlines (Deb822.text m q.fields q.trail))) =
      entries (Deb822.text m q.fields q.trail) := by
  induction m with
  | zero =>
    obtain ⟨c, cs, htext, hc⟩ := text_eq_cons q
    have hcr : c ≠ '\r' := by
      rintro rfl
      exact absurd hc.1 (by decide)
    have hhead : ∀ d ∈ (universalNewlines (Deb822.text 0 q.fields q.trail)).head?,
        ¬isSpace d := by
      rw [htext, universalNewlines_cons hcr]
      intro d hd
      obtain rfl : c = d := by simpa using hd
      exact not_isSpace_of_ascii hc
    exact (entries_strip hhead).trans (entries_universalNewlines _)
  | succ m ih =>
    -- An empty line before it is white space.
    have htext : Deb822.text (m + 1) q.fields q.trail =
        '\n' :: Deb822.text m q.fields q.trail := by
      simp [Deb822.text, framed, List.replicate_succ]
    have hentries : ∀ t, entries ('\n' :: t) = entries t := fun t =>
      entries_append_newline [] t
    rw [htext, universalNewlines_cons (by decide), hentries, ← List.singleton_append,
      strip_spaces_append (by decide), ih]

/-- The script reads the entries of the lines of the file. -/
theorem metadata_text (q : Paragraph) : metadata (encode q.text) = .ok (entries q.text) := by
  rw [metadata, readText_encode]
  exact congrArg Except.ok (entries_read q q.lead)

/-- The first lines of the fields are what is read of them. -/
theorem get_text (hlegible : Legible q) (hkey : key ∈ keys) : get (entries q.text) key =
    (q.fields.find? (·.name = key)).map fun f => strip f.first := by
  rw [Metadata.get, Paragraph.text, entries_text, filter_entries hkey q.valid hlegible
    (fun f hf => not_isBoundary_first q hkey hf), filter_name]
  cases q.fields.find? (·.name = key) <;> rfl

/-- A value between blanks is what is left of it once it is stripped. -/
theorem strip_of_pads {w t : List Char} (h : Pads w t)
    (hw : ∀ c ∈ w, 33 ≤ c.toNat ∧ c.toNat ≤ 126) : strip t = w := by
  obtain ⟨u, v, huv, rfl⟩ := h
  have hspace : ∀ c ∈ u ++ v, isSpace c := by
    intro c hc
    have hblank : c = ' ' ∨ c = '\t' := by simpa [isBlank] using huv c hc
    rcases hblank with rfl | rfl <;> decide
  rw [strip_append_spaces fun c hc => hspace c (List.mem_append_right u hc),
    strip_spaces_append fun c hc => hspace c (List.mem_append_left v hc)]
  exact strip_eq_self (fun c hc => not_isSpace_of_ascii (hw c (List.mem_of_mem_head? hc)))
    fun c hc => not_isSpace_of_ascii (hw c (List.mem_of_mem_getLast? hc))

/-- A key that no field has, and one whose field has a value with blanks around it. -/
theorem getItem_of_not (hlegible : Legible q) (hkey : key ∈ keys)
    (h : ∀ f ∈ q.fields, f.name ≠ key) :
    getItem (entries q.text) key = .error (.key key) := by
  have hfind : (q.fields.find? fun f => decide (f.name = key)) = none := by simpa using h
  rw [getItem, get_text hlegible hkey, hfind, Option.map_none]

/-- A field that the file spells as a key has its value there. -/
theorem getItem_of_pads (hlegible : Legible q) (hkey : key ∈ keys) {w : List Char}
    (hw : ∀ c ∈ w, 33 ≤ c.toNat ∧ c.toNat ≤ 126)
    (hpads : ∀ f ∈ q.fields, f.name = key → Pads w f.first) (h : ∃ f ∈ q.fields, f.name = key) :
    getItem (entries q.text) key = .ok w := by
  cases hfind : q.fields.find? fun f => decide (f.name = key) with
  | none =>
    obtain ⟨f, hf, hname⟩ := h
    exact absurd hname (by simpa using List.find?_eq_none.1 hfind f hf)
  | some f =>
    have hname : f.name = key := by simpa using List.find?_some hfind
    rw [getItem, get_text hlegible hkey, hfind, Option.map_some,
      strip_of_pads (hpads f (List.mem_of_find?_eq_some hfind) hname) hw]

/-- The package has its name, and its version if that is asked for, in the usual spelling. -/
def Spelled (q : Paragraph) : Prop :=
  (∃ f ∈ q.fields, f.name = "Package".toList) ∧
    (q.kind = .image → ∃ f ∈ q.fields, f.name = "Version".toList)

/-- The name of a package tells its kind. -/
theorem kindOf_package (k : Kind) : kindOf k.package = some k := by
  cases k <;> decide

variable {builds : List UInt8 → Bool}

/-- The script reads the name of the package. -/
theorem getItem_package (hlegible : Legible q) (h : ∃ f ∈ q.fields, f.name = "Package".toList) :
    getItem (entries q.text) "Package".toList = .ok q.kind.package :=
  getItem_of_pads hlegible (by simp [keys]) (package_ascii q.kind)
    (fun f hf hname => (q.package f hf (lower_of_name hname)).2) h

/-- The script reads the version of the package. -/
theorem getItem_version (hlegible : Legible q) (h : ∃ f ∈ q.fields, f.name = "Version".toList) :
    getItem (entries q.text) "Version".toList = .ok q.version :=
  getItem_of_pads hlegible (by simp [keys])
    (fun c hc => isVersionChar_ascii (q.version_chars c hc))
    (fun f hf hname => (q.version_field f hf (lower_of_name hname)).2) h

/-- Only what is added for the image depends on the version. -/
theorem addition_of_ne {k : Kind} (h : k ≠ .image) (v v' : List Char) :
    addition k v = addition k v' := by
  cases k with
  | image => exact absurd rfl h
  | bsp => rfl

/-- Without one of the keys, the script fails. -/
theorem finalize_of_not_spelled (builds : List UInt8 → Bool) (hlegible : Legible q)
    (h : ¬Spelled q) :
    ∃ e, finalize builds (encode q.text) = .error e := by
  rw [finalize, metadata_text]
  by_cases hpackage : ∃ f ∈ q.fields, f.name = "Package".toList
  · rw [Spelled, not_and, Classical.not_imp] at h
    obtain ⟨himage, hversion⟩ := h hpackage
    refine ⟨.key "Version".toList, ?_⟩
    have hkey : "Version".toList ∈ keys := by simp [keys]
    have hnot := getItem_of_not hlegible hkey fun f hf hname => hversion ⟨f, hf, hname⟩
    simp only [bind, Except.bind, getItem_package hlegible hpackage, kindOf_package, himage, hnot,
      if_true]
  · refine ⟨.key "Package".toList, ?_⟩
    have hkey : "Package".toList ∈ keys := by simp [keys]
    have hnot := getItem_of_not hlegible hkey fun f hf hname => hpackage ⟨f, hf, hname⟩
    simp only [bind, Except.bind, hnot]

/-- What is done with a package whose fields are read. -/
theorem finalize_of_spelled (builds : List UInt8 → Bool) (hlegible : Legible q) (h : Spelled q) :
    finalize builds (encode q.text) =
      if q.Listed then .ok (encode q.text) else rebuild builds q.added (encode q.text) := by
  have hkey : "Depends".toList ∈ keys := by simp [keys]
  rw [finalize, metadata_text]
  simp only [bind, Except.bind, getItem_package hlegible h.1, kindOf_package,
    get_text hlegible hkey]
  by_cases himage : q.kind = .image
  · rw [if_pos himage, getItem_version hlegible (h.2 himage)]
    rfl
  · rw [if_neg himage]
    have hadded : addition q.kind [] = q.added := addition_of_ne himage [] q.version
    simp only [pure, Except.pure, hadded]
    rfl

end Reading

/-! ## What is added -/

section Added

variable {q : Paragraph} {t u w : List Char}

/-- There is a part at least. -/
theorem splitComma_ne_nil (t : List Char) : splitComma t ≠ [] := by
  fun_induction splitComma t with
  | case1 => simp
  | case2 cs ih => simp
  | case3 c cs hne ih => cases hsplit : splitComma cs <;> simp_all

/-- A list that is joined to another by a comma has the parts of both. -/
theorem splitComma_append (u w : List Char) :
    splitComma (u ++ ',' :: ' ' :: w) = splitComma u ++ splitComma w := by
  fun_induction splitComma u with
  | case1 => rfl
  | case2 cs ih => rw [List.cons_append, List.cons_append, splitComma, ih, List.cons_append]
  | case3 c cs hne ih =>
    -- The first part of the rest is that of the whole.
    obtain ⟨x, xs, hx⟩ := List.exists_cons_of_ne_nil (splitComma_ne_nil cs)
    rw [List.cons_append, splitComma, ih, hx]
    · rfl
    · intro cs' hc hcs
      cases cs with
      | nil => exact absurd hcs (by simp)
      | cons d cs => exact hne cs hc (by rw [(List.cons.inj hcs).1])

/-- A list without commas has one part, itself. -/
theorem splitComma_of_not_comma (h : ',' ∉ t) : splitComma t = [t] := by
  fun_induction splitComma t with
  | case1 => rfl
  | case2 cs ih => simp at h
  | case3 c cs hne ih =>
    rw [ih fun hc => h (List.mem_cons_of_mem c hc), List.modifyHead_cons]

/-- The relation that an image needs. -/
theorem added_image (hkind : q.kind = .image) : ',' ∉ q.added ∧
    words q.added = [dtbPackage, "(=".toList, q.version ++ [')']] := by
  have hversion : ∀ c ∈ q.version ++ [')'], c ≠ ',' ∧ isWhite c = false := by
    intro c hc
    rcases List.mem_append.1 hc with hc | hc
    · have hc := q.version_chars c hc
      refine ⟨?_, Bool.eq_false_iff.2 (not_isWhite_of_isVersionChar hc)⟩
      rintro rfl
      exact absurd hc (by decide)
    · rw [List.mem_singleton.1 hc]
      decide
  -- The addition is one relation in three words.
  have hadded : q.added = dtbPackage ++ ' ' :: ("(=".toList ++ ' ' :: (q.version ++ [')'])) := by
    simp [Paragraph.added, hkind, addition]
  have hdtb : ',' ∉ dtbPackage := by decide
  refine ⟨?_, ?_⟩
  · rw [hadded]
    simp only [List.mem_append, List.mem_cons, not_or]
    exact ⟨hdtb, by decide, by decide, by decide, fun hc => (hversion ',' (by simp [hc])).1 rfl,
      by decide⟩
  · rw [hadded, words_append_white (by decide), words_append_white (by decide),
      words_of_not_white (by decide) (by decide), words_of_not_white (by decide) (by decide),
      words_of_not_white (by simp) fun c hc => (hversion c hc).2]
    rfl

/-- What is added for the board support package. -/
theorem added_bsp (hkind : q.kind = .bsp) : q.added = runtimeDepends := by
  rw [Paragraph.added, hkind, addition]

/-- What is added for the board support package is printable. -/
theorem added_ascii (q : Paragraph) : ∀ c ∈ q.added, 32 ≤ c.toNat ∧ c.toNat ≤ 126 := by
  cases hkind : q.kind with
  | image =>
    intro c hc
    rw [Paragraph.added, hkind, addition, List.mem_append, List.mem_append, List.mem_append] at hc
    rcases hc with ((hc | hc) | hc) | hc
    · revert c
      decide
    · revert c
      decide
    · have := isVersionChar_ascii (q.version_chars c hc)
      omega
    · rw [List.mem_singleton.1 hc]
      decide
  | bsp =>
    rw [added_bsp hkind]
    decide +kernel

/-- No white space is around what is added. -/
theorem added_ends (q : Paragraph) :
    (∀ c ∈ q.added.head?, ¬isSpace c) ∧ ∃ t c, q.added = t ++ [c] ∧ ¬isSpace c := by
  cases hkind : q.kind with
  | image =>
    have hadded : q.added = dtbPackage ++ " (= ".toList ++ q.version ++ [')'] := by
      rw [Paragraph.added, hkind, addition]
    refine ⟨?_, _, ')', hadded, by decide⟩
    rw [hadded, List.append_assoc, List.append_assoc]
    rintro c ⟨⟩
    decide
  | bsp =>
    rw [added_bsp hkind]
    exact ⟨by decide +kernel, runtimeDepends.dropLast, 'b', by decide +kernel, by decide⟩

/-- For the image, the package of the device tree in its own version is required. -/
theorem required_image (hkind : q.kind = .image) :
    q.required = [[dtbPackage, "(=".toList, q.version ++ [')']]] := by
  obtain ⟨hcomma, hwords⟩ := added_image hkind
  rw [Paragraph.required, relations, List.splitOn_eq_singleton hcomma, List.map_singleton, hwords]

/-- What is required are relations of one package each. -/
theorem isRelation_required (q : Paragraph) : ∀ ws ∈ q.required, isRelation ws := by
  cases hkind : q.kind with
  | image =>
    rw [required_image hkind]
    intro ws hws
    rw [List.mem_singleton.1 hws]
    exact isRelation_version (by decide) (by decide) q.version_ne q.version_chars
  | bsp =>
    rw [Paragraph.required, added_bsp hkind]
    decide +kernel

/-- Each relation that is added but the last is one word. -/
theorem length_before_added (q : Paragraph) : ∀ ws ∈ before q.added, ws.length = 1 := by
  cases hkind : q.kind with
  | image =>
    rw [before, List.splitOn_eq_singleton (added_image hkind).1]
    simp
  | bsp =>
    rw [added_bsp hkind]
    decide +kernel

/-- The relations are looked for as they are written. -/
theorem strip_splitComma_added (q : Paragraph) : ∀ x ∈ splitComma q.added, strip x = x := by
  cases hkind : q.kind with
  | image =>
    obtain ⟨hhead, t, c, hlast, hc⟩ := added_ends q
    rw [splitComma_of_not_comma (added_image hkind).1]
    intro x hx
    rw [List.mem_singleton.1 hx]
    refine strip_eq_self hhead ?_
    rw [hlast, List.getLast?_concat]
    rintro d ⟨⟩
    exact hc
  | bsp =>
    rw [added_bsp hkind]
    decide +kernel

/-- White space goes from both ends of a text, up to what is added. -/
theorem strip_append_added (q : Paragraph) (u : List Char) {c : Char} (hc : ¬isSpace c)
    (w : List Char) : ∃ u', strip (u ++ c :: w ++ q.added) = u' ++ c :: w ++ q.added := by
  obtain ⟨_, t, d, hlast, hd⟩ := added_ends q
  have hdrop : ∃ u', (u ++ c :: w ++ q.added).dropWhile isSpace = u' ++ c :: w ++ q.added := by
    induction u with
    | nil => exact ⟨[], List.dropWhile_cons_of_neg hc⟩
    | cons b u ih =>
      by_cases hb : isSpace b
      · obtain ⟨u', hu'⟩ := ih
        refine ⟨u', ?_⟩
        rwa [List.cons_append, List.cons_append, List.dropWhile_cons_of_pos hb]
      · exact ⟨b :: u, List.dropWhile_cons_of_neg hb⟩
  obtain ⟨u', hu'⟩ := hdrop
  refine ⟨u', ?_⟩
  rw [strip, hu', hlast, ← List.append_assoc, List.rdropWhile_concat_neg _ _ _ hd]

/-- A relation is listed if all its parts are parts of the field. -/
theorem isListed_of_splitComma {depends : List Char} (h : splitComma q.added ⊆ splitComma depends) :
    isListed q.added depends := by
  rw [isListed, List.all_eq_true]
  intro x hx
  rw [strip_splitComma_added q x hx]
  exact decide_eq_true (h hx)

/-- What is added at the end of a first line is listed. -/
theorem isListed_append (q : Paragraph) (u : List Char) :
    isListed q.added (strip (u ++ ", ".toList ++ q.added)) := by
  obtain ⟨u', hu'⟩ := strip_append_added q u (c := ',') (by decide) [' ']
  refine isListed_of_splitComma ?_
  change strip (u ++ ", ".toList ++ q.added) = _ at hu'
  rw [hu', List.append_assoc]
  exact (splitComma_append u' q.added) ▸ List.subset_append_right _ _

/-- What was added is found by the script when it reads the package again. -/
theorem isListed_added (q : Paragraph) : isListed q.added (strip (' ' :: q.added)) := by
  obtain ⟨hhead, t, c, hlast, hc⟩ := added_ends q
  refine isListed_of_splitComma ?_
  have hstrip : strip (' ' :: q.added) = q.added := by
    rw [← List.singleton_append, strip_spaces_append (by decide)]
    refine strip_eq_self hhead ?_
    rw [hlast, List.getLast?_concat]
    rintro d ⟨⟩
    exact hc
  rw [hstrip]
  exact List.Subset.refl _

end Added

/-! ## The edit of a paragraph -/

section Edit

variable {q : Paragraph} {f : Field} {fs : List Field} {added : List Char} {m n : ℕ}

/-- The field whose first line is appended to. -/
def Matches (f : Field) : Prop := f.name = "Depends".toList ∧ f.first.head? = some ' '

instance (f : Field) : Decidable (Matches f) := inferInstanceAs (Decidable (_ ∧ _))

def extend (added : List Char) (f : Field) : Field :=
  if Matches f then { f with first := f.first ++ (", ".toList ++ added) } else f

/-- The field that is added. -/
def newField (added : List Char) : Field := ⟨"Depends".toList, ' ' :: added, []⟩

/-- The fields of a paragraph with `m` empty lines before and `n` behind it, once it is edited. -/
def editFields (added : List Char) (m : ℕ) (fs : List Field) (n : ℕ) : List Field :=
  if "Depends:".toList <:+: Deb822.text m fs n then fs.map (extend added)
  else fs ++ [newField added]

/-- The line that is appended to begins the field. -/
theorem isPrefixOf_header (hf : f.Valid) :
    "Depends: ".toList.isPrefixOf f.header ↔ Matches f := by
  rw [List.isPrefixOf_iff_prefix]
  constructor
  · rintro ⟨r, hr⟩
    have hcolon : ':' ∉ "Depends".toList := by decide
    have hname := takeWhile_colon (b := f.first) hf.colon_name
    have hdepends := takeWhile_colon (b := ' ' :: r) hcolon
    have hheader : "Depends".toList ++ ':' :: ' ' :: r = f.name ++ ':' :: f.first := hr
    rw [hheader] at hdepends
    have hfirst : ' ' :: r = f.first := (List.cons.inj (hdepends.2.symm.trans hname.2)).2
    exact ⟨hname.1.symm.trans hdepends.1, by rw [← hfirst, List.head?_cons]⟩
  · rintro ⟨hname, hfirst⟩
    obtain ⟨r, hr⟩ := List.head?_eq_some_iff.1 hfirst
    exact ⟨r, by rw [Field.header, hname, hr]; rfl⟩

/-- A line that continues a field is not the line of `Depends`. -/
theorem not_isPrefixOf_of_isContinuation {l : List Char} (h : isContinuation l) :
    ¬"Depends: ".toList.isPrefixOf l := by
  rw [List.isPrefixOf_iff_prefix]
  rintro ⟨r, rfl⟩
  exact absurd h (by simp [isContinuation, isBlank])

/-- The lines that are appended to are the first ones of these fields. -/
theorem map_lines (hvalid : ∀ f ∈ fs, f.Valid) :
    ((lines fs).map fun l =>
      if "Depends: ".toList.isPrefixOf l then l ++ (", ".toList ++ added) else l) =
      lines (fs.map (extend added)) := by
  -- By induction on the fields. Only a first line can be the line of `Depends`.
  induction fs with
  | nil => rfl
  | cons f fs ih =>
    rw [List.forall_mem_cons] at hvalid
    have hrest : ∀ l ∈ f.rest, ¬"Depends: ".toList.isPrefixOf l :=
      fun l hl => not_isPrefixOf_of_isContinuation (hvalid.1.isContinuation_rest hl)
    rw [lines_cons, List.map_cons, List.map_append, map_of_not hrest, ih hvalid.2, List.map_cons,
      lines_cons, extend]
    by_cases hmatches : Matches f
    · rw [if_pos ((isPrefixOf_header hvalid.1).2 hmatches), if_pos hmatches]
      simp [Field.header]
    · rw [if_neg (mt (isPrefixOf_header hvalid.1).1 hmatches), if_neg hmatches]

/-- The field that is appended, as it is written. -/
theorem text_newField (added : List Char) :
    Deb822.text 0 [newField added] 0 = "Depends: ".toList ++ (added ++ ['\n']) := by
  have hname : "Depends: ".toList = "Depends".toList ++ [':', ' '] := by decide
  unfold newField
  rw [Deb822.text, framed, lines_cons, lines_nil, Field.header, hname]
  simp only [List.replicate_zero, List.nil_append, List.flatMap_cons, List.flatMap_nil,
    List.append_nil, List.append_assoc, List.cons_append]

/-- Empty lines are not appended to. -/
theorem map_framed (hvalid : ∀ f ∈ fs, f.Valid) :
    ((framed m fs n).map fun l =>
      if "Depends: ".toList.isPrefixOf l then l ++ (", ".toList ++ added) else l) =
      framed m (fs.map (extend added)) n := by
  have hempty : ∀ k : ℕ, ∀ l ∈ List.replicate k [], ¬"Depends: ".toList.isPrefixOf l := by
    intro k l hl
    rw [List.eq_of_mem_replicate hl]
    decide
  rw [framed, List.map_append, List.map_append, map_of_not (hempty m), map_of_not (hempty n),
    map_lines hvalid, framed]

/-- The edit of the text is one of the fields, unless a field is added behind an empty line. -/
theorem edit_text (hvalid : ∀ f ∈ fs, f.Valid)
    (h : "Depends:".toList <:+: Deb822.text m fs n ∨ n = 0) :
    edit added (Deb822.text m fs n) = Deb822.text m (editFields added m fs n) n := by
  unfold edit editFields
  by_cases hoccurs : "Depends:".toList <:+: Deb822.text m fs n
  · rw [if_pos hoccurs, if_pos hoccurs, subnLines, splitOn_text hvalid, List.map_append,
      map_framed hvalid, Deb822.text, flatMap_lines]
    rfl
  · obtain rfl := h.resolve_left hoccurs
    rw [if_neg hoccurs, if_neg hoccurs, text_append, List.append_assoc, List.append_assoc,
      text_newField]

/-- Extending a field keeps its name. -/
theorem extend_name (added : List Char) (f : Field) : (extend added f).name = f.name := by
  rw [extend]
  split <;> rfl

/-- Extending a field keeps the lines that continue it. -/
theorem extend_rest (added : List Char) (f : Field) : (extend added f).rest = f.rest := by
  rw [extend]
  split <;> rfl

/-- The names of the fields after an edit of them. -/
theorem map_lower_extend (fs : List Field) : ((fs.map (extend added)).map fun f => lower f.name) =
    fs.map fun f => lower f.name := by
  rw [List.map_map]
  exact List.map_congr_left fun f _ => congrArg lower (extend_name added f)

/-- What is added is one line. -/
theorem not_newline_added (q : Paragraph) : '\n' ∉ q.added :=
  fun h => absurd (added_ascii q _ h).1 (by decide)

/-- A field that is extended is valid. -/
theorem extend_valid (q : Paragraph) (hf : f.Valid) : (extend q.added f).Valid := by
  rw [extend]
  split
  swap
  · exact hf
  refine ⟨hf.name_ne, hf.name, hf.head, ?_, hf.rest, .inr ⟨',', by simp, by decide⟩⟩
  simp only [List.mem_append, not_or]
  exact ⟨hf.first, by decide, not_newline_added q⟩

/-- The field that is appended is valid. -/
theorem newField_valid (q : Paragraph) : (newField q.added).Valid := by
  obtain ⟨_, t, c, hlast, hc⟩ := added_ends q
  have hne : "Depends".toList ≠ [] := by decide
  have hname : ∀ c ∈ "Depends".toList, 33 ≤ c.toNat ∧ c.toNat ≤ 126 ∧ c ≠ ':' := by decide
  have hhead : ∀ c ∈ "Depends".toList.head?, c ≠ '#' ∧ c ≠ '-' := by decide
  have hfirst : '\n' ∉ ' ' :: q.added := by
    rw [List.mem_cons, not_or]
    exact ⟨by decide, not_newline_added q⟩
  have hmem : c ∈ ' ' :: q.added := by
    rw [hlast]
    exact List.mem_cons_of_mem _ (List.mem_append_right t List.mem_cons_self)
  have hblank : ¬isBlank c := by
    intro hblank
    have hc' : c = ' ' ∨ c = '\t' := by simpa [isBlank] using hblank
    rcases hc' with rfl | rfl <;> exact hc (by decide)
  exact ⟨hne, hname, hhead, hfirst, fun l hl => absurd hl List.not_mem_nil, .inr ⟨c, hmem, hblank⟩⟩

/-- All fields of the edited file are valid. -/
theorem editFields_valid (q : Paragraph) :
    ∀ f ∈ editFields q.added q.lead q.fields q.trail, f.Valid := by
  unfold editFields
  by_cases hoccurs : "Depends:".toList <:+: Deb822.text q.lead q.fields q.trail
  · rw [if_pos hoccurs]
    intro f hf
    obtain ⟨g, hg, rfl⟩ := List.mem_map.1 hf
    exact extend_valid q (q.valid g hg)
  · rw [if_neg hoccurs]
    intro f hf
    rcases List.mem_append.1 hf with hf | hf
    · exact q.valid f hf
    · rw [List.mem_singleton.1 hf]
      exact newField_valid q

/-! ### Fields of an edited paragraph -/

/-- A field that was extended has its name to `dpkg`. -/
theorem isDepends_extend (added : List Char) (f : Field) :
    isDepends (extend added f) = isDepends f := by
  rw [isDepends, extend_name, isDepends]

/-- A field other than `Depends` is not extended. -/
theorem extend_of_not (h : isDepends f = false) : extend added f = f := by
  rw [extend, if_neg]
  rintro ⟨hname, _⟩
  rw [isDepends_of_name hname] at h
  exact Bool.noConfusion h

/-- The other fields are as they were. -/
theorem others_editFields (added : List Char) (m : ℕ) (fs : List Field) (n : ℕ) :
    (editFields added m fs n).filter (fun f => !isDepends f) =
      fs.filter fun f => !isDepends f := by
  unfold editFields
  by_cases hoccurs : "Depends:".toList <:+: Deb822.text m fs n
  · -- The extended field stays `Depends`, and is left out on both sides,
    rw [if_pos hoccurs]
    clear hoccurs
    induction fs with
    | nil => rfl
    | cons f fs ih =>
      rw [List.map_cons, List.filter_cons, List.filter_cons, ih, isDepends_extend]
      cases hf : isDepends f with
      | true => rfl
      | false => rw [extend_of_not hf]
  · -- and so is the field that is appended.
    have hnew : isDepends (newField added) = true := isDepends_of_name rfl
    rw [if_neg hoccurs, List.filter_append, List.filter_cons, hnew]
    exact List.append_nil _

/-- A field other than `Depends` is in the edited file exactly if it was there before. -/
theorem mem_editFields (hf : isDepends f = false) :
    f ∈ editFields added m fs n ↔ f ∈ fs := by
  have hmem : ∀ fs : List Field, f ∈ fs ↔ f ∈ fs.filter fun f => !isDepends f := by
    intro fs
    rw [List.mem_filter, hf]
    exact ⟨fun h => ⟨h, rfl⟩, fun h => h.1⟩
  rw [hmem, others_editFields, ← hmem]

/-- An edit of a paragraph that leaves one. -/
theorem exists_edited (q : Paragraph)
    (hnodup : ((editFields q.added q.lead q.fields q.trail).map fun f => lower f.name).Nodup)
    (hrelations : ∀ f ∈ editFields q.added q.lead q.fields q.trail, isDepends f →
      ∀ ws ∈ relations f.value, isRelation ws) :
    ∃ q' : Paragraph, (q'.kind = q.kind ∧ q'.version = q.version) ∧
      (q'.lead = q.lead ∧ q'.trail = q.trail) ∧
      q'.fields = editFields q.added q.lead q.fields q.trail := by
  have hne : ∀ {n : String} {f : Field}, n ≠ "depends" → lower f.name = n.toList →
      isDepends f = false := by
    intro n f hn hname
    rw [isDepends, hname, decide_eq_false_iff_not]
    exact fun h => hn (String.toList_injective h)
  refine ⟨⟨q.kind, q.version, q.lead, editFields q.added q.lead q.fields q.trail, q.trail,
    editFields_valid q, hnodup, ?_, ?_, q.version_ne, q.version_chars, ?_, hrelations⟩,
    ⟨rfl, rfl⟩, ⟨rfl, rfl⟩, rfl⟩
  · -- What else a control file has to have is in fields that are not edited.
    intro name hname
    obtain ⟨f, hf, hlower⟩ := List.mem_map.1 (q.mandatory hname)
    obtain ⟨n, hn, rfl⟩ := List.mem_map.1 hname
    have hdepends : n ≠ "depends" := by
      rintro rfl
      exact absurd hn (by decide)
    exact List.mem_map.2 ⟨f, (mem_editFields (hne hdepends hlower)).2 hf, hlower⟩
  · intro f hf hname
    exact q.package f ((mem_editFields (hne (by decide) hname)).1 hf) hname
  · intro f hf hname
    exact q.version_field f ((mem_editFields (hne (by decide) hname)).1 hf) hname

/-! ### What the fields of the edited paragraph are read as -/

/-- A line that `str.splitlines` does not cut. -/
theorem tail_splitlines {l : List Char} (h : ∀ c ∈ l, ¬isBoundary c) :
    (splitlines l).tail = [] := by
  cases l with
  | nil => rfl
  | cons c l => rw [splitlines_of_not (List.cons_ne_nil c l) h, List.tail_cons]

/-- The first line of a field is one line to Python, too, if its value is. -/
theorem header_not_isBoundary (hf : f.Valid) (hfirst : ∀ c ∈ f.first, ¬isBoundary c) :
    ∀ c ∈ f.header, ¬isBoundary c := by
  intro c hc
  rw [Field.header, List.mem_append, List.mem_cons] at hc
  rcases hc with hc | rfl | hc
  · have := hf.name c hc
    exact not_isBoundary_of_ascii (by omega)
  · decide
  · exact hfirst c hc

/-- What is added is one line to Python. -/
theorem added_not_isBoundary (q : Paragraph) : ∀ c ∈ q.added, ¬isBoundary c :=
  fun c hc => not_isBoundary_of_ascii (added_ascii q c hc)

/-- The keys of the edited file are where they were. -/
theorem legible_editFields (hlegible : Legible q) :
    ∀ l ∈ lines (editFields q.added q.lead q.fields q.trail), ∀ part ∈ (splitlines l).tail,
      ∀ e ∈ entry part, e.1 ∉ keys := by
  -- A line without a boundary is one part.
  have hnew : ∀ f : Field, f.Valid → (∀ c ∈ f.first, ¬isBoundary c) →
      ∀ part ∈ (splitlines f.header).tail, ∀ e ∈ entry part, e.1 ∉ keys := by
    intro f hf hfirst part hpart
    rw [tail_splitlines (header_not_isBoundary hf hfirst)] at hpart
    exact absurd hpart List.not_mem_nil
  unfold editFields
  by_cases hoccurs : "Depends:".toList <:+: Deb822.text q.lead q.fields q.trail
  · rw [if_pos hoccurs]
    intro l hl
    obtain ⟨g, hg, hl⟩ := List.mem_flatMap.1 hl
    obtain ⟨f, hf, rfl⟩ := List.mem_map.1 hg
    by_cases hmatches : Matches f
    · rcases List.mem_cons.1 hl with rfl | hl
      · refine hnew _ (extend_valid q (q.valid f hf)) ?_
        rw [extend, if_pos hmatches]
        intro c hc
        rw [List.mem_append, List.mem_append] at hc
        rcases hc with hc | hc | hc
        · exact not_isBoundary_first q (by simp [keys]) hf hmatches.1 c hc
        · revert c
          decide
        · exact added_not_isBoundary q c hc
      · rw [extend_rest] at hl
        exact hlegible l (List.mem_flatMap.2 ⟨f, hf, List.mem_cons_of_mem _ hl⟩)
    · rw [extend, if_neg hmatches] at hl
      exact hlegible l (List.mem_flatMap.2 ⟨f, hf, hl⟩)
  · rw [if_neg hoccurs, lines_append]
    intro l hl
    rcases List.mem_append.1 hl with hl | hl
    · exact hlegible l hl
    · rw [lines_cons, lines_nil, List.append_nil] at hl
      have hfirst : ∀ c ∈ ' ' :: q.added, ¬isBoundary c := by
        intro c hc
        rcases List.mem_cons.1 hc with rfl | hc
        · decide
        · exact added_not_isBoundary q c hc
      rcases List.mem_cons.1 hl with rfl | hl
      · exact hnew _ (newField_valid q) hfirst
      · exact absurd hl List.not_mem_nil

end Edit

/-! ## Finalized packages -/

section Finalized

variable {builds : List UInt8 → Bool} {q q' : Paragraph} {f : Field}

/-- The relations are those of the one field. -/
theorem depends_of_mem (hf : f ∈ q.fields) (hdepends : isDepends f) :
    q.depends = relations f.value := by
  cases hfind : q.fields.find? isDepends with
  | none => exact absurd hdepends (by simpa using List.find?_eq_none.1 hfind f hf)
  | some g =>
    have hg : isDepends g := List.find?_some hfind
    have hname : lower f.name = lower g.name :=
      (of_decide_eq_true hdepends).trans (of_decide_eq_true hg).symm
    have hfg : f = g :=
      List.inj_on_of_nodup_map q.nodup hf (List.mem_of_find?_eq_some hfind) hname
    rw [Paragraph.depends, hfind, hfg]
    rfl

/-- A paragraph without the field `Depends` depends on nothing. -/
theorem depends_of_not (h : ∀ f ∈ q.fields, ¬isDepends f) : q.depends = [] := by
  have hfind : q.fields.find? isDepends = none := List.find?_eq_none.2 h
  rw [Paragraph.depends, hfind]
  rfl

/-- Two paragraphs with one text have the same fields. -/
theorem text_injective (h : q.text = q'.text) : q.fields = q'.fields :=
  text_inj q.valid q'.valid h

/-- The control file of a package that is edited. -/
theorem rebuild_eq_ok {control : List UInt8} (h : rebuild builds q.added (encode q.text) =
    .ok control) : control = encode (edit q.added (universalNewlines q.text)) := by
  rw [rebuild, readText_encode] at h
  simp only at h
  split at h
  · exact (Except.ok.inj h).symm
  · exact absurd h (by simp)

/-- If `dpkg-deb` accepts the edited file, the package is rebuilt with it. -/
theorem rebuild_of_builds (hcr : '\r' ∉ q.text)
    (hadds : "Depends:".toList <:+: q.text ∨ q.trail = 0)
    (hframe : q'.lead = q.lead ∧ q'.trail = q.trail)
    (hedit : q'.fields = editFields q.added q.lead q.fields q.trail)
    (hbuilds : builds (encode q'.text)) :
    rebuild builds q.added (encode q.text) = .ok (encode q'.text) := by
  have htext : edit q.added (universalNewlines q.text) = q'.text := by
    rw [universalNewlines_eq_self.2 hcr, Paragraph.text, edit_text q.valid hadds, Paragraph.text,
      hedit, hframe.1, hframe.2]
  rw [rebuild, readText_encode]
  simp only [htext, if_pos hbuilds]

/-- A character that is in none of the parts is not in the edited text. -/
theorem not_mem_edit {c : Char} {added t : List Char} (ht : c ∉ t) (hadded : c ∉ added)
    (hdepends : c ∉ "Depends: ".toList) (hcomma : c ∉ ", ".toList) (hnl : c ≠ '\n') :
    c ∉ edit added t := by
  unfold edit
  by_cases hoccurs : "Depends:".toList <:+: t
  · -- The lines are kept, and some have something appended.
    rw [if_pos hoccurs, subnLines]
    intro hc
    rcases mem_unlines hc with h | ⟨l, hl, hc⟩
    · exact hnl h
    · obtain ⟨l', hl', rfl⟩ := List.mem_map.1 hl
      have hline : c ∉ l' := by
        intro hc
        rw [← unlines_splitOn '\n' t] at ht
        exact ht (mem_unlines_of_mem hl' hc)
      split at hc
      · rw [List.mem_append, List.mem_append] at hc
        rcases hc with hc | hc | hc
        · exact hline hc
        · exact hcomma hc
        · exact hadded hc
      · exact hline hc
  · -- One line is appended.
    rw [if_neg hoccurs]
    simp only [List.mem_append, List.mem_singleton, not_or]
    exact ⟨⟨⟨ht, hdepends⟩, hadded⟩, hnl⟩

/-- A carriage return in a paragraph is in another field. -/
theorem mem_others_of_cr (hcr : '\r' ∈ q.text) : ∃ f ∈ q.others, ∃ l ∈ f.lines, '\r' ∈ l := by
  obtain ⟨l', hl', hc⟩ := List.mem_flatMap.1 hcr
  have hl : '\r' ∈ l' := by simpa using hc
  -- A carriage return is not what the lines are joined with, so that it is in a line of a field.
  have hmem : l' ∈ lines q.fields :=
    (mem_framed hl').resolve_left fun hnil => List.not_mem_nil (hnil ▸ hl)
  obtain ⟨f, hf, hlf⟩ := List.mem_flatMap.1 hmem
  refine ⟨f, List.mem_filter.2 ⟨hf, ?_⟩, l', hlf, hl⟩
  cases hdepends : isDepends f with
  | false => rfl
  | true =>
    -- The relations of `Depends` and what is between them have none.
    exfalso
    have hvalue : '\r' ∈ f.value := by
      rw [f.value_eq, List.mem_append]
      rcases List.mem_cons.1 hlf with rfl | hlf
      · rw [Field.header, List.mem_append, List.mem_cons] at hl
        rcases hl with hl | hl | hl
        · exact absurd ((q.valid f hf).name _ hl).1 (by decide)
        · exact absurd hl (by decide)
        · exact .inl hl
      · exact .inr (List.mem_flatMap.2 ⟨l', hlf, List.mem_cons_of_mem _ hl⟩)
    rcases mem_relations hvalue with h | h | ⟨ws, hws, w, hw, hcw⟩
    · exact absurd h (by decide)
    · exact absurd h (by decide)
    · exact absurd (ascii_of_isRelation (q.relations f hf hdepends ws hws) hw hcw).1 (by decide)

/-- A carriage return in one of the other fields is in the text. -/
theorem cr_mem_text (h : ∃ f ∈ q.others, ∃ l ∈ f.lines, '\r' ∈ l) : '\r' ∈ q.text := by
  obtain ⟨f, hf, l, hl, hc⟩ := h
  have hmem : l ∈ lines q.fields := List.mem_flatMap.2 ⟨f, (List.mem_filter.1 hf).1, hl⟩
  exact List.mem_flatMap.2 ⟨l, List.mem_append_left _ (List.mem_append_right _ hmem),
    List.mem_append_left _ hc⟩

/-- An edit loses a carriage return. -/
theorem no_cr_of_edit (hedit : q'.text = edit q.added (universalNewlines q.text))
    (hothers : q'.others = q.others) : '\r' ∉ q.text := by
  intro hcr
  have hmem : '\r' ∈ q'.text := cr_mem_text (hothers ▸ mem_others_of_cr hcr)
  rw [hedit] at hmem
  exact not_mem_edit (not_mem_universalNewlines q.text)
    (fun h => absurd (added_ascii q _ h).1 (by decide)) (by decide) (by decide) (by decide) hmem

/-- What continues a value begins with the end of a line. -/
theorem folded_head (f : Field) : ∀ c ∈ f.folded.head?, isWhite c := by
  intro c hc
  rw [Field.folded] at hc
  cases hrest : f.rest with
  | nil =>
    rw [hrest] at hc
    exact absurd hc (by simp)
  | cons l ls =>
    rw [hrest, List.flatMap_cons, List.cons_append, List.head?_cons, Option.mem_some] at hc
    rw [← hc]
    decide

/-- The relations of a value, with the one at which the first line ends. -/
theorem relations_value (f : Field) : relations f.value =
    before f.first ++ (last f.first ++ head f.folded) :: after f.folded := by
  rw [f.value_eq, relations_append (folded_head f)]

/-- The relations of a field whose first line is appended to. -/
theorem relations_extend (added : List Char) (hmatches : Matches f) :
    relations (extend added f).value = relations f.first ++
      (before added ++ (last added ++ head f.folded) :: after f.folded) := by
  obtain ⟨hbefore, hlast⟩ := before_last_cons_white (c := ' ') (t := added) (by decide)
  have hvalue : (extend added f).value = f.first ++ ',' :: (' ' :: added ++ f.folded) := by
    rw [Field.value_eq, Field.folded, extend_rest, ← Field.folded, extend, if_pos hmatches]
    simp
  rw [hvalue, relations_append_comma, relations_append (folded_head f), hbefore, hlast]

/-- Of what is added, only the last relation may run into what follows. -/
theorem required_eq (q : Paragraph) : q.required = before q.added ++ [last q.added] :=
  relations_eq_before q.added

/-- What was there is still there, if a relation ends where something is added. -/
theorem sublist_extend (h : head f.folded = [] ∨ last f.first = last q.added)
    (hmatches : Matches f) :
    (relations f.value).Sublist (relations (extend q.added f).value) := by
  rw [relations_value, relations_extend _ hmatches, relations_eq_before, List.append_assoc]
  refine List.Sublist.append_left ?_ _
  rcases h with h | h
  · rw [h, List.append_nil, List.singleton_append]
    refine List.Sublist.cons_cons _ ?_
    exact (List.sublist_cons_self _ _).trans (List.sublist_append_right _ _)
  · rw [h]
    exact (List.sublist_append_right _ _).trans (List.sublist_append_right _ _)

/-- What is required is in the field that was extended, if nothing continues its last relation. -/
theorem required_subset_extend (h : head f.folded = [] ∨ last f.first = last q.added)
    (hmatches : Matches f) : q.required ⊆ relations (extend q.added f).value := by
  rw [required_eq, relations_extend _ hmatches]
  intro ws hws
  rcases List.mem_append.1 hws with hws | hws
  · exact List.mem_append_right _ (List.mem_append_left _ hws)
  · rw [List.mem_singleton] at hws
    rcases h with h | h
    · rw [h, List.append_nil, hws]
      exact List.mem_append_right _ (List.mem_append_right _ List.mem_cons_self)
    · rw [hws, ← h, relations_eq_before]
      exact List.mem_append_left _ (List.mem_append_right _ List.mem_cons_self)

/-- The relations of a field that was extended are well formed, if nothing continues its last one.
    -/
theorem isRelation_extend (h : head f.folded = [] ∨ last f.first = last q.added)
    (hmatches : Matches f) (hold : ∀ ws ∈ relations f.value, isRelation ws) :
    ∀ ws ∈ relations (extend q.added f).value, isRelation ws := by
  have hlast : isRelation (last q.added) :=
    isRelation_required q _ (required_eq q ▸ List.mem_append_right _ List.mem_cons_self)
  rw [relations_value] at hold
  rw [relations_extend _ hmatches, relations_eq_before]
  simp only [List.mem_append, List.mem_cons, List.not_mem_nil, or_false] at hold ⊢
  -- The relations are those before, the one that runs into what is added, those that are added, the
  -- one that runs into what follows, and those after.
  rintro ws ((hws | rfl) | hws | rfl | hws)
  · exact hold ws (.inl hws)
  · rcases h with h | h
    · exact hold _ (.inr (.inl (by rw [h, List.append_nil])))
    · exact h ▸ hlast
  · exact isRelation_required q ws (required_eq q ▸ List.mem_append_left _ hws)
  · rcases h with h | h
    · rw [h, List.append_nil]
      exact hlast
    · exact hold _ (.inr (.inl (by rw [h])))
  · exact hold ws (.inr (.inr hws))

/-- A relation that goes on after what is added is lost, or there is a gap before. -/
theorem of_subperm_extend (hmatches : Matches f)
    (hvalid : ∀ ws ∈ relations (extend q.added f).value, isRelation ws)
    (hsub : (relations f.value).Subperm (relations (extend q.added f).value)) :
    head f.folded = [] ∨ last f.first = last q.added := by
  by_contra hnot
  rw [not_or] at hnot
  rw [relations_extend _ hmatches, relations_eq_before] at hvalid
  rw [relations_value, relations_extend _ hmatches, relations_eq_before] at hsub
  set x := last f.first ++ head f.folded with hx
  -- The relation `x` that goes on is counted on both sides.
  have hcount := hsub.count_le x
  simp only [List.count_append, List.count_cons, List.count_nil] at hcount
  have hfirst : (last f.first == x) = false := by
    rw [beq_eq_false_iff_ne, hx]
    simpa using Ne.symm hnot.1
  have hadded : (last q.added ++ head f.folded == x) = false := by
    rw [beq_eq_false_iff_ne, hx]
    intro heq
    exact hnot.2 (List.append_cancel_right heq).symm
  have hself : (x == x) = true := beq_self_eq_true x
  rw [hfirst, hadded, hself] at hcount
  simp only [Bool.false_eq_true, if_false, if_true] at hcount
  -- So it would be one of those that are added, and those are too short for it.
  have hmem : x ∈ before q.added := List.count_pos_iff.1 (by omega)
  have hlength := length_before_added q x hmem
  rw [hx, List.length_append] at hlength
  have hpos := List.length_pos_iff.2 hnot.1
  have hnil : last f.first = [] := List.length_eq_zero_iff.1 (by omega)
  have hlast := hvalid (last f.first) (by simp)
  rw [hnil, isRelation_nil] at hlast
  exact Bool.noConfusion hlast

/-- A line `Depends: ` has the text. -/
theorem occurs_of_name (hf : f ∈ q.fields) (hname : f.name = "Depends".toList) :
    "Depends:".toList <:+: q.text := by
  have hmem : f.header ∈ framed q.lead q.fields q.trail :=
    List.mem_append_left _
      (List.mem_append_right _ (List.mem_flatMap.2 ⟨f, hf, List.mem_cons_self⟩))
  obtain ⟨x, y, hxy⟩ := List.append_of_mem hmem
  refine ⟨x.flatMap (· ++ ['\n']), f.first ++ '\n' :: y.flatMap (· ++ ['\n']), ?_⟩
  have hsplit : "Depends:".toList = "Depends".toList ++ [':'] := by decide
  rw [Paragraph.text, Deb822.text, hxy, List.flatMap_append, List.flatMap_cons, Field.header, hname,
    hsplit]
  simp only [List.append_assoc, List.cons_append, List.nil_append]

/-- Without the field, the fields are as before. -/
theorem map_extend_of_not {fs : List Field} (h : ∀ f ∈ fs, ¬Matches f) (added : List Char) :
    fs.map (extend added) = fs := by
  conv_rhs => rw [← List.map_id fs]
  exact List.map_congr_left fun f hf => if_neg (h f hf)

/-- If the word occurs somewhere, the script extends lines, and appends none. -/
theorem editFields_of_occurs (h : "Depends:".toList <:+: q.text) :
    editFields q.added q.lead q.fields q.trail = q.fields.map (extend q.added) := if_pos h

/-- If the word does not occur, the script appends the field. -/
theorem editFields_of_not (h : ¬"Depends:".toList <:+: q.text) :
    editFields q.added q.lead q.fields q.trail = q.fields ++ [newField q.added] := if_neg h

/-- A field of one name is the one that is found. -/
theorem find?_name (hf : f ∈ q.fields) {name : List Char} (hname : f.name = name) :
    q.fields.find? (fun g => g.name = name) = some f := by
  cases hfind : q.fields.find? fun g => decide (g.name = name) with
  | none => exact absurd hname (by simpa using List.find?_eq_none.1 hfind f hf)
  | some g =>
    have hg : g.name = name := by simpa using List.find?_some hfind
    have hlower : lower f.name = lower g.name := congrArg lower (hname.trans hg.symm)
    rw [List.inj_on_of_nodup_map q.nodup hf (List.mem_of_find?_eq_some hfind) hlower]

/-- A field of another name is another one. -/
theorem not_isDepends_of_name {name : List Char} (h : f.name = name)
    (hname : lower name ≠ "depends".toList) : isDepends f = false := by
  rw [isDepends, h, decide_eq_false_iff_not]
  exact hname

/-- An edited package is found as finalized: the keys are where they were, and the first line of
    `Depends` lists what was added. -/
theorem finalize_again (hlegible : Legible q) (hspelled : Spelled q) (hkind : q'.kind = q.kind)
    (hversion : q'.version = q.version)
    (hedit : q'.fields = editFields q.added q.lead q.fields q.trail)
    (hlisted : ∃ f ∈ q'.fields, f.name = "Depends".toList ∧ isListed q.added (strip f.first)) :
    finalize builds (encode q'.text) = .ok (encode q'.text) := by
  have hlegible' : Legible q' := by
    rw [Legible, hedit]
    exact legible_editFields hlegible
  -- The keys are there as before.
  have hkept : ∀ name : List Char, lower name ≠ "depends".toList →
      (∃ f ∈ q.fields, f.name = name) → ∃ f ∈ q'.fields, f.name = name := by
    rintro name hlower ⟨f, hf, hname⟩
    refine ⟨f, ?_, hname⟩
    rw [hedit, mem_editFields (not_isDepends_of_name hname hlower)]
    exact hf
  have hspelled' : Spelled q' :=
    ⟨hkept _ (by decide) hspelled.1, fun himage =>
      hkept _ (by decide) (hspelled.2 (hkind ▸ himage))⟩
  -- What is to be added depends on the kind and the version only.
  have hadded : q'.added = q.added := by
    rw [Paragraph.added, Paragraph.added, hkind, hversion]
  obtain ⟨f, hf, hname, hlist⟩ := hlisted
  have hlisted' : q'.Listed := by
    rw [Paragraph.Listed, find?_name hf hname, hadded]
    exact hlist
  rw [finalize_of_spelled builds hlegible' hspelled', if_pos hlisted']

/-- The relations of the field that is appended are those that are added. -/
theorem relations_newField (added : List Char) :
    relations (newField added).value = relations added := by
  obtain ⟨hbefore, hlast⟩ := before_last_cons_white (c := ' ') (t := added) (by decide)
  have hvalue : (newField added).value = ' ' :: added := by
    rw [Field.value_eq]
    exact List.append_nil _
  rw [hvalue, relations_eq_before, relations_eq_before, hbefore, hlast]

/-- The first line of `Depends` is appended to. -/
theorem finalized_of_matches (hlegible : Legible q) (hspelled : Spelled q)
    (hbuilds : Builds builds q) (hlisted : ¬q.Listed) (hcr : '\r' ∉ q.text) (hf : f ∈ q.fields)
    (hmatches : Matches f) (hends : head f.folded = [] ∨ last f.first = last q.added) :
    Finalized builds q := by
  have hfields := editFields_of_occurs (occurs_of_name hf hmatches.1)
  have hdepends := isDepends_of_name hmatches.1
  have hrelations : ∀ g ∈ editFields q.added q.lead q.fields q.trail, isDepends g →
      ∀ ws ∈ relations g.value, isRelation ws := by
    intro g hg hg'
    rw [hfields] at hg
    obtain ⟨f', hf', rfl⟩ := List.mem_map.1 hg
    rw [isDepends_extend] at hg'
    have hname : lower f.name = lower f'.name :=
      (of_decide_eq_true hdepends).trans (of_decide_eq_true hg').symm
    -- The names differ, so this is the field that is appended to.
    obtain rfl : f = f' := List.inj_on_of_nodup_map q.nodup hf hf' hname
    exact isRelation_extend hends hmatches (q.relations f hf hdepends)
  obtain ⟨q', ⟨hkind, hversion⟩, hframe, hedit⟩ := exists_edited q
    (by rw [hfields, map_lower_extend]; exact q.nodup) hrelations
  have hothers : q'.others = q.others := by
    rw [Paragraph.others, hedit, others_editFields, Paragraph.others]
  have hf' : extend q.added f ∈ q'.fields := by
    rw [hedit, hfields]
    exact List.mem_map_of_mem hf
  have hdepends' : q'.depends = relations (extend q.added f).value :=
    depends_of_mem hf' (by rw [isDepends_extend, hdepends])
  have hlist : isListed q.added (strip (extend q.added f).first) := by
    rw [extend, if_pos hmatches, ← List.append_assoc]
    exact isListed_append q f.first
  refine ⟨q', ?_, ?_, ?_, hothers, ?_⟩
  · rw [finalize_of_spelled builds hlegible hspelled, if_neg hlisted]
    exact rebuild_of_builds hcr (.inl (occurs_of_name hf hmatches.1)) hframe hedit
      (hbuilds q' hothers hframe.1 hframe.2)
  · rw [hdepends']
    exact required_subset_extend hends hmatches
  · rw [hdepends', depends_of_mem hf hdepends]
    exact (sublist_extend hends hmatches).subperm
  · -- The second edit finds what the first one added.
    exact finalize_again hlegible hspelled hkind hversion hedit
      ⟨_, hf', (extend_name _ _).trans hmatches.1, hlist⟩

/-- A field `Depends` is added. -/
theorem finalized_of_absent (hlegible : Legible q) (hspelled : Spelled q)
    (hbuilds : Builds builds q) (hlisted : ¬q.Listed) (hcr : '\r' ∉ q.text)
    (hoccurs : ¬"Depends:".toList <:+: q.text) (htrail : q.trail = 0)
    (habsent : ∀ f ∈ q.fields, ¬isDepends f) :
    Finalized builds q := by
  have hfields := editFields_of_not hoccurs
  have hnew : isDepends (newField q.added) := isDepends_of_name rfl
  have hrelations : ∀ g ∈ editFields q.added q.lead q.fields q.trail, isDepends g →
      ∀ ws ∈ relations g.value, isRelation ws := by
    intro g hg hg'
    rw [hfields] at hg
    rcases List.mem_append.1 hg with hg | hg
    · exact absurd hg' (habsent g hg)
    · rw [List.mem_singleton.1 hg, relations_newField]
      exact isRelation_required q
  -- No field has the name of the new one.
  have hnodup : ((editFields q.added q.lead q.fields q.trail).map fun f => lower f.name).Nodup := by
    rw [hfields, List.map_append, List.nodup_append]
    refine ⟨q.nodup, List.nodup_singleton _, ?_⟩
    intro name hname name' hname' heq
    obtain ⟨f, hf, rfl⟩ := List.mem_map.1 hname
    rw [List.mem_singleton.1 hname'] at heq
    exact habsent f hf (decide_eq_true (heq.trans (of_decide_eq_true hnew)))
  obtain ⟨q', ⟨hkind, hversion⟩, hframe, hedit⟩ := exists_edited q hnodup hrelations
  have hothers : q'.others = q.others := by
    rw [Paragraph.others, hedit, others_editFields, Paragraph.others]
  have hf' : newField q.added ∈ q'.fields := by
    rw [hedit, hfields]
    exact List.mem_append_right _ List.mem_cons_self
  have hdepends' : q'.depends = q.required := by
    rw [depends_of_mem hf' hnew, relations_newField, Paragraph.required]
  refine ⟨q', ?_, ?_, ?_, hothers, ?_⟩
  · rw [finalize_of_spelled builds hlegible hspelled, if_neg hlisted]
    exact rebuild_of_builds hcr (.inr htrail) hframe hedit
      (hbuilds q' hothers hframe.1 hframe.2)
  · rw [hdepends']
    exact List.Subset.refl _
  · rw [depends_of_not habsent]
    exact (List.nil_sublist _).subperm
  · exact finalize_again hlegible hspelled hkind hversion hedit ⟨_, hf', rfl, isListed_added q⟩

/-- A field that is added behind an empty line is not in the paragraph. -/
theorem adds_of_edit (hedit : q'.text = edit q.added q.text) :
    "Depends:".toList <:+: q.text ∨ q.trail = 0 := by
  refine or_iff_not_imp_left.2 fun hoccurs => ?_
  have hkey : "Depends: ".toList ≠ [] := by decide
  have hline : "Depends: ".toList ++ q.added ≠ [] :=
    List.append_ne_nil_of_left_ne_nil hkey q.added
  have hnewline : '\n' ∉ "Depends: ".toList ++ q.added := by
    rw [List.mem_append, not_or]
    exact ⟨by decide, not_newline_added q⟩
  have hassoc : ∀ d : List Char,
      q.text ++ d ++ q.added ++ ['\n'] = q.text ++ (d ++ q.added ++ ['\n']) := by simp
  have htext : q'.text = q.text ++ "Depends: ".toList ++ q.added ++ ['\n'] :=
    hedit.trans (if_neg hoccurs)
  -- With an empty line at the end, what is appended would be a paragraph of its own.
  by_contra htrail
  exact text_ne_append q.valid q'.valid (fields_ne_nil q) htrail hline hnewline
    (htext.trans (hassoc _)).symm

/-- A package that is finalized has a file that can be. -/
theorem finalizable_of_finalized (hlegible : Legible q) (h : Finalized builds q) :
    Finalizable q := by
  obtain ⟨q', hrun, hrequired, hsub, hothers, -⟩ := h
  by_cases hspelled : Spelled q
  swap
  · obtain ⟨e, herror⟩ := finalize_of_not_spelled builds hlegible hspelled
    rw [herror] at hrun
    exact absurd hrun (by simp)
  rw [finalize_of_spelled builds hlegible hspelled] at hrun
  by_cases hlisted : q.Listed
  · rw [if_pos hlisted, Except.ok.injEq, encode_inj] at hrun
    have hfields := text_injective hrun
    have hcomplete : q.Complete := by
      rw [Paragraph.Complete, Paragraph.depends, hfields]
      exact hrequired
    exact ⟨hspelled.1, hspelled.2, fun _ => hcomplete, fun h => absurd hlisted h,
      fun h => absurd hlisted h, fun h => absurd hlisted h, fun h => absurd hlisted h⟩
  rw [if_neg hlisted] at hrun
  -- The text that the package is built from is that of a paragraph.
  have htext : q'.text = edit q.added (universalNewlines q.text) :=
    encode_injective (rebuild_eq_ok hrun)
  -- A carriage return anywhere would be made a newline, which the other fields would not survive.
  have hcr := no_cr_of_edit htext hothers
  rw [universalNewlines_eq_self.2 hcr] at htext
  have hadds := adds_of_edit htext
  have hfields : q'.fields = editFields q.added q.lead q.fields q.trail := by
    rw [Paragraph.text, Paragraph.text, edit_text q.valid hadds] at htext
    exact text_inj q'.valid (editFields_valid q) htext
  refine ⟨hspelled.1, hspelled.2, fun h => absurd h hlisted, fun _ => hcr, ?_, ?_, ?_⟩
  · -- The first line of a field is appended to.
    intro _ f hf hname hfirst
    have hmatches : Matches f := ⟨hname, hfirst⟩
    rw [editFields_of_occurs (occurs_of_name hf hname)] at hfields
    have hf' : extend q.added f ∈ q'.fields := hfields ▸ List.mem_map_of_mem hf
    have hdepends := isDepends_of_name hname
    have hdepends' : isDepends (extend q.added f) := by rw [isDepends_extend, hdepends]
    rw [depends_of_mem hf hdepends, depends_of_mem hf' hdepends'] at hsub
    exact of_subperm_extend hmatches (q'.relations _ hf' hdepends') hsub
  · -- No line is appended to.
    intro _ hoccurs hnone
    have hnot : ∀ f ∈ q.fields, ¬Matches f := fun f hf hmatches => hnone f hf hmatches.1 hmatches.2
    rw [editFields_of_occurs hoccurs, map_extend_of_not hnot] at hfields
    rw [Paragraph.Complete, Paragraph.depends, ← hfields]
    exact hrequired
  · -- A field is added: it is the only one.
    intro _ hoccurs
    refine ⟨hadds.resolve_left hoccurs, fun f hf hdepends => ?_⟩
    rw [editFields_of_not hoccurs] at hfields
    have hnodup := q'.nodup
    rw [hfields, List.map_append, List.nodup_append] at hnodup
    have hnew : isDepends (newField q.added) := isDepends_of_name rfl
    exact hnodup.2.2 _ (List.mem_map_of_mem hf) _ (List.mem_map_of_mem List.mem_cons_self)
      ((of_decide_eq_true hdepends).trans (of_decide_eq_true hnew).symm)

/-- A file that can be finalized is, with the dependencies that are required. -/
theorem finalized_of_finalizable (hlegible : Legible q) (hbuilds : Builds builds q)
    (h : Finalizable q) : Finalized builds q := by
  have hspelled : Spelled q := ⟨h.package, h.version⟩
  have hrun := finalize_of_spelled builds hlegible hspelled
  by_cases hlisted : q.Listed
  · -- The script has nothing to do.
    rw [if_pos hlisted] at hrun
    exact ⟨q, hrun, h.listed hlisted, List.Subperm.refl _, rfl, hrun⟩
  rw [if_neg hlisted] at hrun
  have hcr := h.no_cr hlisted
  -- Nothing is listed: the field is added where the text has none.
  by_cases hoccurs : "Depends:".toList <:+: q.text
  swap
  · obtain ⟨htrail, habsent⟩ := h.absent hlisted hoccurs
    exact finalized_of_absent hlegible hspelled hbuilds hlisted hcr hoccurs htrail habsent
  by_cases hmatches : ∃ f ∈ q.fields, Matches f
  · obtain ⟨f, hf, hmatches⟩ := hmatches
    exact finalized_of_matches hlegible hspelled hbuilds hlisted hcr hf hmatches
      (h.folded hlisted f hf hmatches.1 hmatches.2)
  · -- No line is appended to.
    simp only [not_exists, not_and] at hmatches
    have hcomplete := h.unmatched hlisted hoccurs fun f hf hname hfirst =>
      hmatches f hf ⟨hname, hfirst⟩
    have hsame : q.fields = editFields q.added q.lead q.fields q.trail := by
      rw [editFields_of_occurs hoccurs, map_extend_of_not hmatches]
    rw [rebuild_of_builds hcr (.inl hoccurs) ⟨rfl, rfl⟩ hsame (hbuilds q rfl rfl rfl)] at hrun
    exact ⟨q, hrun, hcomplete, List.Subperm.refl _, rfl, hrun⟩

/-- The edit does what it is for exactly under these conditions. -/
theorem finalized_iff (builds : List UInt8 → Bool) (q : Paragraph) (hlegible : Legible q)
    (hbuilds : Builds builds q) : Finalized builds q ↔ Finalizable q :=
  ⟨finalizable_of_finalized hlegible, finalized_of_finalizable hlegible hbuilds⟩

/-- The fields of an image that depends on `dpkg` as it is unpacked, and on nothing else. -/
def preDependsFields : List Field :=
  [⟨"Package".toList, ' ' :: Kind.image.package, []⟩, ⟨"Version".toList, [' ', '1'], []⟩,
    ⟨"Architecture".toList, " arm64".toList, []⟩, ⟨"Maintainer".toList, " m".toList, []⟩,
    ⟨"Pre-Depends".toList, " dpkg".toList, []⟩, ⟨"Description".toList, " Linux".toList, []⟩]

/-- A value behind one blank. -/
theorem pads_cons_blank (w : List Char) : Pads w (' ' :: w) :=
  ⟨[' '], [], by decide, by simp⟩

/-- The name and the version are on their lines, and no field is `Depends`. -/
theorem pads_preDepends : ∀ f ∈ preDependsFields,
    (lower f.name = "package".toList → f.rest = [] ∧ Pads Kind.image.package f.first) ∧
      (lower f.name = "version".toList → f.rest = [] ∧ Pads ['1'] f.first) ∧ ¬isDepends f := by
  intro f hf
  simp only [preDependsFields, List.mem_cons, List.not_mem_nil, or_false] at hf
  rcases hf with rfl | rfl | rfl | rfl | rfl | rfl
  · exact ⟨fun _ => ⟨rfl, pads_cons_blank _⟩, fun h => absurd h (by decide +kernel),
      by decide +kernel⟩
  · exact ⟨fun h => absurd h (by decide +kernel), fun _ => ⟨rfl, pads_cons_blank _⟩,
      by decide +kernel⟩
  all_goals
    exact ⟨fun h => absurd h (by decide +kernel), fun h => absurd h (by decide +kernel),
      by decide +kernel⟩

/-- A kernel image with what it needs before it is unpacked, and no `Depends`. -/
def preDepends : Paragraph where
  kind := .image
  version := ['1']
  lead := 0
  fields := preDependsFields
  trail := 0
  valid := by
    simp only [preDependsFields, List.forall_mem_cons, List.not_mem_nil, false_implies,
      implies_true, and_true]
    refine ⟨?_, ?_, ?_, ?_, ?_, ?_⟩ <;> constructor <;> decide +kernel
  nodup := by decide +kernel
  mandatory := by decide +kernel
  package := fun f hf => (pads_preDepends f hf).1
  version_ne := by decide
  version_chars := by decide +kernel
  version_field := fun f hf => (pads_preDepends f hf).2.1
  relations := fun f hf h => absurd h (pads_preDepends f hf).2.2

/-- The file is one that the script reads as `dpkg` does. -/
theorem legible_preDepends : Legible preDepends := by
  intro l hl part hpart
  have hnot : ∀ l ∈ lines preDependsFields, (splitlines l).tail = [] := by decide +kernel
  rw [hnot l hl] at hpart
  exact absurd hpart List.not_mem_nil

/-- The word occurs in the name of another field, so that nothing is appended. -/
theorem finalized_preDepends : Finalized (fun _ => true) preDepends ↔ Finalizable preDepends :=
  finalized_iff (fun _ => true) preDepends legible_preDepends (by intro q' _ _ _; rfl)

/-- `Pre-Depends:` is taken for `Depends:`, and the device trees are not added. -/
theorem not_finalized : ¬∀ (builds : List UInt8 → Bool) (q : Paragraph), Builds builds q →
    Finalized builds q := by
  intro h
  -- The word `Depends:` occurs in `Pre-Depends:`, so that the script neither appends a field nor
  -- finds one to extend.
  have hfinalizable := finalizable_of_finalized legible_preDepends
    (h (fun _ => true) preDepends (by intro q' _ _ _; rfl))
  have hdepends : preDepends.depends = [] :=
    depends_of_not fun f hf => (pads_preDepends f hf).2.2
  have hlisted : ¬preDepends.Listed := by decide +kernel
  have hcomplete : preDepends.Complete := by
    refine hfinalizable.unmatched hlisted ?_ ?_
    · have hoccurs : "Depends:".toList <:+: Deb822.text 0 preDependsFields 0 := by decide +kernel
      exact hoccurs
    · intro f hf hname
      exact absurd (isDepends_of_name hname) (pads_preDepends f hf).2.2
  -- So nothing is depended on, although something is required.
  rw [Paragraph.Complete, hdepends] at hcomplete
  have hne : preDepends.required ≠ [] := by
    rw [required_image rfl]
    exact List.cons_ne_nil _ _
  exact hne (List.subset_nil.1 hcomplete)

end Finalized

end W132d.Release.Finalize
