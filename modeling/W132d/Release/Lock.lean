import Mathlib.Data.List.TakeWhile
import W132d.Checks

/-!
# Locks

A *lock* pins the inputs of a release: its channel and version, the commit of the project and
the upstream sources (`inputs.py`).

* `validateLock`: the check of a lock in a checkout;
* `task`: the run and the attempt that built a version, which is what orders two publications
  of the same day;
* `task_of_isVersion`: the version of a valid lock has both.

A `Platform` is what the code relies on outside of the repository: Unicode's decimal digits,
`dpkg`, and the digest of a JSON text.
-/

namespace W132d.Release

/-- A JSON object of texts, by its sorted keys. -/
abbrev Dict := List (String × String)

/-- What the code relies on outside of the repository. -/
structure Platform where
  /-- The value of a decimal digit, in any script (`\d`, `int`). -/
  decimal : Char → Option ℕ
  /-- The digits of ASCII are the usual ones. -/
  decimal_ascii : ∀ c : Char, c.toNat < 128 →
    decimal c = if c.isDigit then some (c.toNat - '0'.toNat) else none
  /-- `version_newer`: `dpkg --compare-versions candidate gt installed`. -/
  versionNewer : String → String → Bool
  /-- The hash of the JSON text of maintained inputs and blobs. -/
  digest : Dict → List (String × Dict) → String

/-! ## Texts -/

/-- `s.split(sep)`. -/
def split (s : String) (sep : Char) : List String :=
  (s.toList.splitOn sep).map String.ofList

/-- `s.split(sep, 1)[0]`. -/
def beforeFirst (s : String) (sep : Char) : String :=
  String.ofList (s.toList.takeWhile (· ≠ sep))

/-- `s.endswith(suffix)`. -/
def endsWith (s suffix : String) : Bool :=
  suffix.toList.isSuffixOf s.toList

/-- `s.removesuffix(suffix)`. -/
def removeSuffix (s suffix : String) : String :=
  if endsWith s suffix then String.ofList (s.toList.take (s.toList.length - suffix.toList.length))
  else s

/-- `s.removeprefix("v")`. -/
def removeV (s : String) : String :=
  match s.toList with
  | 'v' :: cs => String.ofList cs
  | _ => s

variable (p : Platform)

/-- `int(s)`, for the text of a natural number. -/
def int (s : String) : Except String ℕ :=
  match s.toList.mapM p.decimal with
  | none | some [] => .error ("invalid literal for int() with base 10: '" ++ s ++ "'")
  | some ds =>
    if ds.length ≤ 4300 then .ok (ds.foldl (fun n d => 10 * n + d) 0)
    else .error "Exceeds the limit (4300 digits) for integer string conversion"

/-- The text matches `\d+`. -/
def isDigits (s : String) : Bool :=
  !s.toList.isEmpty && s.toList.all fun c => (p.decimal c).isSome

/-- The text matches `\d{8}\.\d+\.\d+(?:~experimental)?`. -/
def isVersion (s : String) : Bool :=
  match split (removeSuffix s "~experimental") '.' with
  | [date, run, attempt] =>
    date.toList.length = 8 && isDigits p date && isDigits p run && isDigits p attempt
  | _ => false

/-- The text is `v` and numbers between dots, of a form that `parts` accepts. -/
def isTag (parts : List String → Bool) (s : String) : Bool :=
  s.toList.head? = some 'v' && (split (removeV s) '.').all (isDigits p) &&
    parts (split (removeV s) '.')

/-- `v\d+\.\d+(?:\.\d+)?`. -/
def isLinuxTag : String → Bool :=
  isTag p fun parts => parts.length = 2 || parts.length = 3

/-- `v\d+\.\d+\.\d+`. -/
def isArmbianTag : String → Bool :=
  isTag p fun parts => parts.length = 3

/-- `v\d{4}\.\d{2}(?:\.\d+)?`. -/
def isUbootTag : String → Bool :=
  isTag p fun parts => (parts.length = 2 || parts.length = 3) &&
    (parts.take 2).map (·.toList.length) = [4, 2]

/-- `[0-9a-f]{40}`. -/
def isCommit (s : String) : Bool :=
  s.toList.length = 40 && s.toList.all fun c => c.isDigit || ('a' ≤ c && c ≤ 'f')

/-! ## Locks -/

/-- A channel of the repository. -/
inductive Channel
  | stable
  | experimental
  deriving DecidableEq, Repr

/-- An upstream project. -/
inductive Name
  | linux
  | armbian
  | uboot
  deriving DecidableEq, Repr

def Name.text : Name → String
  | linux => "linux"
  | armbian => "armbian"
  | uboot => "uboot"

/-- The upstream projects, in the order in which they are checked. -/
def Name.all : List Name := [linux, armbian, uboot]

/-- The pinned source of an upstream project. Its other keys, e.g., the URL, are only
    recorded. -/
structure Upstream where
  tag : String
  commit : Option String
  other : Dict
  deriving DecidableEq, Repr

/-- The fields of `manifest.json` that are read here. -/
structure Lock where
  schema : ℤ
  channel : Channel
  version : String
  projectCommit : String
  projectDirty : Bool
  inputs : Dict
  blobs : List (String × Dict)
  upstream : Name → Upstream

/-- What a lock is compared with: the hashes of the maintained inputs, the commit that is
    checked out and the output of `git status`. -/
structure Checkout where
  sourceHashes : Dict
  head : String
  status : String

/-- `maintained_digest`. -/
def maintainedDigest (lock : Lock) : String :=
  p.digest lock.inputs lock.blobs

/-- The commit of an upstream source is pinned. -/
def validateCommit (lock : Lock) (name : Name) : Except String Unit :=
  match (lock.upstream name).commit with
  | none => .error "'commit'"
  | some commit => require (isCommit commit) ("Unpinned " ++ name.text ++ " source")

/-- `validate_lock`. -/
def validateLock (c : Checkout) (lock : Lock) : Except String Unit := do
  require (lock.schema = 1) "Unsupported manifest schema"
  require (isVersion p lock.version) "Invalid package version"
  require (endsWith lock.version "~experimental" = decide (lock.channel = .experimental))
    "Version and channel disagree"
  require (lock.inputs = c.sourceHashes) "Maintained inputs changed after locking"
  require (lock.projectCommit = c.head) "Project commit changed after locking"
  require (lock.projectDirty ∨ c.status = "") "Release checkout changed after locking"
  Name.all.forM (validateCommit lock)
  require (isLinuxTag p (lock.upstream .linux).tag) "RC kernels are not allowed"
  require (isArmbianTag p (lock.upstream .armbian).tag)
    "Only official Armbian releases are allowed"
  require (isUbootTag p (lock.upstream .uboot).tag) "Only official U-Boot releases are allowed"

/-- The run and the attempt of a version: `version.split("~", 1)[0].split(".")[1:]`. -/
def task (version : String) : Except String (List ℕ) :=
  (split (beforeFirst version '~') '.').tail.mapM (int p)

/-- The numbers of a tag. -/
def tagNumbers (tag : String) : Except String (List ℕ) :=
  (split (removeV tag) '.').mapM (int p)

/-! ## The task of a version -/

variable {p}

theorem isDigits_not_mem {s : String} {c : Char} (hs : isDigits p s)
    (hc : c.toNat < 128 ∧ c.isDigit = false) : c ∉ s.toList := by
  intro hmem
  rw [isDigits, Bool.and_eq_true, List.all_eq_true] at hs
  have hdec := hs.2 c hmem
  rw [p.decimal_ascii c hc.1, hc.2] at hdec
  exact absurd hdec (by simp)

/-- A text split into three is these three between the separators. -/
theorem toList_of_split {s a b c : String} {sep : Char} (h : split s sep = [a, b, c]) :
    s.toList = a.toList ++ sep :: b.toList ++ sep :: c.toList := by
  have hparts : s.toList.splitOn sep = [a.toList, b.toList, c.toList] := by
    have := congrArg (List.map String.toList) h
    simpa [split, Function.comp_def] using this
  have hwhole : [sep].intercalate (s.toList.splitOn sep) = s.toList :=
    List.intercalate_splitOn sep
  rw [hparts] at hwhole
  rw [← hwhole]
  simp [List.intercalate]

/-- The part of a text before its first `~`, if it has none but that of the suffix. -/
theorem beforeFirst_tilde {s : String}
    (hs : '~' ∉ (removeSuffix s "~experimental").toList) :
    beforeFirst s '~' = removeSuffix s "~experimental" := by
  have htake : ∀ l : List Char, '~' ∉ l → l.takeWhile (· ≠ '~') = l := by
    intro l hl
    exact List.takeWhile_eq_self_iff.2 fun c hc => decide_eq_true fun h => hl (h ▸ hc)
  rw [removeSuffix] at hs ⊢
  split_ifs at hs ⊢ with hsuffix
  · rw [endsWith, List.isSuffixOf_iff_suffix] at hsuffix
    obtain ⟨a, ha⟩ := hsuffix
    rw [← ha, List.length_append, Nat.add_sub_cancel_right, List.take_left] at hs ⊢
    rw [String.toList_ofList] at hs
    have : "~experimental".toList = '~' :: "experimental".toList := by decide +kernel
    rw [beforeFirst, ← ha, this, List.takeWhile_append_of_pos, List.takeWhile_cons]
    · simp
    · exact fun c hc => decide_eq_true fun h => hs (h ▸ hc)
  · rw [beforeFirst, htake _ hs, String.ofList_toList]

/-- The task of a valid version is a run and an attempt. -/
theorem task_of_isVersion {v : String} {t : List ℕ} (hv : isVersion p v)
    (ht : task p v = .ok t) : ∃ run attempt, t = [run, attempt] := by
  rw [isVersion] at hv
  split at hv
  · rename_i date run attempt hsplit
    simp only [Bool.and_eq_true] at hv
    obtain ⟨⟨⟨_, hdate⟩, hrun⟩, hattempt⟩ := hv
    have htilde : '~'.toNat < 128 ∧ '~'.isDigit = false := by decide
    have hbefore : '~' ∉ (removeSuffix v "~experimental").toList := by
      rw [toList_of_split hsplit]
      simp [isDigits_not_mem hdate htilde, isDigits_not_mem hrun htilde,
        isDigits_not_mem hattempt htilde]
    rw [task, beforeFirst_tilde hbefore, hsplit, List.tail_cons] at ht
    simp only [List.mapM_cons, List.mapM_nil, bind_eq_ok, pure, Except.pure,
      Except.ok.injEq] at ht
    obtain ⟨r, _, _, ⟨a, _, _, rfl, rfl⟩, rfl⟩ := ht
    exact ⟨r, a, rfl⟩
  · exact absurd hv (by simp)

end W132d.Release
