import W132d.Addressed
import W132d.Release.Repository
import W132d.TextFile

/-!
# The published site

The site of the package repository has the packages of the retained releases, in a pool whose paths
have the hashes of the files in them, and for each channel the indexes of its packages, which the
signed `Release` names with their hashes. A publication builds the next site beside the deployed
one and replaces it as a whole (`build` in `repository.py`). It takes from the deployed site the
packages of the older releases, and the indexes that its `Release` names. These stay under their
hashes, so that a client that has read the old `Release` still finds them.

* `build`: the next site. Anything that fails leaves the deployed one;
* `Serves`: each path that the signed files of a site lead to has a content of the hash that
  they give for it;
* `Hands`: what a client that has read the `Release` of one site still finds in the next;
* `deployed_continues`: every site that is deployed serves its clients, and those of the one before
  it;
* `deployed_found`: and a publication finds in the deployed site all that it takes from it.

What is modelled of `build`: the checks of the candidate, the state that follows (`nextState` of
`W132d.Release.Repository`), the packages that are copied or downloaded, the indexes and their
copies under their hashes, `Release`, its signatures, the indexes of the deployed site that are
downloaded, and the limit of the size. Any path of the deployed site may be out of reach;
`dpkg-deb`, `gpg`, the compression and the hash are parameters (`Tools`).

How the theorems are proved:

* a file whose path has a digest in it has a content of this digest whenever it is written (`Puts`),
  and is never written otherwise. So no later step of a publication spoils such a file, whatever the
  order is in which the packages and the channels are written;
* the other files of a channel are written by the turn of the loop for this channel only (`Copies`,
  `ServesChannel.congr`);
* a site that was built serves its clients (`build_serves`), and this is carried over all
  publications by induction, from no site at all (`deployed_serves`);
* what a client of the old site asks for is either kept in the next state, or an index of the old
  `Release`, which is downloaded under its hash (`next_found`, `previous_found`).

The hash is not asked to be free of collisions: what is promised is a content of the right hash.
-/

namespace W132d.Release.Publish

open Addressed TextFile

/-- The content of a file. -/
abbrev Bytes := List UInt8

/-- Files by their paths. -/
abbrev Files := Store String Bytes

/-- An entry of `indexes` in `state.json`. -/
structure Index where
  path : String
  sha256 : String
  deriving DecidableEq, Repr

/-- The programs and libraries that are called. -/
structure Tools where
  /-- `hexdigest`. -/
  sha256 : Bytes → String
  sha256_plain : ∀ b, '/' ∉ (sha256 b).toList
  /-- `gzip.compress`. -/
  compress : Bytes → Bytes
  /-- `dpkg-deb --field`. -/
  field : Bytes → Option String
  /-- `sign`: `InRelease` and `Release.gpg`, if `gpg` makes and accepts them. -/
  sign : Bytes → Option (Bytes × Bytes)
  /-- The text of `state.json`. -/
  json : State → (Channel → List Index) → Bytes

/-- A site, with what its `state.json` says. -/
structure Site where
  files : Files
  state : State
  indexes : Channel → List Index

/-- What a publication raises. -/
inductive Error
  | value (message : String)
  | missing (path : String)
  /-- The deployed site does not have the file, or cannot be reached. -/
  | request (path : String)
  | mismatch (path : String)
  | subprocess
  deriving DecidableEq, Repr

/-- The name is that of a file in a directory. -/
def IsComponent (s : String) : Prop := s ≠ "" ∧ s ≠ "." ∧ s ≠ ".." ∧ '/' ∉ s.toList

instance (s : String) : Decidable (IsComponent s) := inferInstanceAs (Decidable (_ ∧ _))

/-- A sealed candidate: its lock, `packages.json`, whose records have no `path` yet, and the files
    beside it. -/
structure Candidate where
  lock : Lock
  records : List Package
  debs : Files
  components : ∀ item ∈ records, IsComponent item.name ∧ IsComponent item.file

/-- A run of the publication. -/
structure Attempt where
  candidate : Candidate
  now : String
  /-- The paths of the deployed site that can be read meanwhile. -/
  reachable : String → Bool
  /-- The site that is built is deployed. -/
  deploys : Bool

/-! ## Paths -/

/-- The name of a channel. -/
def suite : Channel → String
  | .stable => "stable"
  | .experimental => "experimental"

/-- Where a package is kept, whatever channel it is in. -/
def poolPath (item : Package) : String :=
  "pool/main/" ++ item.name ++ "/" ++ item.sha256 ++ "/" ++ item.file

/-- The directory of a channel. -/
def distribution (c : Channel) : String := "dists/" ++ suite c ++ "/"

def binary (c : Channel) : String := distribution c ++ "main/binary-arm64/"

def byHash (c : Channel) (sha256 : String) : String :=
  binary c ++ "by-hash/SHA256/" ++ sha256

/-- The indexes of a channel. -/
def indexNames : List String := ["Packages", "Packages.gz"]

/-- `MAX_BYTES`. -/
def maxBytes : ℕ := 900 * 1024 * 1024

/-- The number of bytes of a site. -/
def size (fs : Files) : ℕ := (fs.entries.map fun f => f.2.length).sum

/-! ## The program -/

variable (t : Tools) (p : Platform)

/-- `require`. -/
def raise {α : Type} : Except String α → Except Error α :=
  Except.mapError .value

/-- The content of a file that has to be there. -/
def read (fs : Files) (path : String) : Except Error Bytes :=
  match fs.lookup path with
  | some b => .ok b
  | none => .error (.missing path)

/-- `download`. Its temporary file, which is gone when it returns, is left out. -/
def download (fetch : String → Option Bytes) (fs : Files) (path sha256 : String) :
    Except Error Files :=
  if (fs.lookup path).any fun b => t.sha256 b = sha256 then .ok fs
  else match fetch path with
    | none => .error (.request path)
    | some b =>
      if t.sha256 b = sha256 then .ok (fs.insert path b) else .error (.mismatch path)

/-- A turn of the loop over the records of the candidate. -/
def checkRecord (candidate : Candidate) (item : Package) : Except Error Package := do
  let b ← read candidate.debs item.file
  raise (require (t.sha256 b = item.sha256) "Package changed after verification")
  raise (require (item.version = candidate.lock.version ∧ item.architecture = "arm64")
    "Repository package version mismatch")
  return { item with path := poolPath item }

/-- A turn of the loop over the retained packages. -/
def place (fetch : String → Option Bytes) (debs fs : Files) (item : Package) :
    Except Error Files :=
  match debs.lookup item.file with
  | some b =>
    if t.sha256 b = item.sha256 then .ok (fs.insert item.path b)
    else download t fetch fs item.path item.sha256
  | none => download t fetch fs item.path item.sha256

/-- The paragraph of a package in an index. -/
def paragraph (fs : Files) (item : Package) : Except Error String := do
  let b ← read fs item.path
  match t.field b with
  | some text => .ok (text ++ "\nFilename: " ++ item.path ++ "\nSize: " ++ toString item.size ++
      "\nSHA256: " ++ item.sha256 ++ "\n")
  | none => .error .subprocess

/-- The packages of retained releases. -/
def packages (history : List Entry) : List Package := history.flatMap (·.packages)

/-- The bytes of `Packages`. -/
def indexBytes (paragraphs : List String) : Bytes :=
  encode ("\n".intercalate paragraphs ++ "\n").toList

/-- The line of `Release` for an index. -/
def releaseLine (name : String) (b : Bytes) : String :=
  " " ++ t.sha256 b ++ " " ++ toString b.length ++ " main/binary-arm64/" ++ name ++ "\n"

/-- The file `Release`: its header, with a line for each index. -/
def releaseBytes (now : String) (c : Channel) (lines : List String) : Bytes :=
  encode ("Origin: W132D\nLabel: W132D\nSuite: " ++ suite c ++ "\nCodename: " ++ suite c ++
    "\nDate: " ++ now ++ "\nArchitectures: arm64\nComponents: main\nAcquire-By-Hash: yes\n" ++
    "Description: ZTE W132D maintained packages\n" ++
    (if c = .experimental then "NotAutomatic: yes\nButAutomaticUpgrades: yes\n" else "") ++
    "SHA256:\n" ++ String.join lines).toList

/-- The copy of an index under its hash. -/
def copyByHash (c : Channel) (fs : Files) (name : String) : Except Error Files := do
  let b ← read fs (binary c ++ name)
  return fs.insert (byHash c (t.sha256 b)) b

/-- `sign`, and what is written. -/
def signRelease (c : Channel) (fs : Files) (release : Bytes) : Except Error Files :=
  match t.sign release with
  | none => .error .subprocess
  | some (inRelease, gpg) =>
    .ok (((fs.insert (distribution c ++ "Release") release).insert
      (distribution c ++ "InRelease") inRelease).insert (distribution c ++ "Release.gpg") gpg)

/-- A turn of the loop over the channels. -/
def writeChannel (fetch : String → Option Bytes) (now : String) (state : State)
    (previous : Channel → List Index) (fs : Files) (c : Channel) : Except Error Files := do
  let paragraphs ← (packages (state c)).mapM (paragraph t fs)
  let data := indexBytes paragraphs
  let fs := (fs.insert (binary c ++ "Packages") data).insert (binary c ++ "Packages.gz")
    (t.compress data)
  let fs ← indexNames.foldlM (copyByHash t c) fs
  let fs ← (previous c).foldlM (fun fs item => download t fetch fs item.path item.sha256) fs
  let lines ← indexNames.mapM fun name => do
    return releaseLine t name (← read fs (binary c ++ name))
  signRelease t c fs (releaseBytes now c lines)

/-- The indexes of a channel that `state.json` lists: those that `Release` names, by their
    hashes. -/
def listIndexes (fs : Files) (c : Channel) : Except Error (List Index) := do
  let names ← indexNames.mapM fun name => do
    return byHash c (t.sha256 (← read fs (binary c ++ name)))
  ((fs.keys.filter (· ∈ names)).insertionSort (· ≤ ·)).mapM fun path => do
    return ⟨path, t.sha256 (← read fs path)⟩

/-- The channels, in the order of `RETENTION`. -/
def channels : List Channel := [.stable, .experimental]

/-- `build`, where `previous` is the deployed site, if there is one. -/
def build (previous : Option Site) (attempt : Attempt) : Except Error Site := do
  let candidate := attempt.candidate
  let fetch path := if attempt.reachable path then previous.bind (·.files.lookup path) else none
  let records ← candidate.records.mapM (checkRecord t candidate)
  let state ← raise (nextState p ((previous.map Site.state).getD State.empty) candidate.lock
    records)
  let fs ← (channels.flatMap fun c => packages (state c)).foldlM
    (place t fetch candidate.debs) ∅
  let fs ← channels.foldlM
    (writeChannel t fetch attempt.now state ((previous.map Site.indexes).getD fun _ => [])) fs
  let stable ← listIndexes t fs .stable
  let experimental ← listIndexes t fs .experimental
  let indexes : Channel → List Index
    | .stable => stable
    | .experimental => experimental
  let fs := (fs.insert "state.json" (t.json state indexes)).insert ".nojekyll" []
  raise (require (size fs < maxBytes)
    ("Pages capacity exceeded: " ++ toString (size fs) ++ " bytes"))
  return ⟨fs, state, indexes⟩

/-- The site that is deployed after a publication. -/
def publish (previous : Option Site) (attempt : Attempt) : Option Site :=
  match build t p previous attempt with
  | .ok site => if attempt.deploys then some site else previous
  | .error _ => previous

/-- The site that is deployed after publications, from none. -/
def deployed (attempts : List Attempt) : Option Site :=
  attempts.foldl (publish t p) none

/-! ## Paths with hashes -/

/-- The path of a package is in the pool, under its hash. -/
structure Placed (item : Package) : Prop where
  path : item.path = poolPath item
  file : IsComponent item.file
  sha256 : '/' ∉ item.sha256.toList

/-- The path is for a file of the hash. -/
def Names (path sha256 : String) : Prop :=
  (∃ item, Placed item ∧ path = item.path ∧ sha256 = item.sha256) ∨ ∃ c, path = byHash c sha256

/-- A path has one last part. -/
theorem cut_unique {a a' b b' : List Char} (hb : '/' ∉ b) (hb' : '/' ∉ b')
    (h : a ++ '/' :: b = a' ++ '/' :: b') : a = a' ∧ b = b' := by
  rcases List.append_eq_append_iff.1 h with ⟨l, rfl, hl⟩ | ⟨l, rfl, hl⟩
  · cases l with
    | nil => simpa using hl
    | cons c l =>
      rw [List.cons_append, List.cons.injEq] at hl
      exact absurd (hl.2 ▸ List.mem_append_right l List.mem_cons_self) hb
  · cases l with
    | nil => simpa using hl.symm
    | cons c l =>
      rw [List.cons_append, List.cons.injEq] at hl
      exact absurd (hl.2 ▸ List.mem_append_right l List.mem_cons_self) hb'

/-- The path of a package in the pool, part by part. -/
theorem toList_poolPath (item : Package) : (poolPath item).toList =
    ("pool/main/".toList ++ item.name.toList ++ '/' :: item.sha256.toList) ++
      '/' :: item.file.toList := by
  simp [poolPath]

/-- Two files at one path of the pool have one hash. -/
theorem Placed.unique {item item' : Package} (h : Placed item) (h' : Placed item')
    (hpath : item.path = item'.path) : item.sha256 = item'.sha256 := by
  have hlist : (poolPath item).toList = (poolPath item').toList := by
    rw [← h.path, ← h'.path, hpath]
  rw [toList_poolPath, toList_poolPath] at hlist
  obtain ⟨hdir, _⟩ := cut_unique h.file.2.2.2 h'.file.2.2.2 hlist
  exact String.toList_inj.1 (cut_unique h.sha256 h'.sha256 hdir).2

/-- The pool is not in the directory of a channel. -/
theorem poolPath_ne (item : Package) (c : Channel) (rest : String) :
    poolPath item ≠ distribution c ++ rest := by
  intro h
  have := congrArg String.toList h
  simp [poolPath, distribution] at this

/-- The directories of the channels are apart. -/
theorem distribution_unique {c c' : Channel} {rest rest' : String}
    (h : distribution c ++ rest = distribution c' ++ rest') : c = c' ∧ rest = rest' := by
  have hc : c = c' := by
    have := congrArg String.toList h
    cases c <;> cases c' <;> simp [distribution, suite] at this ⊢
  subst hc
  exact ⟨rfl, (String.append_right_inj _).1 h⟩

/-- The path of an index by its hash, within its channel. -/
theorem byHash_eq (c : Channel) (sha256 : String) :
    byHash c sha256 = distribution c ++ ("main/binary-arm64/by-hash/SHA256/" ++ sha256) := by
  simp [byHash, binary, String.append_assoc]

/-- A copy tells its digest. -/
theorem byHash_unique {c c' : Channel} {sha256 sha256' : String}
    (h : byHash c sha256 = byHash c' sha256') : sha256 = sha256' := by
  rw [byHash_eq, byHash_eq] at h
  exact (String.append_right_inj _).1 (distribution_unique h).2

/-- A path names one digest at most. -/
theorem names_unique {path a b : String} (ha : Names path a) (hb : Names path b) : a = b := by
  rcases ha with ⟨item, hitem, rfl, rfl⟩ | ⟨c, rfl⟩ <;>
    rcases hb with ⟨item', hitem', hpath, rfl⟩ | ⟨c', hpath⟩
  · exact hitem.unique hitem' hpath
  · rw [hitem.path, byHash_eq] at hpath
    exact absurd hpath (poolPath_ne _ _ _)
  · rw [hitem'.path, byHash_eq] at hpath
    exact absurd hpath.symm (poolPath_ne _ _ _)
  · exact byHash_unique hpath

/-- The file is none of a channel's indexes by their hashes. -/
def IsOwn (file : String) : Prop := ∀ sha256, file ≠ "main/binary-arm64/by-hash/SHA256/" ++ sha256

theorem not_names_distribution {file : String} (hfile : IsOwn file) (c : Channel) (h : String) :
    ¬Names (distribution c ++ file) h := by
  rintro (⟨item, hitem, hpath, _⟩ | ⟨c', hpath⟩)
  · rw [hitem.path] at hpath
    exact poolPath_ne _ _ _ hpath.symm
  · rw [byHash_eq] at hpath
    exact hfile h (distribution_unique hpath).2

/-- The path is that of such a file. -/
def OwnPath (c : Channel) (path : String) : Prop :=
  ∃ file, IsOwn file ∧ path = distribution c ++ file

/-- The indexes of a channel are written anew. -/
theorem ownPath_index {name : String} (h : name ∈ indexNames) (c : Channel) :
    OwnPath c (binary c ++ name) := by
  refine ⟨"main/binary-arm64/" ++ name, fun sha256 heq => ?_, by
    rw [binary, String.append_assoc]⟩
  have := congrArg String.toList heq
  simp only [indexNames, List.mem_cons, List.not_mem_nil, or_false] at h
  rcases h with rfl | rfl <;> simp at this

/-- What `signRelease` writes. -/
def releaseNames : List String := ["Release", "InRelease", "Release.gpg"]

theorem ownPath_release {file : String} (h : file ∈ releaseNames) (c : Channel) :
    OwnPath c (distribution c ++ file) := by
  refine ⟨file, fun sha256 heq => ?_, rfl⟩
  have := congrArg String.toList heq
  simp only [releaseNames, List.mem_cons, List.not_mem_nil, or_false] at h
  rcases h with rfl | rfl | rfl <;> simp at this

/-- A file that is written anew has no digest in its path. -/
theorem OwnPath.not_names {c : Channel} {path : String} (h : OwnPath c path) (sha256 : String) :
    ¬Names path sha256 := by
  obtain ⟨file, hfile, rfl⟩ := h
  exact not_names_distribution hfile c sha256

theorem OwnPath.ne_byHash {c : Channel} {path : String} (h : OwnPath c path) (c' : Channel)
    (sha256 : String) : path ≠ byHash c' sha256 :=
  fun heq => h.not_names sha256 (.inr ⟨c', heq⟩)

/-! ## What the steps of a publication do -/

variable {t : Tools} {p : Platform} {fs fs' : Files} {path sha256 : String} {b : Bytes}
  {fetch : String → Option Bytes} {item : Package} {c : Channel}

/-- The step puts a content of the hash at the path, and nothing elsewhere. -/
structure Puts (t : Tools) (fs fs' : Files) (path sha256 : String) : Prop where
  keeps : Keeps t.sha256 Names fs fs'
  holds : Holds t.sha256 fs' path sha256
  other : ∀ path' ≠ path, fs'.lookup path' = fs.lookup path'

/-- Bytes are put at a path that names their digest. -/
theorem puts_insert (hpath : Names path sha256) (hb : t.sha256 b = sha256) :
    Puts t fs (fs.insert path b) path sha256 where
  keeps := keeps_insert fun _ h => hb.trans (names_unique hpath h)
  holds := holds_insert hb
  other _ h := AList.lookup_insert_ne h

/-- A download puts a file that has the digest in its path, or leaves the site as it is. -/
theorem download_puts (hpath : Names path sha256)
    (h : download t fetch fs path sha256 = .ok fs') : Puts t fs fs' path sha256 := by
  rw [download] at h
  split_ifs at h with hhere
  · obtain rfl := Except.ok.inj h
    obtain ⟨b, hb, hsum⟩ := (Option.any_eq_true _ _).1 hhere
    exact ⟨Keeps.refl fs, ⟨b, hb, of_decide_eq_true hsum⟩, fun _ _ => rfl⟩
  · split at h
    · cases h
    · split_ifs at h with hsum
      exact Except.ok.inj h ▸ puts_insert hpath hsum

/-- The place of a package names its digest. -/
theorem Placed.names (h : Placed item) : Names item.path item.sha256 :=
  .inl ⟨item, h, rfl, rfl⟩

/-- A package is put at its place, or is there. -/
theorem place_puts {debs : Files} (hitem : Placed item)
    (h : place t fetch debs fs item = .ok fs') : Puts t fs fs' item.path item.sha256 := by
  rw [place] at h
  split at h
  · split_ifs at h with hsum
    · exact Except.ok.inj h ▸ puts_insert hitem.names hsum
    · exact download_puts hitem.names h
  · exact download_puts hitem.names h

/-- A file is read if it is there. -/
theorem read_eq_ok : read fs path = .ok b ↔ fs.lookup path = some b := by
  rw [read]
  cases fs.lookup path <;> simp

/-- An index is put where its digest says. -/
theorem copyByHash_puts {name : String} (h : copyByHash t c fs name = .ok fs') :
    ∃ b, fs.lookup (binary c ++ name) = some b ∧
      Puts t fs fs' (byHash c (t.sha256 b)) (t.sha256 b) := by
  obtain ⟨b, hb, h⟩ := bind_eq_ok.1 h
  exact ⟨b, read_eq_ok.1 hb, Except.ok.inj h ▸ puts_insert (.inr ⟨c, rfl⟩) rfl⟩

/-- What is returned is the value. -/
theorem raise_eq_ok {α : Type} {x : Except String α} {a : α} : raise x = .ok a ↔ x = .ok a := by
  cases x <;> simp [raise, Except.mapError]

/-- What is written are indexes of the channel under their hashes. -/
structure Copies (t : Tools) (fs fs' : Files) (c : Channel) : Prop where
  keeps : Keeps t.sha256 Names fs fs'
  own : ∀ c' path, OwnPath c' path → fs'.lookup path = fs.lookup path
  outside : ∀ path, (∀ file, path ≠ distribution c ++ file) → fs'.lookup path = fs.lookup path

/-- A copy of an index changes no other file. -/
theorem Puts.copies (h : Puts t fs fs' (byHash c sha256) sha256) : Copies t fs fs' c where
  keeps := h.keeps
  own _ path hpath := h.other path (hpath.ne_byHash c sha256)
  outside path hpath := h.other path fun heq => hpath _ (heq.trans (byHash_eq c sha256))

theorem Copies.trans {fs'' : Files} (h : Copies t fs fs' c) (h' : Copies t fs' fs'' c) :
    Copies t fs fs'' c where
  keeps := h.keeps.trans h'.keeps
  own c' path hpath := (h'.own c' path hpath).trans (h.own c' path hpath)
  outside path hpath := (h'.outside path hpath).trans (h.outside path hpath)

/-- A file that has no hash in its path is written. -/
theorem keeps_own (hpath : OwnPath c path) : Keeps t.sha256 Names fs (fs.insert path b) :=
  keeps_insert fun h hn => absurd hn (hpath.not_names h)

/-! ## Sites -/

/-- The bytes of a `Release`. -/
def releaseOf (t : Tools) (now : String) (c : Channel) (paragraphs : List String) : Bytes :=
  releaseBytes now c [releaseLine t "Packages" (indexBytes paragraphs),
    releaseLine t "Packages.gz" (t.compress (indexBytes paragraphs))]

/-- The files of a channel lead from the signatures to the paragraphs of its packages. -/
structure ServesChannel (t : Tools) (fs : Files) (history : List Entry) (c : Channel)
    (paragraphs : List String) (now : String) (signatures : Bytes × Bytes) : Prop where
  /-- `Packages` has the packages of the history. -/
  listed : (packages history).mapM (paragraph t fs) = .ok paragraphs
  index : fs.lookup (binary c ++ "Packages") = some (indexBytes paragraphs)
  compressed : fs.lookup (binary c ++ "Packages.gz") = some (t.compress (indexBytes paragraphs))
  /-- `Release` has the hashes of both. -/
  release : fs.lookup (distribution c ++ "Release") = some (releaseOf t now c paragraphs)
  signed : t.sign (releaseOf t now c paragraphs) = some signatures
  inRelease : fs.lookup (distribution c ++ "InRelease") = some signatures.1
  gpg : fs.lookup (distribution c ++ "Release.gpg") = some signatures.2
  /-- They are there under these hashes too. -/
  byHash : ∀ b ∈ [indexBytes paragraphs, t.compress (indexBytes paragraphs)],
    Holds t.sha256 fs (byHash c (t.sha256 b)) (t.sha256 b)

/-- What a turn of the loop over the channels does. -/
structure Writes (t : Tools) (now : String) (history : List Entry) (previous : List Index)
    (fs fs' : Files) (c : Channel) : Prop where
  keeps : Keeps t.sha256 Names fs fs'
  other : ∀ path, (∀ file, path ≠ distribution c ++ file) → fs'.lookup path = fs.lookup path
  serves : ∃ paragraphs signatures,
    ServesChannel t fs' history c paragraphs now signatures
  previous : ∀ i ∈ previous, Holds t.sha256 fs' i.path i.sha256

/-- Functions that agree on a list have the same results on it, or the same error. -/
theorem mapM_congr {ε α β : Type} {f g : α → Except ε β} {l : List α}
    (h : ∀ a ∈ l, f a = g a) : l.mapM f = l.mapM g := by
  induction l with
  | nil => rfl
  | cons a l ih =>
    rw [List.mapM_cons, List.mapM_cons, h a List.mem_cons_self,
      ih fun a ha => h a (List.mem_cons_of_mem _ ha)]

/-- The paragraphs of packages whose files are the same. -/
theorem paragraphs_congr {l : List Package}
    (h : ∀ item ∈ l, fs'.lookup item.path = fs.lookup item.path) :
    l.mapM (paragraph t fs') = l.mapM (paragraph t fs) :=
  mapM_congr fun item hitem => by rw [paragraph, paragraph, read, read, h item hitem]

/-- What `signRelease` has written, and nothing else. -/
structure Signs (t : Tools) (c : Channel) (release : Bytes) (signatures : Bytes × Bytes)
    (fs fs' : Files) : Prop where
  signed : t.sign release = some signatures
  release : fs'.lookup (distribution c ++ "Release") = some release
  inRelease : fs'.lookup (distribution c ++ "InRelease") = some signatures.1
  gpg : fs'.lookup (distribution c ++ "Release.gpg") = some signatures.2
  keeps : Keeps t.sha256 Names fs fs'
  other : ∀ path, (∀ file ∈ releaseNames, path ≠ distribution c ++ file) →
    fs'.lookup path = fs.lookup path

/-- The signatures are of the release file that is written with them. -/
theorem signRelease_signs {release : Bytes} (h : signRelease t c fs release = .ok fs') :
    ∃ signatures, Signs t c release signatures fs fs' := by
  rw [signRelease] at h
  split at h
  · cases h
  · rename_i inRelease gpg hsign
    obtain rfl := Except.ok.inj h
    have hne : ∀ a ∈ releaseNames, ∀ b ∈ releaseNames, a ≠ b →
        distribution c ++ a ≠ distribution c ++ b :=
      fun a _ b _ hab heq => hab ((String.append_right_inj _).1 heq)
    have hown : ∀ a ∈ releaseNames, OwnPath c (distribution c ++ a) :=
      fun a ha => ownPath_release ha c
    refine ⟨(inRelease, gpg), hsign, ?_, ?_, AList.lookup_insert _, ?_, fun path hpath => ?_⟩
    · rw [AList.lookup_insert_ne (hne _ (by decide) _ (by decide) (by decide)),
        AList.lookup_insert_ne (hne _ (by decide) _ (by decide) (by decide)),
        AList.lookup_insert]
    · rw [AList.lookup_insert_ne (hne _ (by decide) _ (by decide) (by decide)),
        AList.lookup_insert]
    · exact ((keeps_own (hown _ (by decide))).trans (keeps_own (hown _ (by decide)))).trans
        (keeps_own (hown _ (by decide)))
    · rw [AList.lookup_insert_ne (hpath _ (by decide)),
        AList.lookup_insert_ne (hpath _ (by decide)),
        AList.lookup_insert_ne (hpath _ (by decide))]

/-- The two copies by hash. -/
theorem copies_indexNames {data gz : Bytes}
    (hdata : fs.lookup (binary c ++ "Packages") = some data)
    (hgz : fs.lookup (binary c ++ "Packages.gz") = some gz)
    (h : indexNames.foldlM (copyByHash t c) fs = .ok fs') :
    Copies t fs fs' c ∧
      ∀ b ∈ [data, gz], Holds t.sha256 fs' (byHash c (t.sha256 b)) (t.sha256 b) := by
  rw [indexNames, List.foldlM_cons] at h
  obtain ⟨fs₁, h₁, h⟩ := bind_eq_ok.1 h
  rw [List.foldlM_cons] at h
  obtain ⟨fs₂, h₂, h⟩ := bind_eq_ok.1 h
  obtain rfl := Except.ok.inj h
  obtain ⟨b₁, hb₁, p₁⟩ := copyByHash_puts h₁
  obtain ⟨b₂, hb₂, p₂⟩ := copyByHash_puts h₂
  have hown : OwnPath c (binary c ++ "Packages.gz") := ownPath_index (by decide) c
  obtain rfl : data = b₁ := Option.some.inj (hdata ▸ hb₁)
  obtain rfl : gz = b₂ := Option.some.inj (hgz ▸ (p₁.copies.own c _ hown).symm.trans hb₂)
  refine ⟨p₁.copies.trans p₂.copies, fun b hb => ?_⟩
  simp only [List.mem_cons, List.not_mem_nil, or_false] at hb
  rcases hb with rfl | rfl
  · exact p₂.keeps _ _ (.inr ⟨c, rfl⟩) p₁.holds
  · exact p₂.holds

/-- The indexes of the deployed site. -/
theorem copies_previous {previous : List Index}
    (hprevious : ∀ i ∈ previous, i.path = byHash c i.sha256)
    (h : previous.foldlM (fun fs i => download t fetch fs i.path i.sha256) fs = .ok fs') :
    Copies t fs fs' c ∧ ∀ i ∈ previous, Holds t.sha256 fs' i.path i.sha256 := by
  have hputs : ∀ i ∈ previous, ∀ s s', download t fetch s i.path i.sha256 = .ok s' →
      Copies t s s' c ∧ Holds t.sha256 s' i.path i.sha256 := by
    intro i hi s s' hs
    rw [hprevious i hi] at hs ⊢
    have := download_puts (.inr ⟨c, rfl⟩) hs
    exact ⟨this.copies, this.holds⟩
  refine ⟨⟨Keeps.foldlM (fun i hi s s' hs => (hputs i hi s s' hs).1.keeps) h,
    fun c' path hpath => lookup_foldlM (fun i hi s s' hs => (hputs i hi s s' hs).1.own c' path
      hpath) h,
    fun path hpath => lookup_foldlM (fun i hi s s' hs => (hputs i hi s s' hs).1.outside path
      hpath) h⟩,
    holds_foldlM Names (fun i hi s s' hs => ⟨(hputs i hi s s' hs).1.keeps, (hputs i hi s s' hs).2⟩)
      (fun i hi => .inr ⟨c, hprevious i hi⟩) h⟩

/-- The indexes are in the directory of the channel. -/
theorem binary_eq (c : Channel) (name : String) :
    binary c ++ name = distribution c ++ ("main/binary-arm64/" ++ name) := by
  rw [binary, String.append_assoc]

theorem binary_ne_release {name file : String} (c : Channel)
    (hfile : file ∈ releaseNames) : binary c ++ name ≠ distribution c ++ file := by
  rw [binary_eq, ne_eq, String.append_right_inj]
  intro heq
  have := congrArg String.toList heq
  simp only [releaseNames, List.mem_cons, List.not_mem_nil, or_false] at hfile
  rcases hfile with rfl | rfl | rfl <;> simp at this

theorem index_ne (c : Channel) : binary c ++ "Packages" ≠ binary c ++ "Packages.gz" := by
  rw [ne_eq, String.append_right_inj]
  decide

/-- What the files of a channel are once they were written. -/
theorem writeChannel_writes {now : String} {state : State} {previous : Channel → List Index}
    (hplaced : ∀ item ∈ packages (state c), Placed item)
    (hprevious : ∀ i ∈ previous c, i.path = byHash c i.sha256)
    (h : writeChannel t fetch now state previous fs c = .ok fs') :
    Writes t now (state c) (previous c) fs fs' c := by
  obtain ⟨ps, hps, h⟩ := bind_eq_ok.1 h
  obtain ⟨fs₂, h₂, h⟩ := bind_eq_ok.1 h
  obtain ⟨fs₃, h₃, h⟩ := bind_eq_ok.1 h
  obtain ⟨lines, hlines, h⟩ := bind_eq_ok.1 h
  have hown : ∀ name ∈ indexNames, OwnPath c (binary c ++ name) :=
    fun name hname => ownPath_index hname c
  have hpackages := hown "Packages" (by decide)
  have hgz := hown "Packages.gz" (by decide)
  obtain ⟨copies₂, holds₂⟩ := copies_indexNames
    ((AList.lookup_insert_ne (index_ne c)).trans (AList.lookup_insert _))
    (AList.lookup_insert _) h₂
  obtain ⟨copies₃, holds₃⟩ := copies_previous hprevious h₃
  -- The two indexes are as they were written.
  have hlookup : ∀ path, OwnPath c path → fs₃.lookup path = _ :=
    fun path hpath => (copies₃.own c path hpath).trans (copies₂.own c path hpath)
  have hdata := (hlookup _ hpackages).trans
    ((AList.lookup_insert_ne (index_ne c)).trans (AList.lookup_insert _))
  have hcompressed := (hlookup _ hgz).trans (AList.lookup_insert _)
  have hlines : releaseBytes now c lines = releaseOf t now c ps := by
    simp only [indexNames, List.mapM_cons, List.mapM_nil, read, hdata, hcompressed] at hlines
    rw [releaseOf, ← Except.ok.inj hlines]
  rw [hlines] at h
  obtain ⟨signatures, hsigns⟩ := signRelease_signs h
  have hkeeps : Keeps t.sha256 Names fs fs' :=
    ((((keeps_own hpackages).trans (keeps_own hgz)).trans copies₂.keeps).trans
      copies₃.keeps).trans hsigns.keeps
  have hother : ∀ path, (∀ file, path ≠ distribution c ++ file) →
      fs'.lookup path = fs.lookup path := by
    intro path hpath
    have hbinary : ∀ name, path ≠ binary c ++ name := fun name heq =>
      hpath _ (heq.trans (binary_eq c name))
    rw [hsigns.other path fun file _ => hpath file, copies₃.outside path hpath,
      copies₂.outside path hpath, AList.lookup_insert_ne (hbinary _),
      AList.lookup_insert_ne (hbinary _)]
  have hindex : ∀ name ∈ indexNames, fs'.lookup (binary c ++ name) =
      fs₃.lookup (binary c ++ name) := fun name _ =>
    hsigns.other _ fun file hfile => binary_ne_release c hfile
  refine ⟨hkeeps, hother, ⟨ps, signatures, ?_, ?_, ?_, hsigns.release, hsigns.signed,
    hsigns.inRelease, hsigns.gpg, fun b hb => ?_⟩, fun i hi => ?_⟩
  · rw [← hps]
    refine paragraphs_congr fun item hitem => hother _ fun file => ?_
    rw [(hplaced item hitem).path]
    exact poolPath_ne item c file
  · exact (hindex _ (by decide)).trans hdata
  · exact (hindex _ (by decide)).trans hcompressed
  · exact (copies₃.keeps.trans hsigns.keeps) _ _ (.inr ⟨c, rfl⟩) (holds₂ b hb)
  · exact hsigns.keeps _ _ (.inr ⟨c, hprevious i hi⟩) (holds₃ i hi)

/-- Each path that the signed files of the site lead to has a content of the hash that they give
    for it. -/
structure Serves (t : Tools) (site : Site) : Prop where
  channel : ∀ c, ∃ paragraphs now signatures,
    ServesChannel t site.files (site.state c) c paragraphs now signatures
  pool : ∀ c, ∀ item ∈ packages (site.state c),
    Placed item ∧ Holds t.sha256 site.files item.path item.sha256
  /-- `state.json` lists the two indexes that `Release` names. -/
  indexes : ∀ c i, i ∈ site.indexes c ↔ ∃ name ∈ indexNames, ∃ b,
    site.files.lookup (binary c ++ name) = some b ∧ i = ⟨byHash c (t.sha256 b), t.sha256 b⟩

/-- A client that has read the `Release` of `old` finds in `new` the indexes that it names, by
    their hashes, and the packages of all but the oldest release that they list. -/
structure Hands (t : Tools) (old new : Site) : Prop where
  indexes : ∀ c, ∀ name ∈ indexNames, ∀ b, old.files.lookup (binary c ++ name) = some b →
    Holds t.sha256 new.files (byHash c (t.sha256 b)) (t.sha256 b)
  pool : ∀ c, ∀ item ∈ packages ((old.state c).take (retention c - 1)),
    Holds t.sha256 new.files item.path item.sha256

/-! ## What a publication builds -/

/-- The packages of a history are those of its entries. -/
theorem mem_packages {history : List Entry} :
    item ∈ packages history ↔ ∃ e ∈ history, item ∈ e.packages :=
  List.mem_flatMap

/-- A record that was checked has its place in the pool. -/
theorem checkRecord_placed {candidate : Candidate} {r : Package} (hitem : item ∈ candidate.records)
    (h : checkRecord t candidate item = .ok r) : Placed r := by
  simp only [checkRecord, bind_eq_ok, raise_eq_ok, require_eq_ok] at h
  obtain ⟨b, _, _, hsum, _, _, h⟩ := h
  obtain rfl := Except.ok.inj h
  exact ⟨rfl, (candidate.components item hitem).2, hsum ▸ t.sha256_plain b⟩

/-- The packages of an accepted call are those from before and the new ones. -/
theorem nextState_packages {s s' : State} {lock : Lock} {records : List Package}
    (h : nextState p s lock records = .ok s') (hitem : item ∈ packages (s' c)) :
    item ∈ packages (s c) ∨ item ∈ records := by
  rcases nextState_cases h with ⟨_, _, _, _, _, rfl⟩ | ⟨_, rfl⟩
  · exact .inl hitem
  · obtain ⟨e, he, hmem⟩ := mem_packages.1 hitem
    by_cases hc : c = lock.channel
    · subst hc
      rw [Release.publish, Function.update_self] at he
      rcases List.mem_cons.1 (List.mem_of_mem_take he) with rfl | he
      · exact .inr hmem
      · exact .inl (mem_packages.2 ⟨e, he, hmem⟩)
    · rw [Release.publish, Function.update_of_ne hc] at he
      exact .inl (mem_packages.2 ⟨e, he, hmem⟩)

/-- An accepted call keeps all but the oldest release. -/
theorem nextState_keeps {s s' : State} {lock : Lock} {records : List Package}
    (h : nextState p s lock records = .ok s') {e : Entry}
    (he : e ∈ (s c).take (retention c - 1)) : e ∈ s' c := by
  rcases nextState_cases h with ⟨_, _, _, _, _, rfl⟩ | ⟨_, rfl⟩
  · exact List.mem_of_mem_take he
  · by_cases hc : c = lock.channel
    · subst hc
      obtain ⟨n, hn⟩ := Nat.exists_eq_succ_of_ne_zero (retention_pos lock.channel).ne'
      rw [hn, Nat.succ_sub_one] at he
      rw [Release.publish, Function.update_self, hn, List.take_succ_cons]
      exact List.mem_cons_of_mem _ he
    · rw [Release.publish, Function.update_of_ne hc]
      exact List.mem_of_mem_take he

/-- What is written at the root of the site. -/
theorem keeps_root (t : Tools) (fs : Files) (path : String) (b : Bytes)
    (hpath : path ∈ ["state.json", ".nojekyll"]) :
    Keeps t.sha256 Names fs (fs.insert path b) ∧
      (∀ c file, (fs.insert path b).lookup (distribution c ++ file) =
        fs.lookup (distribution c ++ file)) ∧
      ∀ item, Placed item → (fs.insert path b).lookup item.path = fs.lookup item.path := by
  have hdistribution : ∀ c file, distribution c ++ file ≠ path := by
    intro c file heq
    have := congrArg String.toList heq
    simp only [List.mem_cons, List.not_mem_nil, or_false] at hpath
    rcases hpath with rfl | rfl <;> simp [distribution] at this
  have hpool : ∀ item, poolPath item ≠ path := by
    intro item heq
    have := congrArg String.toList heq
    simp only [List.mem_cons, List.not_mem_nil, or_false] at hpath
    rcases hpath with rfl | rfl <;> simp [poolPath] at this
  refine ⟨keeps_insert fun h hn => ?_, fun c file => AList.lookup_insert_ne (hdistribution c file),
    fun item hitem => AList.lookup_insert_ne (hitem.path ▸ hpool item)⟩
  rcases hn with ⟨item, hitem, heq, _⟩ | ⟨c, heq⟩
  · exact absurd (hitem.path ▸ heq.symm) (hpool item)
  · exact absurd (byHash_eq c h ▸ heq.symm) (hdistribution c _)

/-- What a channel serves depends on its own files, and on packages that are there. -/
theorem ServesChannel.congr {history : List Entry} {paragraphs : List String} {now : String}
    {signatures : Bytes × Bytes} (h : ServesChannel t fs history c paragraphs now signatures)
    (hfiles : ∀ file, fs'.lookup (distribution c ++ file) = fs.lookup (distribution c ++ file))
    (hpool : ∀ item ∈ packages history, fs'.lookup item.path = fs.lookup item.path) :
    ServesChannel t fs' history c paragraphs now signatures where
  listed := (paragraphs_congr hpool).trans h.listed
  index := by rw [binary_eq, hfiles, ← binary_eq, h.index]
  compressed := by rw [binary_eq, hfiles, ← binary_eq, h.compressed]
  release := (hfiles _).trans h.release
  signed := h.signed
  inRelease := (hfiles _).trans h.inRelease
  gpg := (hfiles _).trans h.gpg
  byHash b hb := (h.byHash b hb).congr (by rw [byHash_eq, hfiles])

/-- The content of an index. -/
theorem ServesChannel.mem_of_lookup {history : List Entry} {paragraphs : List String}
    {now name : String} {signatures : Bytes × Bytes}
    (h : ServesChannel t fs history c paragraphs now signatures) (hname : name ∈ indexNames)
    (hb : fs.lookup (binary c ++ name) = some b) :
    b ∈ [indexBytes paragraphs, t.compress (indexBytes paragraphs)] := by
  simp only [indexNames, List.mem_cons, List.not_mem_nil, or_false] at hname ⊢
  rcases hname with rfl | rfl
  · exact .inl (Option.some.inj (hb.symm.trans h.index))
  · exact .inr (Option.some.inj (hb.symm.trans h.compressed))

/-- The indexes that are listed are those of the files. -/
theorem mem_listIndexes {l : List Index} (h : listIndexes t fs c = .ok l)
    (hholds : ∀ name ∈ indexNames, ∀ b, fs.lookup (binary c ++ name) = some b →
      Holds t.sha256 fs (byHash c (t.sha256 b)) (t.sha256 b)) {i : Index} :
    i ∈ l ↔ ∃ name ∈ indexNames, ∃ b, fs.lookup (binary c ++ name) = some b ∧
      i = ⟨byHash c (t.sha256 b), t.sha256 b⟩ := by
  obtain ⟨names, hnames, h⟩ := bind_eq_ok.1 h
  -- The paths that are listed are those of the copies of the two indexes,
  have hmem : ∀ path, path ∈ names ↔ ∃ name ∈ indexNames, ∃ b,
      fs.lookup (binary c ++ name) = some b ∧ path = byHash c (t.sha256 b) := by
    intro path
    rw [mem_mapM_ok hnames]
    refine exists_congr fun name => and_congr_right fun _ => ?_
    rw [bind_eq_ok]
    exact exists_congr fun b => and_congr read_eq_ok
      ⟨fun h => (Except.ok.inj h).symm, fun h => h ▸ rfl⟩
  rw [mem_mapM_ok h]
  constructor
  · -- and the digest of a copy is that of its index.
    rintro ⟨path, hpath, hi⟩
    rw [List.mem_insertionSort, List.mem_filter, decide_eq_true_eq, hmem] at hpath
    obtain ⟨_, name, hname, b, hb, rfl⟩ := hpath
    obtain ⟨b', hb', hi⟩ := bind_eq_ok.1 hi
    obtain ⟨b'', hb'', hsum⟩ := hholds name hname b hb
    obtain rfl : b' = b'' := Option.some.inj ((read_eq_ok.1 hb').symm.trans hb'')
    exact ⟨name, hname, b, hb, by rw [← Except.ok.inj hi, hsum]⟩
  · rintro ⟨name, hname, b, hb, rfl⟩
    obtain ⟨b', hb', hsum⟩ := hholds name hname b hb
    refine ⟨byHash c (t.sha256 b), ?_, bind_eq_ok.2 ⟨b', read_eq_ok.2 hb', ?_⟩⟩
    · rw [List.mem_insertionSort, List.mem_filter, decide_eq_true_eq, hmem]
      refine ⟨AList.mem_keys.1 (AList.lookup_isSome.1 ?_), name, hname, b, hb, rfl⟩
      rw [hb']
      rfl
    · rw [hsum]
      rfl

variable {attempt : Attempt} {previous : Option Site} {site : Site}

/-- The state that a publication starts from. -/
def stateOf (previous : Option Site) : State := (previous.map Site.state).getD State.empty

/-- What `build` does before the last check. -/
theorem build_steps (h : build t p previous attempt = .ok site) :
    ∃ records fetch fs₀ fs₁ fs₂, ∃ indexes : Channel → List Index,
      attempt.candidate.records.mapM (checkRecord t attempt.candidate) = .ok records ∧
      nextState p (stateOf previous) attempt.candidate.lock records = .ok site.state ∧
      (channels.flatMap fun c => packages (site.state c)).foldlM
        (place t fetch attempt.candidate.debs) ∅ = .ok fs₀ ∧
      writeChannel t fetch attempt.now site.state
        ((previous.map Site.indexes).getD fun _ => []) fs₀ .stable = .ok fs₁ ∧
      writeChannel t fetch attempt.now site.state
        ((previous.map Site.indexes).getD fun _ => []) fs₁ .experimental = .ok fs₂ ∧
      (∀ c, listIndexes t fs₂ c = .ok (site.indexes c)) ∧
      site.files = (fs₂.insert "state.json" (t.json site.state indexes)).insert ".nojekyll" [] := by
  obtain ⟨records, hrecords, h⟩ := bind_eq_ok.1 h
  obtain ⟨state, hstate, h⟩ := bind_eq_ok.1 h
  obtain ⟨fs₀, h₀, h⟩ := bind_eq_ok.1 h
  obtain ⟨fs₂, hloop, h⟩ := bind_eq_ok.1 h
  rw [channels, List.foldlM_cons] at hloop
  obtain ⟨fs₁, h₁, hrest⟩ := bind_eq_ok.1 hloop
  rw [List.foldlM_cons] at hrest
  obtain ⟨_, h₂, hnil⟩ := bind_eq_ok.1 hrest
  obtain rfl := Except.ok.inj hnil
  obtain ⟨stable, hstable, h⟩ := bind_eq_ok.1 h
  obtain ⟨experimental, hexperimental, h⟩ := bind_eq_ok.1 h
  obtain ⟨_, _, h⟩ := bind_eq_ok.1 h
  obtain rfl := Except.ok.inj h
  exact ⟨records, _, fs₀, fs₁, _, _, hrecords, raise_eq_ok.1 hstate, h₀, h₁, h₂,
    fun c => (by cases c <;> assumption), rfl⟩

/-- The files after the loop over the channels. -/
structure Written (t : Tools) (now : String) (state : State) (previous : Channel → List Index)
    (fs fs' : Files) : Prop where
  keeps : Keeps t.sha256 Names fs fs'
  serves : ∀ c, ∃ paragraphs signatures,
    ServesChannel t fs' (state c) c paragraphs now signatures
  previous : ∀ c, ∀ i ∈ previous c, Holds t.sha256 fs' i.path i.sha256

/-- Both channels are served once both were written, one after the other. -/
theorem written {now : String} {state : State} {previous : Channel → List Index} {fs₁ : Files}
    (hplaced : ∀ c, ∀ item ∈ packages (state c), Placed item)
    (hprevious : ∀ c, ∀ i ∈ previous c, i.path = byHash c i.sha256)
    (h₁ : writeChannel t fetch now state previous fs .stable = .ok fs₁)
    (h₂ : writeChannel t fetch now state previous fs₁ .experimental = .ok fs') :
    Written t now state previous fs fs' := by
  have w₁ := writeChannel_writes (hplaced _) (hprevious _) h₁
  have w₂ := writeChannel_writes (hplaced _) (hprevious _) h₂
  refine ⟨w₁.keeps.trans w₂.keeps, fun c => ?_, fun c i hi => ?_⟩
  · cases c with
    | stable =>
      -- The other channel writes to another directory.
      obtain ⟨ps, signatures, hserves⟩ := w₁.serves
      refine ⟨ps, signatures, hserves.congr (fun file => w₂.other _ fun file' heq => ?_)
        fun item hitem => w₂.other _ fun file heq => ?_⟩
      · cases (distribution_unique heq).1
      · exact poolPath_ne item _ _ ((hplaced _ item hitem).path ▸ heq)
    | experimental => exact w₂.serves
  · cases c with
    | stable => exact w₂.keeps _ _ (.inr ⟨_, hprevious _ i hi⟩) (w₁.previous i hi)
    | experimental => exact w₂.previous i hi

/-- The indexes that the deployed site lists. -/
def indexesOf (previous : Option Site) : Channel → List Index :=
  (previous.map Site.indexes).getD fun _ => []

/-- An index of a site that serves is kept by its digest. -/
theorem Serves.index_path {old : Site} (h : Serves t old) {i : Index} (hi : i ∈ old.indexes c) :
    i.path = byHash c i.sha256 := by
  obtain ⟨_, _, b, _, rfl⟩ := (h.indexes c i).1 hi
  rfl

/-- Every package of the next state has a path of the pool. -/
theorem next_placed (hprevious : ∀ old ∈ previous, Serves t old) {records : List Package}
    (hrecords : attempt.candidate.records.mapM (checkRecord t attempt.candidate) = .ok records)
    {state : State} (hstate : nextState p (stateOf previous) attempt.candidate.lock records =
      .ok state) : ∀ c, ∀ item ∈ packages (state c), Placed item := by
  intro c item hitem
  rcases nextState_packages hstate hitem with hold | hnew
  · cases previous with
    | none => exact absurd hold (by simp [stateOf, State.empty, packages])
    | some old => exact ((hprevious old rfl).pool c item hold).1
  · obtain ⟨item', hitem', hcheck⟩ := (mem_mapM_ok hrecords).1 hnew
    exact checkRecord_placed hitem' hcheck

/-- The indexes of the previous site are kept by their digests. -/
theorem previous_byHash (hprevious : ∀ old ∈ previous, Serves t old) :
    ∀ c, ∀ i ∈ indexesOf previous c, i.path = byHash c i.sha256 := by
  intro c i hi
  cases previous with
  | none => exact absurd hi List.not_mem_nil
  | some old => exact (hprevious old rfl).index_path hi

/-- After the loop over the retained packages, they are in the pool. -/
theorem holds_place {debs : Files} {state : State} {fs₀ : Files}
    (hplaced : ∀ c, ∀ item ∈ packages (state c), Placed item)
    (h : (channels.flatMap fun c => packages (state c)).foldlM (place t fetch debs) fs = .ok fs₀) :
    ∀ c, ∀ item ∈ packages (state c), Holds t.sha256 fs₀ item.path item.sha256 := by
  have hall : ∀ item ∈ channels.flatMap fun c => packages (state c), Placed item := by
    intro item hitem
    obtain ⟨c, _, hitem⟩ := List.mem_flatMap.1 hitem
    exact hplaced c item hitem
  intro c item hitem
  refine holds_foldlM Names (fun item hitem s s' hs => ?_)
    (fun item hitem => (hall item hitem).names) h item
    (List.mem_flatMap.2 ⟨c, by cases c <;> decide, hitem⟩)
  have hputs := place_puts (hall item hitem) hs
  exact ⟨hputs.keeps, hputs.holds⟩

/-- A publication builds a site that serves its clients and those of the deployed one. -/
theorem build_serves (hprevious : ∀ old ∈ previous, Serves t old)
    (h : build t p previous attempt = .ok site) :
    Serves t site ∧ ∀ old ∈ previous, Hands t old site := by
  obtain ⟨records, fetch, fs₀, fs₁, fs₂, indexes, hrecords, hstate, h₀, h₁, h₂, hlist, hfiles⟩ :=
    build_steps h
  have hplaced := next_placed hprevious hrecords hstate
  have hindexes := previous_byHash hprevious
  have hpool := holds_place hplaced h₀
  have hwritten : Written t attempt.now site.state (indexesOf previous) fs₀ fs₂ :=
    written hplaced hindexes h₁ h₂
  -- What is written last changes neither the pool nor the channels.
  obtain ⟨keeps₃, dist₃, pool₃⟩ :=
    keeps_root t fs₂ "state.json" (t.json site.state indexes) (by decide)
  obtain ⟨keeps₄, dist₄, pool₄⟩ := keeps_root t
    (fs₂.insert "state.json" (t.json site.state indexes)) ".nojekyll" [] (by decide)
  have hkeeps : Keeps t.sha256 Names fs₂ site.files := hfiles ▸ keeps₃.trans keeps₄
  have hdist : ∀ c file, site.files.lookup (distribution c ++ file) =
      fs₂.lookup (distribution c ++ file) :=
    fun c file => hfiles ▸ (dist₄ c file).trans (dist₃ c file)
  have hholds : ∀ c, ∀ item ∈ packages (site.state c),
      Holds t.sha256 site.files item.path item.sha256 := by
    intro c item hitem
    exact (hwritten.keeps.trans hkeeps) _ _ (hplaced c item hitem).names (hpool c item hitem)
  refine ⟨⟨fun c => ?_, fun c item hitem => ⟨hplaced c item hitem, hholds c item hitem⟩,
    fun c i => ?_⟩, fun old hold => ⟨fun c name hname b hb => ?_, fun c item hitem => ?_⟩⟩
  · obtain ⟨ps, signatures, hserves⟩ := hwritten.serves c
    exact ⟨ps, _, signatures, hserves.congr (hdist c) fun item hitem =>
      hfiles ▸ (pool₄ item (hplaced c item hitem)).trans (pool₃ item (hplaced c item hitem))⟩
  · obtain ⟨ps, signatures, hserves⟩ := hwritten.serves c
    rw [mem_listIndexes (hlist c) fun name hname b hb => hserves.byHash b
      (hserves.mem_of_lookup hname hb)]
    have hbinary : ∀ name, site.files.lookup (binary c ++ name) = fs₂.lookup (binary c ++ name) :=
      fun name => by rw [binary_eq, hdist]
    simp only [hbinary]
  · obtain rfl := Option.mem_def.1 hold
    have hi : (⟨byHash c (t.sha256 b), t.sha256 b⟩ : Index) ∈ indexesOf (some old) c :=
      ((hprevious old rfl).indexes c _).2 ⟨name, hname, b, hb, rfl⟩
    exact hkeeps _ _ (.inr ⟨c, rfl⟩) (hwritten.previous c _ hi)
  · obtain rfl := Option.mem_def.1 hold
    obtain ⟨e, he, hitem⟩ := mem_packages.1 hitem
    exact hholds c item (mem_packages.2 ⟨e, nextState_keeps hstate he, hitem⟩)

/-! ## Publications one after the other -/

/-- A site that is published serves, if the previous one does. -/
theorem publish_serves (hprevious : ∀ old ∈ previous, Serves t old) :
    ∀ new ∈ publish t p previous attempt, Serves t new := by
  intro new hnew
  rw [publish] at hnew
  split at hnew
  · rename_i site hsite
    split_ifs at hnew
    · obtain rfl := Option.some.inj hnew
      exact (build_serves hprevious hsite).1
    · exact hprevious new hnew
  · exact hprevious new hnew

/-- One more attempt goes on from what was deployed. -/
theorem deployed_concat (attempts : List Attempt) (attempt : Attempt) :
    deployed t p (attempts ++ [attempt]) = publish t p (deployed t p attempts) attempt := by
  rw [deployed, deployed, List.foldl_append, List.foldl_cons, List.foldl_nil]

/-- Every site that is deployed serves its clients. -/
theorem deployed_serves (attempts : List Attempt) :
    ∀ site ∈ deployed t p attempts, Serves t site := by
  induction attempts using List.reverseRecOn with
  | nil => exact fun _ h => absurd h (by simp [deployed])
  | append_singleton attempts attempt ih =>
    rw [deployed_concat]
    exact publish_serves ih

/-- A site still has what its own `Release` names. -/
theorem Serves.hands (h : Serves t site) : Hands t site site where
  indexes c name hname b hb := by
    obtain ⟨ps, now, signatures, hserves⟩ := h.channel c
    exact hserves.byHash b (hserves.mem_of_lookup hname hb)
  pool c item hitem := by
    obtain ⟨e, he, hitem⟩ := mem_packages.1 hitem
    exact (h.pool c item (mem_packages.2 ⟨e, List.mem_of_mem_take he, hitem⟩)).2

/-- The site that is deployed after a publication serves its clients, and those that have read
    the `Release` before it. -/
structure Continues (t : Tools) (before after : Option Site) : Prop where
  serves : ∀ new ∈ after, Serves t new
  hands : ∀ old ∈ before, ∃ new ∈ after, Hands t old new

/-- A site that is published has what the previous one had. -/
theorem publish_continues (hprevious : ∀ old ∈ previous, Serves t old) :
    Continues t previous (publish t p previous attempt) := by
  refine ⟨publish_serves hprevious, fun old hold => ?_⟩
  have hsame : Hands t old old := (hprevious old hold).hands
  rw [publish]
  split
  · rename_i site hsite
    split_ifs
    · exact ⟨site, rfl, (build_serves hprevious hsite).2 old hold⟩
    · exact ⟨old, hold, hsame⟩
  · exact ⟨old, hold, hsame⟩

/-- **Publications**: after any of them, whether they fail or are deployed, the next one leaves a
    site that serves its clients and those of the site before it. -/
theorem deployed_continues (attempts : List Attempt) (attempt : Attempt) :
    Continues t (deployed t p attempts) (deployed t p (attempts ++ [attempt])) := by
  rw [deployed_concat]
  exact publish_continues (deployed_serves attempts)

/-! ## What a publication can fail for -/

/-- What a publication finds at fault with its own candidate, or what the programs do that it
    calls. -/
def OwnFault (candidate : Candidate) : Error → Prop
  | .missing path =>
    ∃ item ∈ candidate.records, path = item.file ∧ candidate.debs.lookup path = none
  | .value _ | .subprocess => True
  | .request _ | .mismatch _ => False

/-- An error of a check is a `ValueError`. -/
theorem raise_eq_error {α : Type} {x : Except String α} {e : Error} (h : raise x = .error e) :
    ∃ message, e = .value message := by
  cases x with
  | ok a => cases h
  | error message => exact ⟨message, (Except.error.inj h).symm⟩

/-- The error of a file that cannot be read is that it is missing. -/
theorem read_eq_error {e : Error} (h : read fs path = .error e) :
    e = .missing path ∧ fs.lookup path = none := by
  rw [read] at h
  split at h
  · cases h
  · exact ⟨(Except.error.inj h).symm, ‹_›⟩

/-- If a record is refused, this is the candidate's own fault. -/
theorem checkRecord_fault {candidate : Candidate} {e : Error} (hitem : item ∈ candidate.records)
    (h : checkRecord t candidate item = .error e) : OwnFault candidate e := by
  have hvalue : (∃ message, e = .value message) → OwnFault candidate e := by
    rintro ⟨message, rfl⟩
    exact trivial
  rcases bind_eq_error.1 h with h | ⟨_, _, h⟩
  · obtain ⟨rfl, hnone⟩ := read_eq_error h
    exact ⟨item, hitem, rfl, hnone⟩
  rcases bind_eq_error.1 h with h | ⟨_, _, h⟩
  · exact hvalue (raise_eq_error h)
  rcases bind_eq_error.1 h with h | ⟨_, _, h⟩
  · exact hvalue (raise_eq_error h)
  · cases h

/-- The deployed site has the file. -/
def Fetches (t : Tools) (fetch : String → Option Bytes) (path sha256 : String) : Prop :=
  ∃ b, fetch path = some b ∧ t.sha256 b = sha256

/-- A file that can be fetched, and has the digest, is downloaded. -/
theorem download_ok (fs : Files) (h : Fetches t fetch path sha256) :
    ∃ fs', download t fetch fs path sha256 = .ok fs' := by
  obtain ⟨b, hb, hsum⟩ := h
  rw [download]
  split_ifs
  · exact ⟨fs, rfl⟩
  · rw [hb]
    exact ⟨_, if_pos hsum⟩

/-- A package is placed if it is at hand or can be fetched. -/
theorem place_ok {debs : Files} (fs : Files)
    (h : Holds t.sha256 debs item.file item.sha256 ∨ Fetches t fetch item.path item.sha256) :
    ∃ fs', place t fetch debs fs item = .ok fs' := by
  rw [place]
  rcases h with ⟨b, hb, hsum⟩ | h
  · rw [hb]
    exact ⟨_, if_pos hsum⟩
  · split
    · split_ifs
      · exact ⟨_, rfl⟩
      · exact download_ok fs h
    · exact download_ok fs h

/-- The paragraph of a package that is there fails only if the tool does. -/
theorem paragraph_error {e : Error} (hitem : Holds t.sha256 fs item.path item.sha256)
    (h : paragraph t fs item = .error e) : e = .subprocess := by
  obtain ⟨b, hb, _⟩ := hitem
  rcases bind_eq_error.1 h with h | ⟨_, _, h⟩
  · rw [(read_eq_error h).2] at hb
    cases hb
  · split at h
    · cases h
    · exact (Except.error.inj h).symm

/-- The channel has its indexes. -/
def HasIndexes (c : Channel) (fs : Files) : Prop :=
  ∀ name ∈ indexNames, ∃ b, fs.lookup (binary c ++ name) = some b

/-- A copy leaves the indexes. -/
theorem HasIndexes.copies {c' : Channel} (h : HasIndexes c fs) (hcopies : Copies t fs fs' c') :
    HasIndexes c fs' := by
  intro name hname
  rw [hcopies.own c _ (ownPath_index hname c)]
  exact h name hname

theorem copyByHash_ok {name : String} (h : HasIndexes c fs) (hname : name ∈ indexNames) :
    ∃ fs', copyByHash t c fs name = .ok fs' ∧ HasIndexes c fs' := by
  obtain ⟨b, hb⟩ := h name hname
  have hcopy : copyByHash t c fs name = .ok (fs.insert (byHash c (t.sha256 b)) b) := by
    rw [copyByHash, read_eq_ok.2 hb]
    rfl
  obtain ⟨_, _, hputs⟩ := copyByHash_puts hcopy
  exact ⟨_, hcopy, h.copies hputs.copies⟩

theorem download_byHash (h : HasIndexes c fs) (hfetch : Fetches t fetch (byHash c sha256) sha256) :
    ∃ fs', download t fetch fs (byHash c sha256) sha256 = .ok fs' ∧ HasIndexes c fs' := by
  obtain ⟨fs', hfs'⟩ := download_ok fs hfetch
  exact ⟨fs', hfs', h.copies (download_puts (.inr ⟨c, rfl⟩) hfs').copies⟩

/-- Only the programs that are called can fail. -/
theorem writeChannel_error {now : String} {state : State} {previous : Channel → List Index}
    {e : Error}
    (hitems : ∀ item ∈ packages (state c), Holds t.sha256 fs item.path item.sha256)
    (hprevious : ∀ i ∈ previous c, i.path = byHash c i.sha256 ∧ Fetches t fetch i.path i.sha256)
    (h : writeChannel t fetch now state previous fs c = .error e) : e = .subprocess := by
  -- One after the other: the paragraphs, the indexes, their copies, the copies of the previous
  -- site, the lines of `Release`, and its signatures. Only the tools can fail.
  rcases bind_eq_error.1 h with h | ⟨ps, _, h⟩
  · obtain ⟨item, hitem, h⟩ := mapM_eq_error h
    exact paragraph_error (hitems item hitem) h
  -- The indexes have just been written, so that copying them cannot fail,
  have h₁ : HasIndexes c ((fs.insert (binary c ++ "Packages") (indexBytes ps)).insert
      (binary c ++ "Packages.gz") (t.compress (indexBytes ps))) := by
    intro name hname
    simp only [indexNames, List.mem_cons, List.not_mem_nil, or_false] at hname
    rcases hname with rfl | rfl
    · exact ⟨_, (AList.lookup_insert_ne (index_ne c)).trans (AList.lookup_insert _)⟩
    · exact ⟨_, AList.lookup_insert _⟩
  obtain ⟨fs₂, hfs₂, h₂⟩ := foldlM_eq_ok (f := copyByHash t c) h₁
    fun name hname s hs => copyByHash_ok hs hname
  rcases bind_eq_error.1 h with h | ⟨_, hok, h⟩
  · cases hfs₂.symm.trans h
  obtain rfl := Except.ok.inj (hfs₂.symm.trans hok)
  -- and the old copies can be fetched from the previous site.
  obtain ⟨fs₃, hfs₃, h₃⟩ := foldlM_eq_ok (l := previous c)
    (f := fun fs i => download t fetch fs i.path i.sha256) h₂
    fun i hi s hs => by
      obtain ⟨hpath, hfetch⟩ := hprevious i hi
      rw [hpath] at hfetch ⊢
      exact download_byHash hs hfetch
  rcases bind_eq_error.1 h with h | ⟨_, hok, h⟩
  · cases hfs₃.symm.trans h
  obtain rfl := Except.ok.inj (hfs₃.symm.trans hok)
  -- The indexes are still there when their lines are made.
  rcases bind_eq_error.1 h with h | ⟨_, _, h⟩
  · obtain ⟨name, hname, h⟩ := mapM_eq_error h
    obtain ⟨b, hb⟩ := h₃ name hname
    rw [read_eq_ok.2 hb] at h
    cases h
  · rw [signRelease] at h
    split at h
    · exact (Except.error.inj h).symm
    · cases h

/-- The indexes of a channel that is served can be listed. -/
theorem listIndexes_ne_error {history : List Entry} {paragraphs : List String} {now : String}
    {signatures : Bytes × Bytes} {e : Error}
    (hserves : ServesChannel t fs history c paragraphs now signatures) :
    listIndexes t fs c ≠ .error e := by
  have hindexes : HasIndexes c fs := by
    intro name hname
    simp only [indexNames, List.mem_cons, List.not_mem_nil, or_false] at hname
    rcases hname with rfl | rfl
    · exact ⟨_, hserves.index⟩
    · exact ⟨_, hserves.compressed⟩
  intro h
  rcases bind_eq_error.1 h with h | ⟨names, hnames, h⟩
  · obtain ⟨name, hname, h⟩ := mapM_eq_error h
    obtain ⟨b, hb⟩ := hindexes name hname
    rw [read_eq_ok.2 hb] at h
    cases h
  · obtain ⟨path, hpath, h⟩ := mapM_eq_error h
    rw [List.mem_insertionSort, List.mem_filter, decide_eq_true_eq, mem_mapM_ok hnames] at hpath
    obtain ⟨_, name, hname, hread⟩ := hpath
    obtain ⟨b, hb, hpath⟩ := bind_eq_ok.1 hread
    obtain rfl := Except.ok.inj hpath
    obtain ⟨b', hb', _⟩ := hserves.byHash b (hserves.mem_of_lookup hname (read_eq_ok.1 hb))
    rw [read_eq_ok.2 hb'] at h
    cases h

/-- A record that was checked has its file among those of the candidate. -/
theorem checkRecord_holds {candidate : Candidate} {r : Package}
    (h : checkRecord t candidate item = .ok r) :
    Holds t.sha256 candidate.debs r.file r.sha256 := by
  simp only [checkRecord, bind_eq_ok, raise_eq_ok, require_eq_ok, read_eq_ok] at h
  obtain ⟨b, hb, _, hsum, _, _, h⟩ := h
  obtain rfl := Except.ok.inj h
  exact ⟨b, hb, hsum⟩

/-- The previous site has the copies of its indexes. -/
theorem Serves.index_holds {old : Site} (h : Serves t old) {i : Index} (hi : i ∈ old.indexes c) :
    Holds t.sha256 old.files i.path i.sha256 := by
  obtain ⟨name, hname, b, hb, rfl⟩ := (h.indexes c i).1 hi
  exact h.hands.indexes c name hname b hb

/-- What can be read of the deployed site. -/
def fetchOf (previous : Option Site) (attempt : Attempt) (path : String) : Option Bytes :=
  if attempt.reachable path then previous.bind (·.files.lookup path) else none

theorem fetches_of_holds {old : Site} (hreach : ∀ path, attempt.reachable path)
    (h : Holds t.sha256 old.files path sha256) :
    Fetches t (fetchOf (some old) attempt) path sha256 := by
  obtain ⟨b, hb, hsum⟩ := h
  exact ⟨b, by rw [fetchOf, if_pos (hreach path)]; exact hb, hsum⟩

/-- A package of the next state is beside the candidate, or in the deployed site. -/
theorem next_found (hprevious : ∀ old ∈ previous, Serves t old)
    (hreach : ∀ path, attempt.reachable path) {records : List Package}
    (hrecords : attempt.candidate.records.mapM (checkRecord t attempt.candidate) = .ok records)
    {state : State} (hstate : nextState p (stateOf previous) attempt.candidate.lock records =
      .ok state) (hitem : item ∈ packages (state c)) :
    Holds t.sha256 attempt.candidate.debs item.file item.sha256 ∨
      Fetches t (fetchOf previous attempt) item.path item.sha256 := by
  rcases nextState_packages hstate hitem with hold | hnew
  · cases previous with
    | none => exact absurd hold (by simp [stateOf, State.empty, packages])
    | some old => exact .inr (fetches_of_holds hreach ((hprevious old rfl).pool c item hold).2)
  · obtain ⟨item', _, hcheck⟩ := (mem_mapM_ok hrecords).1 hnew
    exact .inl (checkRecord_holds hcheck)

/-- An index that the deployed site lists is there. -/
theorem previous_found (hprevious : ∀ old ∈ previous, Serves t old)
    (hreach : ∀ path, attempt.reachable path) :
    ∀ c, ∀ i ∈ indexesOf previous c, i.path = byHash c i.sha256 ∧
      Fetches t (fetchOf previous attempt) i.path i.sha256 := by
  intro c i hi
  refine ⟨previous_byHash hprevious c i hi, ?_⟩
  cases previous with
  | none => exact absurd hi List.not_mem_nil
  | some old => exact fetches_of_holds hreach ((hprevious old rfl).index_holds hi)

/-- A publication fails for its own candidate, or a program that it calls. -/
theorem build_fault (hprevious : ∀ old ∈ previous, Serves t old)
    (hreach : ∀ path, attempt.reachable path) {e : Error}
    (h : build t p previous attempt = .error e) : OwnFault attempt.candidate e := by
  have hvalue : (∃ message, e = .value message) → OwnFault attempt.candidate e := by
    rintro ⟨message, rfl⟩
    exact trivial
  have hcalled : e = .subprocess → OwnFault attempt.candidate e := fun he => he ▸ trivial
  rcases bind_eq_error.1 h with h | ⟨records, hrecords, h⟩
  · obtain ⟨item, hitem, h⟩ := mapM_eq_error h
    exact checkRecord_fault hitem h
  rcases bind_eq_error.1 h with h | ⟨state, hnext, h⟩
  · exact hvalue (raise_eq_error h)
  have hstate : nextState p (stateOf previous) _ records = .ok state := raise_eq_ok.1 hnext
  have hplaced := next_placed hprevious hrecords hstate
  have hindexes := previous_found hprevious hreach
  -- No package is missing.
  obtain ⟨fs₀, h₀, -⟩ := foldlM_eq_ok (I := fun _ => True) (s := (∅ : Files))
    (l := channels.flatMap fun c => packages (state c))
    (f := place t (fetchOf previous attempt) attempt.candidate.debs) trivial
    fun item hitem s _ => by
      obtain ⟨c, _, hitem⟩ := List.mem_flatMap.1 hitem
      obtain ⟨s', hs'⟩ := place_ok s (next_found hprevious hreach hrecords hstate hitem)
      exact ⟨s', hs', trivial⟩
  have hpool := holds_place hplaced h₀
  rcases bind_eq_error.1 h with h | ⟨_, hok, h⟩
  · cases h₀.symm.trans h
  obtain rfl := Except.ok.inj (h₀.symm.trans hok)
  rcases bind_eq_error.1 h with h | ⟨fs₂, hloop, h⟩
  · rw [channels, List.foldlM_cons] at h
    rcases bind_eq_error.1 h with h | ⟨fs₁, h₁, h⟩
    · exact hcalled (writeChannel_error (hpool _) (hindexes _) h)
    rw [List.foldlM_cons] at h
    rcases bind_eq_error.1 h with h | ⟨_, _, h⟩
    · -- The first channel keeps the packages of the second.
      have w₁ := writeChannel_writes (hplaced _) (previous_byHash hprevious _) h₁
      exact hcalled (writeChannel_error (fun item hitem =>
        w₁.keeps _ _ (hplaced _ item hitem).names (hpool _ item hitem)) (hindexes _) h)
    · cases h
  rw [channels, List.foldlM_cons] at hloop
  obtain ⟨fs₁, h₁, hrest⟩ := bind_eq_ok.1 hloop
  rw [List.foldlM_cons] at hrest
  obtain ⟨_, h₂, hnil⟩ := bind_eq_ok.1 hrest
  obtain rfl := Except.ok.inj hnil
  have hwritten := written hplaced (previous_byHash hprevious) h₁ h₂
  rcases bind_eq_error.1 h with h | ⟨_, _, h⟩
  · obtain ⟨ps, signatures, hserves⟩ := hwritten.serves .stable
    exact absurd h (listIndexes_ne_error hserves)
  rcases bind_eq_error.1 h with h | ⟨_, _, h⟩
  · obtain ⟨ps, signatures, hserves⟩ := hwritten.serves .experimental
    exact absurd h (listIndexes_ne_error hserves)
  rcases bind_eq_error.1 h with h | ⟨_, _, h⟩
  · exact hvalue (raise_eq_error h)
  · cases h

/-- **A publication finds all that it takes from the deployed site**: if that can be reached, it
    fails only for its own candidate, or a program that it calls. -/
theorem deployed_found (attempts : List Attempt) (attempt : Attempt)
    (hreach : ∀ path, attempt.reachable path) {e : Error}
    (h : build t p (deployed t p attempts) attempt = .error e) : OwnFault attempt.candidate e :=
  build_fault (deployed_serves attempts) hreach h

/-! ### A fixture -/

/-- The magic of an `ar` archive. -/
def fixtureMagic : Bytes := encode "!<arch>\n".toList

/-- A package that is its control file behind the magic. -/
def fixtureDeb (version : String) : Bytes :=
  fixtureMagic ++ encode "Package: linux-dtb-edge-rockchip64\nVersion: ".toList ++
    encode version.toList ++ encode "\nArchitecture: arm64".toList

/-- The programs: the digests are those of the files of the fixture, which differ in their
    lengths. -/
def fixtureTools : Tools where
  sha256 b := match b.length with
    -- `Packages` without a package, with one and with two, each also compressed.
    | 1 => "01ba4719c80b6fe911b091a7c05124b64eeece964e09c058ef8f9805daca546b"
    | 11 => "9b749339accb93a8f9c362feba7d0e60335b5a183d5e244a70e2f84bee04dbcb"
    | 320 => "4f09cc8f21dcacffe93393cfd10e193e1497368cd1b41b40705c83eb2b85c879"
    | 330 => "dd3bdf5ac49f4e4bd465cd44ea4466978852bcc40b803a3b38b352c041ab5f8d"
    | 642 => "fcc14cc30d7e757a2077772ff9a431b6b0e5db44a19a8ff07a231fb27a1ed16f"
    | 652 => "11e8f4556d17a29aea0eb79c5b62bb0e688833151ad95b715d6e89e93fece1e6"
    -- The two packages.
    | 84 => "9af4bf96ae82608c41f330cc1fdcf30378808ff5fd9d3e9cb909bd1656a59c5d"
    | 85 => "89e62f8cfbeee49534392e18ea11031d029a437139871f87f546a43ed5996c46"
    | _ => "e3b0c44298fc1c149afbf4c8996fb92427ae41e4649b934ca495991b7852b855"
  sha256_plain b := by split <;> decide +kernel
  compress b := [31, 139, 8, 0, 0, 0, 0, 0, 2, 255] ++ b
  field b :=
    if b.take 8 = fixtureMagic then
      some (String.ofList ((b.drop 8).map fun c => Char.ofNat c.toNat))
    else none
  sign b := some (encode "-----BEGIN PGP SIGNED MESSAGE-----\nHash: SHA512\n\n".toList ++ b,
    encode "-----BEGIN PGP SIGNATURE-----\n".toList)
  json state _ := encode "\x7b\"schema\": 1\x7d".toList ++
    channels.flatMap fun c => (state c).flatMap fun e => encode e.version.toList

/-- The record of a package in `packages.json`. -/
def fixtureRecord (version : String) : Package where
  name := "linux-dtb-edge-rockchip64"
  version := version
  architecture := "arm64"
  file := "linux-dtb-edge-rockchip64_" ++ version ++ "_arm64.deb"
  size := (fixtureDeb version).length
  sha256 := fixtureTools.sha256 (fixtureDeb version)
  path := ""

/-- The first release. -/
def fixtureFirst : Attempt where
  candidate := ⟨fixtureLock .stable "20261016.9.1" "v7.3", [fixtureRecord "20261016.9.1"],
    AList.singleton "linux-dtb-edge-rockchip64_20261016.9.1_arm64.deb"
      (fixtureDeb "20261016.9.1"), by decide +kernel⟩
  now := "Fri, 16 Oct 2026 09:00:00 GMT"
  reachable _ := true
  deploys := true

/-- The second one, which takes the package of the first from the deployed site. -/
def fixtureSecond : Attempt where
  candidate := ⟨fixtureLock .stable "20261017.13.1" "v7.3.1", [fixtureRecord "20261017.13.1"],
    AList.singleton "linux-dtb-edge-rockchip64_20261017.13.1_arm64.deb"
      (fixtureDeb "20261017.13.1"), by decide +kernel⟩
  now := "Sat, 17 Oct 2026 09:00:00 GMT"
  reachable _ := true
  deploys := true

/-- A third one, whose package is not beside the candidate. -/
def fixtureMissing : Attempt where
  candidate := ⟨fixtureLock .stable "20261018.14.1" "v7.3.1", [fixtureRecord "20261018.14.1"], ∅,
    by decide +kernel⟩
  now := "Sun, 18 Oct 2026 09:00:00 GMT"
  reachable _ := true
  deploys := true

/-- Two releases are deployed, and the third publication fails for its missing package. -/
theorem deployed_found_fixture :
    (deployed fixtureTools fixturePlatform [fixtureFirst, fixtureSecond]).map
      (fun site => (site.state .stable).map (·.version)) =
        some ["20261017.13.1", "20261016.9.1"] ∧
    OwnFault fixtureMissing.candidate
      (.missing "linux-dtb-edge-rockchip64_20261018.14.1_arm64.deb") := by
  refine ⟨?_, deployed_found (t := fixtureTools) (p := fixturePlatform)
    [fixtureFirst, fixtureSecond] fixtureMissing (fun _ => rfl) rfl⟩
  -- The texts stay bytes: their characters are slow to evaluate.
  delta deployed publish build writeChannel indexBytes releaseBytes
  simp only [encode_toList]
  decide +kernel

end W132d.Release.Publish
