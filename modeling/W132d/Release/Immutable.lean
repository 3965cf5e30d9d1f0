import Mathlib.Data.String.Basic
import W132d.Cuttable
import W132d.Machine
import W132d.Release.Repository

/-!
# Immutable releases

A sealed candidate is published as a GitHub release, whose assets are its files under their base
names (`immutable` in `release.py`). The release is created if there is none, and then every file
is uploaded, or compared with the asset of its name if that is there already. The process may end
at any command to GitHub, and is started again with the same candidate.

* `Github`: the releases of a project by their tags, and the commits that the tags point to. The
  commands `gh` are functions on it, which fail or change it;
* `immutable`: one attempt to publish;
* `immutable_publishes`: over any number of attempts, however they are cut, no asset changes or
  goes. An attempt that returns leaves exactly the files of the candidate, and one that finds
  another asset, or a tag of another commit, raises.

Before its first command to GitHub, an attempt verifies the candidate and checks it against the
package repository. What `verify` and `remote_state` say is given.

How the theorem is proved: an attempt is a program over GitHub that may be cut before or after each
of its commands, or fail at it (`W132d.Cuttable`). What is said of its parts is said of all ways in
which they can end (`publishFiles_ends`, `releaseAssets_ends`, `immutable_ends`): a step adds one
asset at most, which is a file of the candidate, so that the releases only grow (`Grows`). If the
loop comes to its end, all files are there, and as the assets were all found to be files, there are
no others (`Publishing.published`).

The digest is a parameter. That it tells the assets from the files of their names is asked for only
where a differing asset is to be noticed (`Distinguishes`).
-/

namespace W132d.Release

open Cuttable

/-! ## GitHub -/

/-- A file that is attached to a release. -/
structure Asset where
  name : String
  content : List UInt8
  deriving DecidableEq, Repr

/-- A release. Its assets have different names. -/
structure GithubRelease where
  targetCommitish : String
  draft : Bool
  prerelease : Bool
  assets : List Asset
  nodup : (assets.map Asset.name).Nodup

/-- The releases of a project, by their tags, and the commits of the tags. -/
structure Github where
  releases : String → Option GithubRelease
  tags : String → Option String

namespace Github

variable (tag : String) (g : Github)

/-- The release of a tag in the first page of `gh api repos/.../releases`, if it is `listed`
    there. -/
def list (listed : Bool) : Except String (Option GithubRelease × Github) :=
  .ok (if listed then g.releases tag else none, g)

/-- `gh release create --prerelease`. A tag that is there already keeps its commit. -/
def create (target : String) : Except String (Unit × Github) :=
  match g.releases tag with
  | some _ => .error "a release with the same tag name already exists"
  | none =>
    .ok ((),
      { releases := Function.update g.releases tag (some ⟨target, false, true, [], List.nodup_nil⟩)
        tags := Function.update g.tags tag (some ((g.tags tag).getD target)) })

/-- `gh release view --json assets`. -/
def view : Except String (List Asset × Github) :=
  match g.releases tag with
  | some r => .ok (r.assets, g)
  | none => .error "release not found"

/-- `gh api repos/.../commits/... --jq .sha`. -/
def commit : Except String (String × Github) :=
  match g.tags tag with
  | some c => .ok (c, g)
  | none => .error "No commit found for SHA"

/-- `gh release download`, with the content of the asset. -/
def download (name : String) : Except String (List UInt8 × Github) :=
  match (g.releases tag).bind fun r => r.assets.find? (·.name = name) with
  | some a => .ok (a.content, g)
  | none => .error "no assets match the file pattern"

/-- `gh release upload`. -/
def upload (asset : Asset) : Except String (Unit × Github) :=
  match g.releases tag with
  | none => .error "release not found"
  | some r =>
    if h : asset.name ∈ r.assets.map Asset.name then
      .error "asset under the same name already exists"
    else
      .ok ((),
        { g with
          releases := Function.update g.releases tag (some
            { r with
              assets := r.assets ++ [asset]
              nodup := by
                rw [List.map_append, List.map_singleton]
                exact r.nodup.append (List.nodup_singleton _) (List.disjoint_singleton.2 h) }) })

end Github

/-! ## Candidates -/

/-- A path within the directory of a candidate, by its parts. -/
abbrev Path := List String

/-- `path.name`. -/
def Path.name (path : Path) : String := path.getLast?.getD ""

/-- The directory of a sealed candidate: what `verify` returns, the files that `candidate.json`
    names, their contents, and the packages of `debs/packages.json`. -/
structure Dest where
  verified : Except String Lock
  files : List Path
  content : Path → List UInt8
  records : List Package

/-- `publication_files`. -/
def publicationFiles (dest : Dest) : Except String (List Path) := do
  let paths := dest.files.filter (· ≠ ["w132d.img"]) ++ [["candidate.json"], ["SHA256SUMS"]]
  require ((paths.map Path.name).dedup.length = paths.length) "Ambiguous release asset names"
  return paths.insertionSort (· ≤ ·)

/-- The packages with the paths where the repository has them. -/
def poolRecords (dest : Dest) : List Package :=
  dest.records.map fun item =>
    { item with path := "pool/main/" ++ item.name ++ "/" ++ item.sha256 ++ "/" ++ item.file }

/-- The tag of a release. -/
def tagOf (lock : Lock) : String :=
  "v" ++ String.ofList (lock.version.toList.map fun c => if c = '~' then '-' else c)

/-- The checks of a release that was there before. -/
def checkExisting (lock : Lock) (files : List Path) (assets : List Asset) :
    Option GithubRelease → Except String Unit
  | none => .ok ()
  | some existing => do
    require (existing.targetCommitish = lock.projectCommit)
      "Release points to another project commit"
    require (existing.draft = false) "Existing GitHub release is still a draft"
    require (lock.channel = .stable ∨ existing.prerelease = true)
      "Existing release channel mismatch"
    require (assets.map Asset.name ⊆ files.map Path.name)
      "Existing GitHub release has unexpected assets"

/-- What one attempt meets: the state of the package repository, whether the first page of the
    releases has the one of the candidate, and where the attempt is cut. -/
structure Attempt where
  remoteState : Except String State
  listed : Bool
  faults : List Fault

section

variable (p : Platform) (sha256 : List UInt8 → String) (dest : Dest) (repository : String)

/-- The part of `immutable` before its first command to GitHub. -/
def candidateFiles (attempt : Attempt) : Except String (Lock × List Path) := do
  let lock ← dest.verified
  require (repository ≠ "") "GitHub repository is required"
  let files ← publicationFiles dest
  let previous ← attempt.remoteState
  let _ ← nextState p previous lock (poolRecords dest)
  return (lock, files)

/-- A turn of the loop of `immutable`: a file that is there is compared, another one uploaded. -/
def publishFile (tag : String) (assets : List Asset) (path : Path) : Cuttable Github String Unit :=
  if path.name ∈ assets.map Asset.name then do
    let downloaded ← command (Github.download tag · path.name)
    lift (require (sha256 downloaded = sha256 (dest.content path))
      ("Immutable release asset mismatch: " ++ path.name))
  else command (Github.upload tag · ⟨path.name, dest.content path⟩)

/-- The release is created if the listing did not have it. -/
def createRelease (lock : Lock) : Option GithubRelease → Cuttable Github String Unit
  | none => command (Github.create (tagOf lock) · lock.projectCommit)
  | some _ => pure ()

/-- The part of `immutable` before its loop: the release is there, and is checked. It returns the
    assets. -/
def releaseAssets (lock : Lock) (files : List Path) (listed : Bool) :
    Cuttable Github String (List Asset) := do
  let existing ← command (Github.list (tagOf lock) · listed)
  createRelease lock existing
  let assets ← command (Github.view (tagOf lock))
  lift (checkExisting lock files assets existing)
  let commit ← command (Github.commit (tagOf lock))
  lift (require (commit = lock.projectCommit) "Release tag points to another project commit")
  return assets

/-- `immutable`. -/
def immutable (attempt : Attempt) : Cuttable Github String Unit := do
  let (lock, files) ← lift (candidateFiles p dest repository attempt)
  let assets ← releaseAssets lock files attempt.listed
  files.forM (publishFile sha256 dest (tagOf lock) assets)

end

/-! ## Assets -/

/-- The content of an asset. -/
def GithubRelease.content (r : GithubRelease) (name : String) : Option (List UInt8) :=
  (r.assets.find? (·.name = name)).map Asset.content

/-- The content of an asset of a release. -/
def Github.content (g : Github) (tag name : String) : Option (List UInt8) :=
  (g.releases tag).bind (·.content name)

/-- From `g` to `g'`, no asset and no tag changes or goes, and all new assets are files of the
    candidate. -/
structure Grows (dest : Dest) (files : List Path) (g g' : Github) : Prop where
  kept : ∀ {tag name b}, g.content tag name = some b → g'.content tag name = some b
  tags : ∀ {tag c}, g.tags tag = some c → g'.tags tag = some c
  added : ∀ {tag name b}, g'.content tag name = some b →
    g.content tag name = some b ∨ ∃ path ∈ files, path.name = name ∧ dest.content path = b

variable {p : Platform} {sha256 : List UInt8 → String} {dest : Dest} {repository : String}
  {lock : Lock} {files : List Path} {tag : String} {g g' g'' : Github}

theorem GithubRelease.content_eq_some {r : GithubRelease} {name : String} {b : List UInt8} :
    r.content name = some b ↔ ∃ a ∈ r.assets, a.name = name ∧ a.content = b := by
  rw [content, Option.map_eq_some_iff]
  refine ⟨fun ⟨a, hfind, hb⟩ => ?_, fun ⟨a, ha, hname, hb⟩ => ⟨a, ?_, hb⟩⟩
  · exact ⟨a, List.mem_of_find?_eq_some hfind, by simpa using List.find?_some hfind, hb⟩
  · -- No other asset has this name.
    obtain ⟨a', hfind⟩ := Option.isSome_iff_exists.1
      (List.find?_isSome.2 ⟨a, ha, decide_eq_true hname⟩ :
        (r.assets.find? (·.name = name)).isSome = true)
    have hname' : a'.name = name := by simpa using List.find?_some hfind
    rw [hfind, List.inj_on_of_nodup_map r.nodup (List.mem_of_find?_eq_some hfind) ha
      (hname'.trans hname.symm)]

theorem Github.content_eq_some {name : String} {b : List UInt8} {r : GithubRelease}
    (h : g.releases tag = some r) :
    g.content tag name = some b ↔ ∃ a ∈ r.assets, a.name = name ∧ a.content = b := by
  rw [content, h]
  exact r.content_eq_some

theorem Grows.refl : Grows dest files g g := ⟨id, id, .inl⟩

theorem Grows.trans (h : Grows dest files g g') (h' : Grows dest files g' g'') :
    Grows dest files g g'' where
  kept hb := h'.kept (h.kept hb)
  tags hc := h'.tags (h.tags hc)
  added hb := (h'.added hb).elim h.added .inr

/-- The contents of a release that changes, and of the others. -/
theorem content_update {releases : String → Option GithubRelease} {tags : String → Option String}
    {r : GithubRelease} {tag' name : String} :
    (Github.mk (Function.update releases tag (some r)) tags).content tag' name =
      if tag' = tag then r.content name else (Github.mk releases tags).content tag' name := by
  rw [Github.content, Github.content]
  dsimp only
  split_ifs with h
  · rw [h, Function.update_self]
    rfl
  · rw [Function.update_of_ne h]

/-! ## What the commands do -/

/-- A release that is created has no assets. -/
theorem create_spec {target : String} {u : Unit} (h : Github.create tag g target = .ok (u, g')) :
    (∃ r, g'.releases tag = some r ∧ r.assets = []) ∧
      (∀ tag' name, g'.content tag' name = g.content tag' name) ∧
      ∀ tag' c, g.tags tag' = some c → g'.tags tag' = some c := by
  rw [Github.create] at h
  split at h
  · exact absurd h nofun
  · rename_i hnone
    cases h
    refine ⟨⟨_, Function.update_self .., rfl⟩, fun tag' name => ?_, fun tag' c hc => ?_⟩
    · rw [content_update]
      split_ifs with htag
      · rw [htag, Github.content, hnone]
        rfl
      · rfl
    · dsimp only
      rcases eq_or_ne tag' tag with rfl | hne
      · rw [Function.update_self, hc]
        rfl
      · rwa [Function.update_of_ne hne]

/-- A file that is uploaded is an asset, next to the others. -/
theorem upload_spec {asset : Asset} {u : Unit} (h : Github.upload tag g asset = .ok (u, g')) :
    (∃ r r', g.releases tag = some r ∧ g'.releases tag = some r' ∧
      r'.assets = r.assets ++ [asset]) ∧
      (∀ tag' name b, g.content tag' name = some b → g'.content tag' name = some b) ∧
      (∀ tag' name b, g'.content tag' name = some b →
        g.content tag' name = some b ∨ asset.name = name ∧ asset.content = b) ∧
      g'.tags = g.tags := by
  rw [Github.upload] at h
  split at h
  · exact absurd h nofun
  · rename_i r hr
    split_ifs at h with hname
    cases h
    refine ⟨⟨r, _, hr, Function.update_self .., rfl⟩, fun tag' name b hb => ?_,
      fun tag' name b hb => ?_, rfl⟩
    · rw [content_update]
      split_ifs with htag
      · subst htag
        obtain ⟨a, ha, hb⟩ := (Github.content_eq_some hr).1 hb
        exact GithubRelease.content_eq_some.2 ⟨a, List.mem_append_left _ ha, hb⟩
      · exact hb
    · rw [content_update] at hb
      split_ifs at hb with htag
      · subst htag
        obtain ⟨a, ha, hb⟩ := GithubRelease.content_eq_some.1 hb
        rcases List.mem_append.1 ha with ha | ha
        · exact .inl ((Github.content_eq_some hr).2 ⟨a, ha, hb⟩)
        · rw [List.mem_singleton] at ha
          exact .inr (ha ▸ hb)
      · exact .inl hb

/-! ## The loop -/

/-- A file as an asset. -/
def Dest.asset (dest : Dest) (path : Path) : Asset := ⟨path.name, dest.content path⟩

/-- No asset has the name of the file. -/
def isNew (assets : List Asset) (path : Path) : Bool :=
  decide (path.name ∉ assets.map Asset.name)

/-- From `g₀`, where the release has `assets`, the loop has published the files `done`. -/
structure Publishing (sha256 : List UInt8 → String) (dest : Dest) (files : List Path)
    (tag : String) (assets : List Asset) (g₀ : Github) (done : List Path) (g : Github) : Prop where
  grows : Grows dest files g₀ g
  release : ∃ r, g.releases tag = some r ∧ r.assets =
    assets ++ (done.filter (isNew assets)).map dest.asset
  compared : ∀ path ∈ done, ∀ a ∈ assets, a.name = path.name →
    sha256 a.content = sha256 (dest.content path)

variable {assets : List Asset} {done : List Path} {path : Path}

/-- What is downloaded is the asset of that name. -/
theorem download_spec {name : String} {b : List UInt8}
    (h : Github.download tag g name = .ok (b, g')) : g' = g ∧ g.content tag name = some b := by
  rw [Github.download] at h
  split at h
  · rename_i a ha
    cases h
    refine ⟨rfl, ?_⟩
    obtain ⟨r, hr, hfind⟩ := Option.bind_eq_some_iff.1 ha
    rw [Github.content, hr]
    exact Option.map_eq_some_iff.2 ⟨a, hfind, rfl⟩
  · exact absurd h nofun

/-- The commit of a tag. -/
theorem commit_spec {c : String} (h : Github.commit tag g = .ok (c, g')) :
    g' = g ∧ g.tags tag = some c := by
  rw [Github.commit] at h
  split at h
  · rename_i c' hc
    cases h
    exact ⟨rfl, hc⟩
  · exact absurd h nofun

/-- The next file is published, or the attempt stops. -/
theorem Publishing.next (h : Publishing sha256 dest files tag assets g' done g)
    (hpath : path ∈ files) :
    Ends (publishFile sha256 dest tag assets path) g fun r g'' =>
      (r = .ok () → Publishing sha256 dest files tag assets g' (done ++ [path]) g'') ∧
        Grows dest files g' g'' := by
  obtain ⟨r, hr, hassets⟩ := h.release
  -- An attempt that stops before it changes anything.
  have hstop (e : Stop String) : (Except.error e = Except.ok () →
      Publishing sha256 dest files tag assets g' (done ++ [path]) g) ∧ Grows dest files g' g :=
    ⟨fun hok => (by cases hok), h.grows⟩
  rw [publishFile]
  split_ifs with hname
  · -- The file is there: it is compared, and nothing changes.
    refine ends_read (fun b g'' hd => (download_spec hd).1) hstop
      fun b hd => ends_lift (fun _ hreq => ⟨fun _ => ⟨h.grows, ⟨r, hr, ?_⟩, ?_⟩, h.grows⟩)
        fun _ _ => hstop _
    · have hskip : ¬isNew assets path = true := by
        rw [isNew, decide_eq_true_iff]
        exact not_not.2 hname
      rw [List.filter_append, List.filter_cons_of_neg hskip, List.filter_nil, List.append_nil]
      exact hassets
    · intro path' hpath' a ha heq
      rcases List.mem_append.1 hpath' with hpath' | hpath'
      · exact h.compared path' hpath' a ha heq
      · obtain rfl := List.mem_singleton.1 hpath'
        have ha' : a ∈ r.assets := hassets ▸ List.mem_append_left _ ha
        have hcontent := (Github.content_eq_some hr).2 ⟨a, ha', heq, rfl⟩
        rw [(download_spec hd).2] at hcontent
        rw [← Option.some.inj hcontent]
        exact require_eq_ok.1 hreq
  · -- The file is not there: it is uploaded.
    refine ends_command hstop fun u g'' hup => ?_
    obtain ⟨⟨r₀, r', hr₀, hr', happ⟩, hkept, hadded, htags⟩ := upload_spec hup
    obtain rfl := Option.some.inj (hr.symm.trans hr₀)
    have hgrows : Grows dest files g' g'' := h.grows.trans
      ⟨fun hb => hkept _ _ _ hb, fun hc => htags ▸ hc, fun hb =>
        (hadded _ _ _ hb).imp_right fun hnew => ⟨path, hpath, hnew⟩⟩
    refine ⟨⟨fun _ => ⟨hgrows, ⟨r', hr', ?_⟩, ?_⟩, hgrows⟩, fun hok => (by cases hok), hgrows⟩
    · rw [happ, hassets, List.filter_append, List.filter_cons_of_pos (p := isNew assets)
        (decide_eq_true hname), List.filter_nil, List.map_append, List.append_assoc]
      rfl
    · intro path' hpath' a ha heq
      rcases List.mem_append.1 hpath' with hpath' | hpath'
      · exact h.compared path' hpath' a ha heq
      · obtain rfl := List.mem_singleton.1 hpath'
        exact absurd (heq ▸ List.mem_map_of_mem ha) hname

/-- The loop publishes all files, or stops. -/
theorem publishFiles_ends {r : GithubRelease} (hr : g.releases tag = some r) :
    Ends (files.forM (publishFile sha256 dest tag r.assets)) g fun x g' =>
      Grows dest files g g' ∧
        (x = .ok () → Publishing sha256 dest files tag r.assets g files g') := by
  refine ends_forM (I := Publishing sha256 dest files tag r.assets g)
    ⟨.refl, ⟨r, hr, (List.append_nil _).symm⟩, nofun⟩ (fun done path rest hl s hs => ?_)
    fun s hs => ⟨hs.grows, fun _ => hs⟩
  have hpath : path ∈ files := hl ▸ List.mem_append_right _ List.mem_cons_self
  exact (hs.next hpath).mono fun x g' hx => ⟨hx.1, fun e he => ⟨hx.2, fun h => by
    rw [he] at h
    exact absurd h nofun⟩⟩

/-! ## The checks before the loop -/

/-- The files of a candidate have different names. -/
theorem publicationFiles_nodup (h : publicationFiles dest = .ok files) :
    (files.map Path.name).Nodup := by
  simp only [publicationFiles, bind_eq_ok, require_eq_ok] at h
  obtain ⟨-, hlen, h⟩ := h
  obtain rfl := Except.ok.inj h
  have hdedup := (List.dedup_sublist _).eq_of_length (hlen.trans (List.length_map _).symm)
  exact ((List.perm_insertionSort _ _).map Path.name).nodup_iff.2 (List.dedup_eq_self.1 hdedup)

/-- The checks go from `g` to `g'`, and return the assets of the release, or stop. -/
structure Checked (lock : Lock) (files : List Path) (g : Github)
    (x : Except (Stop String) (List Asset)) (g' : Github) : Prop where
  same : ∀ tag name, g'.content tag name = g.content tag name
  tags : ∀ tag c, g.tags tag = some c → g'.tags tag = some c
  assets : ∀ assets, x = .ok assets →
    (∃ r, g'.releases (tagOf lock) = some r ∧ r.assets = assets) ∧
      assets.map Asset.name ⊆ files.map Path.name ∧
      g'.tags (tagOf lock) = some lock.projectCommit

theorem Checked.grows {x : Except (Stop String) (List Asset)} (h : Checked lock files g x g') :
    Grows dest files g g' where
  kept hb := (h.same _ _).trans hb
  tags hc := h.tags _ _ hc
  added hb := .inl ((h.same _ _).symm.trans hb)

/-- A release that was found, or created, is there. -/
theorem createRelease_ends {existing : Option GithubRelease}
    (h : ∀ r, existing = some r → g.releases (tagOf lock) = some r) :
    Ends (createRelease lock existing) g fun x g' =>
      (∀ tag name, g'.content tag name = g.content tag name) ∧
        (∀ tag c, g.tags tag = some c → g'.tags tag = some c) ∧
        (x = .ok () → ∃ r, g'.releases (tagOf lock) = some r ∧
          (existing = none → r.assets = [])) := by
  cases existing with
  | none =>
    refine ends_command (fun _ => ⟨fun _ _ => rfl, fun _ _ => id, nofun⟩) fun u g' hc => ?_
    obtain ⟨⟨r, hr, hassets⟩, hsame, htags⟩ := create_spec hc
    exact ⟨⟨hsame, htags, fun _ => ⟨r, hr, fun _ => hassets⟩⟩, hsame, htags, nofun⟩
  | some r => exact ends_pure () ⟨fun _ _ => rfl, fun _ _ => id, fun _ => ⟨r, h r rfl, nofun⟩⟩

/-- No asset changes before the loop, and it is reached only if all assets have names of files, and
    the tag is that of the commit. -/
theorem releaseAssets_ends {listed : Bool} :
    Ends (releaseAssets lock files listed) g (Checked lock files g) := by
  have hstop : ∀ {g'}, (∀ tag name, g'.content tag name = g.content tag name) →
      (∀ tag c, g.tags tag = some c → g'.tags tag = some c) →
      ∀ e, Checked lock files g (.error e) g' := fun hsame htags _ => ⟨hsame, htags, nofun⟩
  refine ends_read (fun _ _ hl => (Prod.mk.inj (Except.ok.inj hl)).2.symm)
    (hstop (fun _ _ => rfl) fun _ _ => id) fun existing hl => ?_
  have hexisting : ∀ r, existing = some r → g.releases (tagOf lock) = some r := by
    intro r hr
    rw [← (Prod.mk.inj (Except.ok.inj hl)).1] at hr
    split_ifs at hr
    exact hr
  refine (createRelease_ends hexisting).bind (fun _ g' h => ?_) fun e g' h => hstop h.1 h.2.1 e
  obtain ⟨hsame, htags, hthere⟩ := h
  obtain ⟨r, hr, hnone⟩ := hthere rfl
  have hview : Github.view (tagOf lock) g' = .ok (r.assets, g') := by rw [Github.view, hr]
  refine ends_read (fun _ _ hv => ?_) (hstop hsame htags) fun assets hv => ?_
  · rw [hview] at hv
    exact (Prod.mk.inj (Except.ok.inj hv)).2.symm
  obtain rfl : r.assets = assets := by
    rw [hview] at hv
    exact (Prod.mk.inj (Except.ok.inj hv)).1
  refine ends_check (hstop hsame htags) fun _ hcheck => ?_
  have hsub : r.assets.map Asset.name ⊆ files.map Path.name := by
    cases existing with
    | none =>
      -- The release was created, without assets.
      rw [hnone rfl]
      exact List.nil_subset _
    | some existing =>
      simp only [checkExisting, bind_eq_ok, require_eq_ok] at hcheck
      obtain ⟨_, -, _, -, _, -, hsub⟩ := hcheck
      exact hsub
  refine ends_read (fun _ _ hc => (commit_spec hc).1) (hstop hsame htags) fun c hc => ?_
  refine ends_check (hstop hsame htags) fun _ heq => ends_pure _ ⟨hsame, htags, fun assets h => ?_⟩
  obtain rfl := Except.ok.inj h
  exact ⟨⟨r, hr, rfl⟩, hsub, require_eq_ok.1 heq ▸ (commit_spec hc).2⟩

/-! ## Attempts -/

section

variable (dest : Dest) (files : List Path) (lock : Lock) (g : Github)

/-- The assets of the release are exactly the files of the candidate. -/
def Published : Prop := ∀ name b, g.content (tagOf lock) name = some b ↔
  ∃ path ∈ files, path.name = name ∧ dest.content path = b

/-- The release has an asset that is no file of the candidate. -/
def Unexpected : Prop :=
  ∃ name b, g.content (tagOf lock) name = some b ∧ name ∉ files.map Path.name

/-- An asset of the release has other bytes than the file of its name. -/
def Differing : Prop :=
  ∃ path ∈ files, ∃ b, g.content (tagOf lock) path.name = some b ∧ b ≠ dest.content path

/-- The tag is that of another commit. -/
def OtherCommit : Prop := ∃ c, g.tags (tagOf lock) = some c ∧ c ≠ lock.projectCommit

/-- The digest tells the assets from the files of their names. -/
def Distinguishes (sha256 : List UInt8 → String) : Prop :=
  ∀ path ∈ files, ∀ b, g.content (tagOf lock) path.name = some b →
    sha256 b = sha256 (dest.content path) → b = dest.content path

/-- An attempt that goes from `g` to `g'` and ends with `x` keeps all assets; if it returns, the
    candidate is published; and if it meets another asset or another commit, it fails, which is
    with an error of its own if nothing cuts it. -/
structure KeepsAssets (faults : List Fault) (x : Except (Stop String) Unit) (g' : Github) :
    Prop where
  kept : ∀ tag name b, g.content tag name = some b → g'.content tag name = some b
  published : x = .ok () → Published dest files lock g'
  refused : Unexpected files lock g ∨ Differing dest files lock g ∨ OtherCommit lock g →
    ∃ e, x = .error e
  untouched : Unexpected files lock g ∨ OtherCommit lock g →
    ∀ tag name, g'.content tag name = g.content tag name
  raised : faults = [] → ∀ e, x = .error e → ∃ msg, e = .raised msg

end

variable {attempt : Attempt}

theorem Published.unexpected (h : Published dest files lock g) : ¬Unexpected files lock g := by
  rintro ⟨name, b, hb, hname⟩
  obtain ⟨path, hpath, rfl, -⟩ := (h name b).1 hb
  exact hname (List.mem_map_of_mem hpath)

theorem Published.differing (hnodup : (files.map Path.name).Nodup)
    (h : Published dest files lock g) : ¬Differing dest files lock g := by
  rintro ⟨path, hpath, b, hb, hne⟩
  obtain ⟨path', hpath', hname, hb'⟩ := (h path.name b).1 hb
  obtain rfl := List.inj_on_of_nodup_map hnodup hpath' hpath hname
  exact hne hb'.symm

/-- When the loop has published all files, the release has exactly these. -/
theorem Publishing.published {r : GithubRelease} (hr : g.releases (tagOf lock) = some r)
    (hsub : r.assets.map Asset.name ⊆ files.map Path.name)
    (hsha : Distinguishes dest files lock g sha256)
    (h : Publishing sha256 dest files (tagOf lock) r.assets g files g') :
    Published dest files lock g' := by
  obtain ⟨r', hr', hassets⟩ := h.release
  -- An asset that was there before has the bytes of the file of its name.
  have hsame : ∀ a ∈ r.assets, ∀ path ∈ files, a.name = path.name →
      a.content = dest.content path := fun a ha path hpath hname =>
    hsha path hpath _ ((Github.content_eq_some hr).2 ⟨a, ha, hname, rfl⟩)
      (h.compared path hpath a ha hname)
  intro name b
  rw [Github.content_eq_some hr', hassets]
  constructor
  · rintro ⟨a, ha, rfl, rfl⟩
    rcases List.mem_append.1 ha with ha | ha
    · obtain ⟨path, hpath, hname⟩ := List.mem_map.1 (hsub (List.mem_map_of_mem ha))
      exact ⟨path, hpath, hname, (hsame a ha path hpath hname.symm).symm⟩
    · obtain ⟨path, hpath, rfl⟩ := List.mem_map.1 ha
      exact ⟨path, (List.mem_filter.1 hpath).1, rfl, rfl⟩
  · rintro ⟨path, hpath, rfl, rfl⟩
    by_cases hname : path.name ∈ r.assets.map Asset.name
    · obtain ⟨a, ha, hname⟩ := List.mem_map.1 hname
      exact ⟨a, List.mem_append_left _ ha, hname, hsame a ha path hpath hname⟩
    · refine ⟨dest.asset path, List.mem_append_right _ (List.mem_map_of_mem ?_), rfl, rfl⟩
      exact List.mem_filter.2 ⟨hpath, decide_eq_true hname⟩

variable (p repository attempt) in
/-- What one attempt does, however it is cut. -/
theorem immutable_ends (hlock : dest.verified = .ok lock)
    (hfiles : publicationFiles dest = .ok files) (hsha : Distinguishes dest files lock g sha256) :
    Ends (immutable p sha256 dest repository attempt) g fun x g' =>
      Grows dest files g g' ∧
        (x = .ok () → Published dest files lock g' ∧
          g'.tags (tagOf lock) = some lock.projectCommit) ∧
        (Unexpected files lock g ∨ OtherCommit lock g →
          x ≠ .ok () ∧ ∀ tag name, g'.content tag name = g.content tag name) := by
  refine ends_check (fun _ => ⟨.refl, nofun, fun _ => ⟨nofun, fun _ _ => rfl⟩⟩) ?_
  rintro ⟨lock', files'⟩ hcand
  obtain ⟨rfl, rfl⟩ : lock' = lock ∧ files' = files := by
    simp only [candidateFiles, bind_eq_ok, require_eq_ok] at hcand
    obtain ⟨lock₁, hlock₁, -, -, files₁, hfiles₁, -, -, -, -, heq⟩ := hcand
    obtain ⟨rfl, rfl⟩ := Prod.mk.inj (Except.ok.inj heq)
    exact ⟨Except.ok.inj (hlock₁.symm.trans hlock), Except.ok.inj (hfiles₁.symm.trans hfiles)⟩
  refine releaseAssets_ends.bind (fun assets g₁ h => ?_) fun e g₁ h =>
    ⟨h.grows, nofun, fun _ => ⟨nofun, h.same⟩⟩
  obtain ⟨⟨r, hr, rfl⟩, hsub, hcommit⟩ := h.assets _ rfl
  have hsha₁ : Distinguishes dest files' lock' g₁ sha256 := fun path hpath b hb =>
    hsha path hpath b ((h.same _ _).symm.trans hb)
  -- The loop is not reached if there is an unexpected asset or another commit.
  have hexpected : ¬(Unexpected files' lock' g ∨ OtherCommit lock' g) := by
    rintro (⟨name, b, hb, hname⟩ | ⟨c, hc, hne⟩)
    · rw [← h.same, Github.content_eq_some hr] at hb
      obtain ⟨a, ha, rfl, -⟩ := hb
      exact hname (hsub (List.mem_map_of_mem ha))
    · exact hne (Option.some.inj ((h.tags _ _ hc).symm.trans hcommit))
  exact (publishFiles_ends hr).mono fun x g' hx =>
    ⟨h.grows.trans hx.1, fun hok => ⟨(hx.2 hok).published hr hsub hsha₁, hx.1.tags hcommit⟩,
      fun hbad => absurd hbad hexpected⟩

variable (p sha256 dest repository attempt) in
/-- An attempt that nothing cuts ends with an error of its own, if it fails. -/
theorem immutable_plain : Plain (immutable p sha256 dest repository attempt) := by
  refine (plain_lift _).bind fun ⟨lock, files⟩ => ?_
  refine Plain.bind ?_ fun assets => plain_forM (fun path => ?_) files
  · refine (plain_command _).bind fun existing => Plain.bind ?_ fun _ =>
      (plain_command _).bind fun assets => (plain_lift _).bind fun _ =>
        (plain_command _).bind fun commit => (plain_lift _).bind fun _ => plain_pure _
    cases existing with
    | none => exact plain_command _
    | some r => exact plain_pure _
  · rw [publishFile]
    split_ifs
    · exact (plain_command _).bind fun _ => plain_lift _
    · exact plain_command _

section

variable (p sha256 dest repository)

/-- The machine of the attempts to publish a candidate. -/
def publisher : Machine Github Attempt where
  step g attempt :=
    some ((immutable p sha256 dest repository attempt).runFrom g attempt.faults).2.1

end

/-- Attempts that follow each other only add files of the candidate. -/
theorem publisher_grows (hlock : dest.verified = .ok lock)
    (hfiles : publicationFiles dest = .ok files) (hsha : Distinguishes dest files lock g sha256)
    {attempts : List Attempt}
    (hrun : (publisher p sha256 dest repository).run g attempts = some g') :
    Grows dest files g g' ∧ Distinguishes dest files lock g' sha256 := by
  refine Machine.invariant_of_step (I := fun g' => Grows dest files g g' ∧
    Distinguishes dest files lock g' sha256) (fun g₁ attempt g₂ h hs => ?_) ⟨.refl, hsha⟩ hrun
  obtain rfl := Option.some.inj hs
  have hgrows := h.1.trans
    (immutable_ends p repository attempt hlock hfiles h.2 attempt.faults).1
  refine ⟨hgrows, fun path hpath b hb heq => ?_⟩
  -- An asset was there at first, or is a file, which is the only one of its name.
  rcases hgrows.added hb with hb | ⟨path', hpath', hname, rfl⟩
  · exact hsha path hpath b hb heq
  · rw [List.inj_on_of_nodup_map (publicationFiles_nodup hfiles) hpath' hpath hname]

/-- Over any number of attempts to publish a sealed candidate, from any releases on GitHub and
    however the attempts are cut, no asset changes or goes. An attempt that returns leaves exactly
    the files of the candidate, and one that finds a differing or unexpected asset, or a tag of
    another commit, fails. -/
theorem immutable_publishes (hlock : dest.verified = .ok lock)
    (hfiles : publicationFiles dest = .ok files) (hsha : Distinguishes dest files lock g sha256)
    {attempts : List Attempt}
    (hrun : (publisher p sha256 dest repository).run g attempts = some g') (attempt : Attempt) :
    (∀ tag name b, g.content tag name = some b → g'.content tag name = some b) ∧
      let (x, g'', _) := (immutable p sha256 dest repository attempt).runFrom g' attempt.faults
      KeepsAssets dest files lock g' attempt.faults x g'' := by
  obtain ⟨hgrows, hsha'⟩ := publisher_grows hlock hfiles hsha hrun
  obtain ⟨hgrows', hok, hbad⟩ :=
    immutable_ends p repository attempt hlock hfiles hsha' attempt.faults
  refine ⟨fun _ _ _ => hgrows.kept, fun _ _ _ => hgrows'.kept, fun h => (hok h).1, fun h => ?_,
    fun h => (hbad h).2, fun hfaults e he => ?_⟩
  · cases hx : ((immutable p sha256 dest repository attempt).runFrom g' attempt.faults).1 with
    | error e => exact ⟨e, hx⟩
    | ok u =>
      -- What was found is still there, against what an attempt that returns leaves.
      obtain ⟨hpub, -⟩ := hok hx
      rcases h with h | ⟨path, hpath, b, hb, hne⟩ | h
      · exact absurd hx (hbad (.inl h)).1
      · exact absurd ⟨path, hpath, b, hgrows'.kept hb, hne⟩
          (hpub.differing (publicationFiles_nodup hfiles))
      · exact absurd hx (hbad (.inr h)).1
  · rw [hfaults] at he
    have hcut := (immutable_plain p sha256 dest repository attempt g').1
    cases e with
    | raised msg => exact ⟨msg, rfl⟩
    | cut => exact absurd he hcut

/-! ### A fixture -/

/-- The digests of the contents below. -/
def fixtureDigest (data : List UInt8) : String :=
  if data = [123, 125] then "44136fa355b3678a1146ad16f7e8649e94fb4fc21fe77e8310c060f61caaff8a"
  else if data = [91, 93] then "4f53cda18c2baa0c0354bb5f9a3ecbe5ed12ab4d8e11ba873c2f11161202b945"
  else "01ba4719c80b6fe911b091a7c05124b64eeece964e09c058ef8f9805daca546b"

/-- The lock of the candidate. -/
def candidateLock : Lock := fixtureLock .experimental "20261015.11.1~experimental" "v7.3"

/-- A candidate with two files and an image. -/
def fixtureDest : Dest where
  verified := .ok candidateLock
  files := [["debs", "packages.json"], ["manifest.json"], ["w132d.img"]]
  content path :=
    if path = ["debs", "packages.json"] then [91, 93]
    else if path = ["SHA256SUMS"] then [10]
    else [123, 125]
  records := []

/-- The release of an attempt that uploaded the first two assets. -/
def startedRelease : GithubRelease where
  targetCommitish := candidateLock.projectCommit
  draft := false
  prerelease := true
  assets := [⟨"SHA256SUMS", [10]⟩, ⟨"candidate.json", [123, 125]⟩]
  nodup := by decide

/-- GitHub with this release. -/
def startedGithub : Github where
  releases tag := if tag = "v20261015.11.1-experimental" then some startedRelease else none
  tags tag :=
    if tag = "v20261015.11.1-experimental" then some candidateLock.projectCommit else none

/-- The files that are published. -/
def fixtureFiles : List Path :=
  [["SHA256SUMS"], ["candidate.json"], ["debs", "packages.json"], ["manifest.json"]]

/-- An attempt that is cut after its sixth command, and one that nothing cuts. -/
def cutAttempt : Attempt := ⟨.ok State.empty, true, List.replicate 5 .none ++ [.after]⟩

@[inherit_doc cutAttempt] def plainAttempt : Attempt := ⟨.ok State.empty, true, []⟩

/-- The next attempt uploads one more, and the one after that publishes the candidate. -/
theorem immutable_publishes_cut :
    ∃ g', (publisher fixturePlatform fixtureDigest fixtureDest "w132d/w132d").run startedGithub
        [cutAttempt] = some g' ∧
      (g'.releases (tagOf candidateLock)).map (fun r => r.assets.length) = some 3 ∧
      (∀ tag name b, startedGithub.content tag name = some b → g'.content tag name = some b) ∧
      let (x, g'', _) := (immutable fixturePlatform fixtureDigest fixtureDest "w132d/w132d"
        plainAttempt).runFrom g' []
      x.toBool = true ∧ KeepsAssets fixtureDest fixtureFiles candidateLock g' [] x g'' := by
  have hfiles : publicationFiles fixtureDest = .ok fixtureFiles := by decide +kernel
  have hsame : ∀ path ∈ fixtureFiles,
      startedGithub.content (tagOf candidateLock) path.name = none ∨
        startedGithub.content (tagOf candidateLock) path.name =
          some (fixtureDest.content path) := by
    decide +kernel
  have hsha : Distinguishes fixtureDest fixtureFiles candidateLock startedGithub fixtureDigest := by
    intro path hpath b hb _
    rcases hsame path hpath with h | h
    · exact absurd (h.symm.trans hb) nofun
    · exact Option.some.inj (hb.symm.trans h)
  have hlock : fixtureDest.verified = .ok candidateLock := rfl
  refine ⟨_, rfl, by decide +kernel, ?_⟩
  have h := @immutable_publishes fixturePlatform fixtureDigest fixtureDest "w132d/w132d" _ _ _ _
    hlock hfiles hsha [cutAttempt] rfl plainAttempt
  exact ⟨h.1, by decide +kernel, h.2⟩

end W132d.Release
