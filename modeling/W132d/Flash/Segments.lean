import W132d.Checks
import W132d.Flash.Basic

/-!
# The segments that are accepted

* `checkSegment_eq_ok`, `checkSegments_eq_ok`: a manifest passes the checks of its segments
  iff they are the native image split around the reserved range (`Split`);
* `split_of_validate`: so they are if the manifest is valid.

`validate` sorts the segments and goes through them, with the end of the segment before. There are
exactly two, the parts of the image before and behind the reserved range: the first one begins with
the image and is as long as what is before the range, and the second one begins behind the range and
ends with the image. `Split` says this of the manifest, and it is all that the other modules use of
it.
-/

namespace W132d.Flash

theorem raiseIf_eq_ok {p : Prop} [Decidable p] {msg : String} {u : Unit} :
    raiseIf p msg = .ok u ↔ ¬p := by
  by_cases hp : p <;> simp [raiseIf, hp]

@[simp] theorem contained_eq_ok {d : Directory} {name : String} {data : List UInt8} :
    contained d name = .ok data ↔ d name = some data := by
  unfold contained
  cases d name <;> simp

variable {sha256 : List UInt8 → String} {d : Directory} {manifest : Manifest}

/-- The file of a segment is there, and holds what the manifest says. -/
def Stored (sha256 : List UInt8 → String) (d : Directory) (item : Segment)
    (data : List UInt8) : Prop :=
  d item.file = some data ∧ data.length = item.size ∧ sha256 data = item.sha256

/-- A segment passes its check iff its file is stored, and it consists of sectors after the
    previous segment and on one side of the reserved range. -/
theorem checkSegment_eq_ok {low high stop stop' : ℤ} {item : Segment} :
    checkSegment sha256 d low high stop item = .ok stop' ↔
      (∃ data, Stored sha256 d item data) ∧ stop ≤ item.sector ∧ item.size % 512 = 0 ∧
      0 < item.size ∧ (high ≤ item.sector ∨ stop' ≤ low) ∧
      stop' = item.sector + item.size / 512 := by
  simp only [checkSegment, bind_eq_ok, raiseIf_eq_ok, contained_eq_ok, Stored, pure,
    Except.pure, Except.ok.injEq]
  constructor
  · rintro ⟨data, hdata, _, hsum, _, hunit, _, hside, rfl⟩
    rw [not_or, not_not, not_not] at hsum
    exact ⟨⟨data, hdata, hsum⟩, by omega, by omega, by omega, by omega, rfl⟩
  · rintro ⟨⟨data, hdata, hsize, hsum⟩, hsector, hunit, hpos, hside, rfl⟩
    exact ⟨data, hdata, (), by simp [hsize, hsum], (), by omega, (), by omega, rfl⟩

/-- The native image is split around the reserved range. -/
structure Split (sha256 : List UInt8 → String) (d : Directory) (manifest : Manifest)
    (low high : ℤ) (head system : Segment) : Prop where
  schema : manifest.schema = 1
  sectorSize : manifest.sectorSize = 512
  preserveSectors : manifest.preserveSectors = [low, high]
  low_pos : 0 < low
  low_lt : low < high
  segments : manifest.segments.Perm [head, system]
  head_sector : head.sector = 0
  head_size : head.size = low * 512
  system_sector : system.sector = high
  system_pos : 0 < system.size
  system_unit : system.size % 512 = 0
  imageSize : manifest.imageSize = high * 512 + system.size
  stored : ∀ item ∈ [head, system], ∃ data, Stored sha256 d item data

/-- The segments sorted by their sectors, when these are in the order of the list. -/
theorem insertionSort_pair {head system : Segment} {segments : List Segment}
    (hperm : segments.Perm [head, system]) (hlt : head.sector < system.sector) :
    segments.insertionSort (fun s s' => s.sector ≤ s'.sector) = [head, system] := by
  have hcases : segments = [head, system] ∨ segments = [system, head] := by
    match segments, hperm.length_eq with
    | [s, s'], _ =>
      rcases List.mem_pair.1 (hperm.subset (List.mem_cons_self (a := s))) with rfl | rfl
      · left
        rw [List.singleton_perm_singleton.1 ((List.perm_cons _).1 hperm)]
      · right
        have hswap := hperm.trans (List.Perm.swap ..)
        rw [List.singleton_perm_singleton.1 ((List.perm_cons _).1 hswap)]
  rcases hcases with rfl | rfl
  · simp [List.insertionSort, hlt.le]
  · simp [List.insertionSort, hlt.not_ge]

/-- The checks of the segments accept exactly the native image, split around the reserved
    range. -/
theorem checkSegments_eq_ok {low : ℤ} {segments : List Segment} :
    checkSegments sha256 d manifest = .ok (low, segments) ↔
      ∃ high head system, segments = [head, system] ∧
        Split sha256 d manifest low high head system := by
  constructor
  · intro h
    rw [checkSegments, bind_eq_ok] at h
    obtain ⟨_, hschema, h⟩ := h
    rw [raiseIf_eq_ok, not_or, not_not, not_not] at hschema
    split at h
    case h_2 => cases h
    case h_1 low' high hpreserve =>
    rw [bind_eq_ok] at h
    obtain ⟨_, hrange, h⟩ := h
    rw [raiseIf_eq_ok] at hrange
    dsimp only at h
    split at h
    case h_2 => cases h
    case h_1 head system hsort =>
    -- Both turns of the loop, each with the checks that it passed.
    simp only [hsort, List.foldlM_cons, List.foldlM_nil, bind_eq_ok, raiseIf_eq_ok, bind_assoc,
      checkSegment_eq_ok, pure, Except.pure, Except.ok.injEq, Prod.mk.injEq] at h
    obtain ⟨_, hsector, _, ⟨hhead, -, hunit, hpos, -, rfl⟩, _, ⟨hsystem, -, hunit', hpos', -, rfl⟩,
      _, rfl, _, hsize, rfl, rfl⟩ := h
    refine ⟨high, head, system, rfl, ?_⟩
    exact
      { schema := hschema.1
        sectorSize := hschema.2
        preserveSectors := hpreserve
        low_pos := by omega
        low_lt := by omega
        segments := hsort ▸ (List.perm_insertionSort _ _).symm
        head_sector := by omega
        head_size := by omega
        system_sector := by omega
        system_pos := hpos'
        system_unit := hunit'
        imageSize := by omega
        stored := by simpa using ⟨hhead, hsystem⟩ }
  · rintro ⟨high, head, system, rfl, h⟩
    -- The order of the segments is that of their sectors, so that sorting finds it.
    have hlt : head.sector < system.sector := by
      rw [h.head_sector, h.system_sector]
      exact h.low_pos.trans h.low_lt
    have := h.low_pos
    have := h.low_lt
    have := h.head_sector
    have := h.head_size
    have := h.system_sector
    have := h.system_pos
    have := h.system_unit
    have := h.imageSize
    have hstored := h.stored
    simp only [List.forall_mem_cons, List.not_mem_nil, IsEmpty.forall_iff, implies_true,
      and_true] at hstored
    simp only [checkSegments, h.preserveSectors, insertionSort_pair h.segments hlt,
      List.foldlM_cons, List.foldlM_nil, bind_eq_ok, raiseIf_eq_ok, bind_assoc,
      checkSegment_eq_ok, pure, Except.pure, Except.ok.injEq]
    refine ⟨(), by simp [h.schema, h.sectorSize], (), by omega, (), by omega, _,
      ⟨hstored.1, by omega, by omega, by omega, by omega, rfl⟩, _,
      ⟨hstored.2, by omega, by omega, by omega, by omega, rfl⟩, _, rfl, (), by omega, trivial⟩

/-- The segments of a valid manifest are the native image, split around the reserved
    range. -/
theorem split_of_validate (h : validate sha256 d manifest = .ok ()) :
    ∃ low high head system, Split sha256 d manifest low high head system := by
  rw [validate, bind_eq_ok] at h
  obtain ⟨⟨low, segments⟩, hok, -⟩ := h
  obtain ⟨high, head, system, -, hsplit⟩ := checkSegments_eq_ok.1 hok
  exact ⟨low, high, head, system, hsplit⟩

end W132d.Flash
