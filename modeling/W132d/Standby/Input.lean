import W132d.Bytes
import W132d.Framed
import W132d.Standby.Power

/-!
# Reading the input devices

The input loop of the standby daemon reads the devices with `os.read`, which returns a chunk of
their bytes. It puts the chunk behind what was left of the last one, and takes the events from the
front, each of which is a record of 24 bytes. So an event may come in two chunks, and so may the
events of one press of a key. The chunk buffer, the scan that waits for its `SYN_REPORT` and the
times of the last scans are kept for each descriptor, and dropped when it is closed.

* `Inputs`: what the loop keeps for its descriptors;
* `Inputs.read`: a descriptor is read, which may have reached its end or fail;
* `Device`: what it keeps for one of them;
* `run_device`: of a run, a descriptor that stays open sees nothing but its own chunks;
* `decoding_split`: how the bytes of a device are split into chunks does not matter, and a
  descriptor that is closed leaves nothing behind.

The time of an event is exact, in microseconds.

How the theorem is proved: the general part is in `W132d.Framed`, which says that chunks do not
matter to a reader of records. What is left is that the descriptors do not see each other. What the
loop keeps for one descriptor (`Inputs.device`) is changed by the events of this one only
(`read_apart`), and a record goes by the scans of its own descriptor (`respects_parseRecord`). So in
a run, a descriptor that stays open goes through its own chunks (`run_device`), whatever comes in
between.
-/

namespace W132d.Standby

/-! ## Events as bytes -/

/-- `INPUT_EVENT.size`. -/
def inputEventSize : ℕ := 24

instance : NeZero inputEventSize := ⟨by decide⟩

/-- A signed number of eight bytes in little-endian order. -/
def signed (bytes : List UInt8) : ℤ := (BitVec.ofNat 64 (Bytes.le bytes)).toInt

/-- `INPUT_EVENT.unpack`, with the format `@llHHI`. -/
def unpack (raw : List UInt8) : InputEvent where
  sec := signed (raw.take 8)
  usec := signed ((raw.drop 8).take 8)
  type := Bytes.le ((raw.drop 16).take 2)
  code := Bytes.le ((raw.drop 18).take 2)
  value := Bytes.le ((raw.drop 20).take 4)

/-- A call of `enqueue_power`. -/
structure EnqueuePower where
  eventAt : ℤ
  source : String
  deriving DecidableEq, Repr

/-- The call for a press on the device at a path. -/
def Press.call (path : String) (p : Press) : EnqueuePower where
  eventAt := p.eventAt
  source :=
    match p.scancode with
    | none => path ++ ":KEY_POWER"
    | some scancode => path ++ ":MSC_SCAN=0x" ++ String.ofList (Nat.toDigits 16 scancode)

/-- A record of a device. -/
def parseRecord (fd : ℕ) (path : String) (scans : Scans) (raw : List UInt8) :
    Scans × List EnqueuePower :=
  ((scans.parse fd (unpack raw)).1, (scans.parse fd (unpack raw)).2.toList.map (Press.call path))

/-! ## The loop -/

/-- What the loop keeps: `fds`, `buffers`, `pending_scans` and `last_raw_scans`. -/
structure Inputs where
  fds : ℕ → Option String
  buffers : ℕ → Option (List UInt8)
  scans : Scans

namespace Inputs

/-- The loop as it starts. -/
def init : Inputs := ⟨fun _ => none, fun _ => none, ⟨fun _ => none, fun _ => none⟩⟩

/-- A device is opened, with a descriptor that is not in use. -/
def opened (s : Inputs) (fd : ℕ) (path : String) : Option Inputs :=
  if (s.fds fd).isSome then none
  else some { s with
    fds := Function.update s.fds fd (some path), buffers := Function.update s.buffers fd (some []) }

/-- A device is closed. -/
def close (s : Inputs) (fd : ℕ) : Inputs where
  fds := Function.update s.fds fd none
  buffers := Function.update s.buffers fd none
  scans := s.scans.drop fd

/-- A descriptor of the loop is ready: it gives a chunk, which is empty at the end of the stream, or
    cannot be read. The calls of `enqueue_power` are made in order. -/
def read (s : Inputs) (fd : ℕ) (chunk : Option (List UInt8)) :
    Option (Inputs × List EnqueuePower) :=
  match s.fds fd with
  | none => none
  | some path =>
    match chunk with
    | none | some [] => some (s.close fd, [])
    | some (byte :: bytes) =>
      (s.buffers fd).map fun buffer =>
        let fed := Framed.feed inputEventSize (parseRecord fd path) buffer s.scans (byte :: bytes)
        ({ s with buffers := Function.update s.buffers fd (some fed.1), scans := fed.2.1 }, fed.2.2)

end Inputs

/-- What happens to the loop. -/
inductive Ready where
  | opened (fd : ℕ) (path : String)
  | read (fd : ℕ) (chunk : Option (List UInt8))
  deriving DecidableEq, Repr

/-- The input loop. -/
def inputLoop : Machine Inputs Ready where
  step
    | s, .opened fd path => s.opened fd path
    | s, .read fd chunk => (s.read fd chunk).map (·.1)

namespace Inputs

/-- The calls that a step makes for a descriptor. -/
def calls (fd : ℕ) (s : Inputs) : Ready → List EnqueuePower
  | .opened _ _ => []
  | .read fd' chunk => if fd' = fd then ((s.read fd' chunk).map (·.2)).getD [] else []

/-- What the loop keeps for one descriptor. -/
structure Device where
  path : Option String
  buffer : Option (List UInt8)
  pending : Option (ℤ × ℕ × Bool)
  lastRaw : ℕ → Option ℤ

/-- A descriptor that is not in use. -/
def Device.closed : Device := ⟨none, none, none, fun _ => none⟩

/-- A descriptor that was just opened. -/
def Device.fresh (path : String) : Device := ⟨some path, some [], none, fun _ => none⟩

/-- What the loop keeps for a descriptor. -/
def device (s : Inputs) (fd : ℕ) : Device where
  path := s.fds fd
  buffer := s.buffers fd
  pending := s.scans.pending fd
  lastRaw value := s.scans.lastRaw (fd, value)

/-- The descriptor is in use. -/
def Device.Open (d : Device) : Prop := d.path.isSome ∧ d.buffer.isSome

/-- The event leaves a descriptor open: it is neither opened anew, nor is its end read. -/
def KeepsOpen (fd : ℕ) : Ready → Prop
  | .opened fd' _ => fd' ≠ fd
  | .read fd' chunk => fd' = fd → ∃ byte bytes, chunk = some (byte :: bytes)

/-- The chunk that an event gives for a descriptor. -/
def chunkOf (fd : ℕ) : Ready → Option (List UInt8)
  | .opened _ _ => none
  | .read fd' chunk => if fd' = fd then chunk else none

/-- The bytes of a descriptor. -/
def stream (fd : ℕ) (es : List Ready) : List UInt8 := (es.filterMap (chunkOf fd)).flatten

variable {fd fd' : ℕ} {path : String} {buffer : List UInt8} {s s' t : Inputs} {e : Ready}
  {es : List Ready} {chunk : Option (List UInt8)} {scans scans' : Scans}

/-! ## Descriptors apart -/

/-- The scans of a descriptor are the same. -/
structure Agrees (fd : ℕ) (scans scans' : Scans) : Prop where
  pending : scans.pending fd = scans'.pending fd
  lastRaw : ∀ value, scans.lastRaw (fd, value) = scans'.lastRaw (fd, value)

theorem agrees_refl (fd : ℕ) (scans : Scans) : Agrees fd scans scans := ⟨rfl, fun _ => rfl⟩

theorem Agrees.symm (h : Agrees fd scans scans') : Agrees fd scans' scans :=
  ⟨h.pending.symm, fun value => (h.lastRaw value).symm⟩

theorem Agrees.trans {scans'' : Scans} (h : Agrees fd scans scans')
    (h' : Agrees fd scans' scans'') :
    Agrees fd scans scans'' :=
  ⟨h.pending.trans h'.pending, fun value => (h.lastRaw value).trans (h'.lastRaw value)⟩

/-- A record of a descriptor goes by its scans alone. -/
theorem respects_parseRecord (fd : ℕ) (path : String) :
    Framed.Respects (parseRecord fd path) (Agrees fd) := by
  intro scans scans' raw h
  have hparse : Agrees fd (scans.parse fd (unpack raw)).1 (scans'.parse fd (unpack raw)).1 ∧
      (scans.parse fd (unpack raw)).2 = (scans'.parse fd (unpack raw)).2 := by
    rw [Scans.parse, Scans.parse, h.pending, h.lastRaw]
    dsimp only
    split_ifs
    · refine ⟨⟨by simp only [Function.update_self], fun value => ?_⟩, rfl⟩
      simp only [Function.update_apply, h.lastRaw]
    · exact ⟨⟨by simp only [Function.update_self], h.lastRaw⟩, rfl⟩
    · exact ⟨⟨by simp only [Function.update_self], h.lastRaw⟩, rfl⟩
    · exact ⟨⟨by simp only [Function.update_self], h.lastRaw⟩, rfl⟩
    · exact ⟨h, rfl⟩
  exact ⟨hparse.1, congrArg (fun p => p.toList.map (Press.call path)) hparse.2⟩

/-- A record leaves the scans of other descriptors. -/
theorem parseRecord_frame (hne : fd' ≠ fd) (raw : List UInt8) :
    Agrees fd scans (parseRecord fd' path scans raw).1 := by
  rw [parseRecord, Scans.parse]
  dsimp only
  split_ifs
  · refine ⟨(Function.update_of_ne hne.symm _ _).symm, fun value => ?_⟩
    exact (Function.update_of_ne (fun h => hne (Prod.mk.inj h).1.symm) _ _).symm
  · exact ⟨(Function.update_of_ne hne.symm _ _).symm, fun _ => rfl⟩
  · exact ⟨(Function.update_of_ne hne.symm _ _).symm, fun _ => rfl⟩
  · exact ⟨(Function.update_of_ne hne.symm _ _).symm, fun _ => rfl⟩
  · exact agrees_refl fd scans

/-! ## Steps -/

/-- A chunk of a descriptor that is in use. -/
theorem read_chunk (byte : UInt8) (bytes : List UInt8) (hpath : s.fds fd = some path)
    (hbuffer : s.buffers fd = some buffer) :
    s.read fd (some (byte :: bytes)) =
      let fed := Framed.feed inputEventSize (parseRecord fd path) buffer s.scans (byte :: bytes)
      some ({ s with buffers := Function.update s.buffers fd (some fed.1), scans := fed.2.1 },
        fed.2.2) := by
  rw [read, hpath]
  dsimp only
  rw [hbuffer]
  rfl

/-- What a step does for the descriptors that it is not about. -/
structure Apart (fd : ℕ) (s s' : Inputs) : Prop where
  path : s'.fds fd = s.fds fd
  buffer : s'.buffers fd = s.buffers fd
  scans : Agrees fd s.scans s'.scans

theorem Apart.device (h : Apart fd s s') : s'.device fd = s.device fd := by
  rw [Inputs.device, Inputs.device, h.path, h.buffer, h.scans.pending]
  simp only [h.scans.lastRaw]

theorem opened_apart (hne : fd' ≠ fd) (hstep : s.opened fd' path = some s') : Apart fd s s' := by
  rw [opened] at hstep
  split_ifs at hstep
  obtain rfl := Option.some.inj hstep
  exact ⟨Function.update_of_ne hne.symm _ _, Function.update_of_ne hne.symm _ _, agrees_refl fd _⟩

theorem close_apart (hne : fd' ≠ fd) : Apart fd s (s.close fd') :=
  ⟨Function.update_of_ne hne.symm _ _, Function.update_of_ne hne.symm _ _,
    (Function.update_of_ne hne.symm _ _).symm, fun _ => (if_neg hne.symm).symm⟩

theorem read_apart {calls : List EnqueuePower} (hne : fd' ≠ fd)
    (hstep : s.read fd' chunk = some (s', calls)) : Apart fd s s' := by
  rw [read] at hstep
  split at hstep
  · exact absurd hstep nofun
  · rename_i path _
    split at hstep
    · obtain ⟨rfl, -⟩ := Prod.mk.inj (Option.some.inj hstep)
      exact close_apart hne
    · obtain ⟨rfl, -⟩ := Prod.mk.inj (Option.some.inj hstep)
      exact close_apart hne
    · obtain ⟨buffer, -, heq⟩ := Option.map_eq_some_iff.1 hstep
      obtain ⟨rfl, -⟩ := Prod.mk.inj heq
      refine ⟨rfl, Function.update_of_ne hne.symm _ _, ?_⟩
      exact Framed.drain_invariant (I := Agrees fd s.scans)
        (fun _ raw h => h.trans (parseRecord_frame hne raw)) (agrees_refl fd s.scans)

/-- A descriptor that is closed leaves nothing behind. -/
theorem device_close (s : Inputs) (fd : ℕ) : (s.close fd).device fd = .closed := by
  rw [device, close, Scans.drop, Device.closed]
  simp only [Function.update_self, if_true]

/-- An event that leaves a descriptor open is a chunk of it, or does nothing for it. -/
theorem step_keepsOpen (hopen : KeepsOpen fd e) (hstep : inputLoop.step s e = some s') :
    (∃ byte bytes, e = .read fd (some (byte :: bytes))) ∨
      (chunkOf fd e = none ∧ calls fd s e = [] ∧ Apart fd s s') := by
  cases e with
  | opened fd' path => exact .inr ⟨rfl, rfl, opened_apart hopen hstep⟩
  | read fd' chunk =>
    rcases eq_or_ne fd' fd with rfl | hne
    · obtain ⟨byte, bytes, rfl⟩ := hopen rfl
      exact .inl ⟨byte, bytes, rfl⟩
    · obtain ⟨⟨t, out⟩, hread, rfl⟩ := Option.map_eq_some_iff.1 hstep
      exact .inr ⟨if_neg hne, if_neg hne, read_apart hne hread⟩

/-! ## Runs -/

/-- Of a run, a descriptor that stays open sees nothing but its own chunks, one after the other. -/
theorem run_device (hpath : s.fds fd = some path) (hbuffer : s.buffers fd = some buffer)
    (hopen : ∀ e ∈ es, KeepsOpen fd e) (hrun : inputLoop.run s es = some t) :
    let fed := Framed.feedAll inputEventSize (parseRecord fd path) buffer s.scans
      (es.filterMap (chunkOf fd))
    t.fds fd = some path ∧ t.buffers fd = some fed.1 ∧ Agrees fd fed.2.1 t.scans ∧
      inputLoop.outputs (calls fd) s es = fed.2.2 := by
  induction es generalizing s buffer with
  | nil =>
    rw [Machine.run_nil, Option.some_inj] at hrun
    exact hrun ▸ ⟨hpath, hbuffer, agrees_refl fd s.scans, rfl⟩
  | cons e es ih =>
    rw [List.forall_mem_cons] at hopen
    obtain ⟨s', hstep, hrun⟩ := Machine.run_cons_eq_some hrun
    rw [Machine.outputs, hstep]
    dsimp only
    obtain ⟨byte, bytes, rfl⟩ | ⟨hchunk, hcalls, hapart⟩ := step_keepsOpen hopen.1 hstep
    · have hread := read_chunk byte bytes hpath hbuffer
      have hchunk : chunkOf fd (.read fd (some (byte :: bytes))) = some (byte :: bytes) :=
        if_pos rfl
      change (s.read fd (some (byte :: bytes))).map (·.1) = some s' at hstep
      rw [hread] at hstep
      obtain rfl := Option.some.inj hstep
      rw [List.filterMap_cons_some hchunk, calls, if_pos rfl, hread]
      set fed := Framed.feed inputEventSize (parseRecord fd path) buffer s.scans (byte :: bytes)
        with hfed
      obtain ⟨hfds, hbuffers, hscans, hout⟩ := @ih fed.1
        ⟨s.fds, Function.update s.buffers fd (some fed.1), fed.2.1⟩ hpath
        (Function.update_self ..) hopen.2 hrun
      exact ⟨hfds, hbuffers, hscans, congrArg (fed.2.2 ++ ·) hout⟩
    · obtain ⟨hfds, hbuffers, hscans, hout⟩ := ih (hapart.path.trans hpath)
        (hapart.buffer.trans hbuffer) hopen.2 hrun
      -- The scans of other descriptors do not matter.
      obtain ⟨hleft, hagrees, hsame⟩ := Framed.feedAll_rel (n := inputEventSize) buffer
        (es.filterMap (chunkOf fd)) (respects_parseRecord fd path) hapart.scans
      rw [List.filterMap_cons_none hchunk, hcalls, List.nil_append, hout]
      exact ⟨hfds, hleft ▸ hbuffers, hagrees.trans hscans, hsame.symm⟩

theorem nil_notMem_chunks (hopen : ∀ e ∈ es, KeepsOpen fd e) :
    [] ∉ es.filterMap (chunkOf fd) := by
  intro hmem
  obtain ⟨e, he, hchunk⟩ := List.mem_filterMap.1 hmem
  cases e with
  | opened fd' path => exact absurd hchunk nofun
  | read fd' chunk =>
    rw [chunkOf] at hchunk
    split_ifs at hchunk with hfd
    obtain ⟨byte, bytes, rfl⟩ := hopen _ he hfd
    exact absurd hchunk nofun

/-- If a descriptor is not in use, nothing is kept for it. -/
def Tidy (s : Inputs) : Prop := ∀ fd, s.fds fd = none → s.device fd = .closed

theorem step_tidy (hs : Tidy s) (hstep : inputLoop.step s e = some s') : Tidy s' := by
  intro fd hfd
  have hother : Apart fd s s' → s'.device fd = .closed := fun h =>
    h.device.trans (hs fd (h.path ▸ hfd))
  cases e with
  | opened fd' path =>
    rcases eq_or_ne fd' fd with rfl | hne
    · change s.opened fd' path = some s' at hstep
      rw [opened] at hstep
      split_ifs at hstep
      obtain rfl := Option.some.inj hstep
      exact absurd ((Function.update_self ..).symm.trans hfd) nofun
    · exact hother (opened_apart hne hstep)
  | read fd' chunk =>
    obtain ⟨⟨t, out⟩, hread, rfl⟩ := Option.map_eq_some_iff.1 hstep
    rcases eq_or_ne fd' fd with rfl | hne
    · rw [read] at hread
      split at hread
      · exact absurd hread nofun
      · rename_i path hpath
        split at hread
        · obtain ⟨rfl, -⟩ := Prod.mk.inj (Option.some.inj hread)
          exact device_close s fd'
        · obtain ⟨rfl, -⟩ := Prod.mk.inj (Option.some.inj hread)
          exact device_close s fd'
        · obtain ⟨buffer, -, heq⟩ := Option.map_eq_some_iff.1 hread
          obtain ⟨rfl, -⟩ := Prod.mk.inj heq
          exact absurd (hpath.symm.trans hfd) nofun
    · exact hother (read_apart hne hread)

/-- How the bytes of a device that is open are split into chunks, and what happens to other devices
    meanwhile, makes no difference to the calls of `enqueue_power` and to what is kept for it. When
    a device is closed, nothing is kept for its descriptor, so that it starts clean when it is used
    again. -/
theorem decoding_split (fd : ℕ) :
    (∀ s₁ s₂ es₁ es₂ t₁ t₂, s₁.device fd = s₂.device fd → (s₁.device fd).Open →
      (∀ e ∈ es₁, KeepsOpen fd e) → (∀ e ∈ es₂, KeepsOpen fd e) → stream fd es₁ = stream fd es₂ →
      inputLoop.run s₁ es₁ = some t₁ → inputLoop.run s₂ es₂ = some t₂ →
      inputLoop.outputs (calls fd) s₁ es₁ = inputLoop.outputs (calls fd) s₂ es₂ ∧
        t₁.device fd = t₂.device fd) ∧
    (∀ s chunk s', chunk = none ∨ chunk = some [] →
      inputLoop.step s (.read fd chunk) = some s' → s'.device fd = .closed) ∧
    ∀ es s path s', inputLoop.run init es = some s →
      inputLoop.step s (.opened fd path) = some s' → s'.device fd = .fresh path := by
  refine ⟨?_, ?_, ?_⟩
  · intro s₁ s₂ es₁ es₂ t₁ t₂ hdevice ⟨hpath, hbuffer⟩ hopen₁ hopen₂ hstream hrun₁ hrun₂
    obtain ⟨path, hpath⟩ := Option.isSome_iff_exists.1 hpath
    obtain ⟨buffer, hbuffer⟩ := Option.isSome_iff_exists.1 hbuffer
    have hscans : Agrees fd s₁.scans s₂.scans :=
      ⟨congrArg Device.pending hdevice, congrFun (congrArg Device.lastRaw hdevice)⟩
    have hpath₂ : s₂.fds fd = some path := (congrArg Device.path hdevice).symm.trans hpath
    have hbuffer₂ : s₂.buffers fd = some buffer :=
      (congrArg Device.buffer hdevice).symm.trans hbuffer
    obtain ⟨hfds₁, hbuffers₁, hscans₁, hout₁⟩ := run_device hpath hbuffer hopen₁ hrun₁
    obtain ⟨hfds₂, hbuffers₂, hscans₂, hout₂⟩ := run_device hpath₂ hbuffer₂ hopen₂ hrun₂
    obtain ⟨hleft, hagrees, hsame⟩ := Framed.feedAll_rel (n := inputEventSize) buffer
      (es₁.filterMap (chunkOf fd)) (respects_parseRecord fd path) hscans
    -- The bytes are the same, so that the records that are cut from them are.
    have hsplit := Framed.feedAll_split (n := inputEventSize) (f := parseRecord fd path)
      buffer s₂.scans (nil_notMem_chunks hopen₁) (nil_notMem_chunks hopen₂)
      hstream
    rw [hsplit] at hleft hagrees hsame
    refine ⟨hout₁.trans (hsame.trans hout₂.symm), Apart.device ⟨?_, ?_, ?_⟩⟩
    · exact hfds₁.trans hfds₂.symm
    · rw [hbuffers₁, hbuffers₂, hleft]
    · exact hscans₂.symm.trans (hagrees.symm.trans hscans₁)
  · intro s chunk s' hchunk hstep
    obtain ⟨⟨t, out⟩, hread, rfl⟩ := Option.map_eq_some_iff.1 hstep
    rw [read] at hread
    split at hread
    · exact absurd hread nofun
    · rcases hchunk with rfl | rfl
      · obtain ⟨rfl, -⟩ := Prod.mk.inj (Option.some.inj hread)
        exact device_close s fd
      · obtain ⟨rfl, -⟩ := Prod.mk.inj (Option.some.inj hread)
        exact device_close s fd
  · intro es s path s' hrun hstep
    -- Nothing is kept for a descriptor that is not open.
    have htidy : Tidy s := Machine.invariant_of_step (I := Tidy)
      (fun _ _ _ hs hstep => step_tidy hs hstep) (fun _ _ => rfl) hrun
    change s.opened fd path = some s' at hstep
    rw [opened] at hstep
    split_ifs at hstep with hfd
    obtain rfl := Option.some.inj hstep
    have hclosed := htidy fd (Option.not_isSome_iff_eq_none.1 hfd)
    have hpending : s.scans.pending fd = none := congrArg Device.pending hclosed
    have hlast : ∀ value, s.scans.lastRaw (fd, value) = none :=
      congrFun (congrArg Device.lastRaw hclosed)
    rw [device, Device.fresh]
    simp only [Function.update_self, hpending, hlast]

/-- The bytes of a press of the power key. -/
def pressBytes : List UInt8 :=
  [1, 0, 0, 0, 0, 0, 0, 0, 0, 0, 0, 0, 0, 0, 0, 0, 1, 0, 116, 0, 1, 0, 0, 0]

/-- The loop with one device. -/
def oneDevice : Inputs where
  fds := Function.update init.fds 3 (some "/dev/input/event0")
  buffers := Function.update init.buffers 3 (some [])
  scans := init.scans

theorem decoding_split_press : ∃ t₁ t₂,
    inputLoop.run oneDevice [.read 3 (some pressBytes)] = some t₁ ∧
      inputLoop.run oneDevice
        [.read 3 (some (pressBytes.take 17)), .read 3 (some (pressBytes.drop 17))] = some t₂ ∧
      inputLoop.outputs (calls 3) oneDevice [.read 3 (some pressBytes)] =
        inputLoop.outputs (calls 3) oneDevice
          [.read 3 (some (pressBytes.take 17)), .read 3 (some (pressBytes.drop 17))] ∧
      t₁.device 3 = t₂.device 3 := by
  refine ⟨_, _, rfl, rfl, (decoding_split 3).1 oneDevice oneDevice
    [.read 3 (some pressBytes)]
    [.read 3 (some (pressBytes.take 17)), .read 3 (some (pressBytes.drop 17))] _ _ rfl
    ⟨rfl, rfl⟩ ?_ ?_ rfl rfl rfl⟩
  · intro e he
    obtain rfl := List.mem_singleton.1 he
    exact fun _ => ⟨_, _, rfl⟩
  · intro e he
    rcases List.mem_cons.1 he with rfl | he
    · exact fun _ => ⟨_, _, rfl⟩
    · obtain rfl := List.mem_singleton.1 he
      exact fun _ => ⟨_, _, rfl⟩

example : inputLoop.outputs (calls 3) oneDevice
    [.read 3 (some (pressBytes.take 17)), .read 3 (some (pressBytes.drop 17))] =
      [⟨1000000, "/dev/input/event0:KEY_POWER"⟩] := by
  decide +kernel

end Inputs

end W132d.Standby
