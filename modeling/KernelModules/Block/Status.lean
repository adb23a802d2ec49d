import KernelModules.Block.Transfer

/-!
# The status of a request

A segment is found in a request behind some bios, and in its bio behind some segments (`Place`). The loops come to it
with the device that these have left (`Place.before`), and leave the device behind it (`Place.after`) and its buffer in
the completed request (`Place.completed`).

- a segment is one call of `simple_transfer` (`Place.after_eq`, `Place.completed_eq`), which moves the bytes of the
  range that the check lets through and no others (`moved_iff`);
- a refused segment leaves no trace in the status: `simple_queue_rq` always reports success (`simpleQueueRq_status`).
  The status is honest exactly for requests of whole sectors inside the device (`simple_queue_rq_honest`).
-/

namespace KernelModules.Block

open Lib

/-- A segment of a request: the bios in front of its bio, and the segments in front of it there. -/
structure Place where
  bios : Request
  bio : Bio
  segs : List BioVec
  seg : BioVec

namespace Place

def In (l : Place) (req : Request) : Prop :=
  ∃ rest post, req = l.bios ++ l.bio :: rest ∧ l.bio.segs = l.segs ++ l.seg :: post

/-- The sector that the segment loop has reached. -/
def sector (l : Place) : UInt64 := l.segs.foldl (fun s bv => s + bv.nsect) l.bio.biSector

/-- `sector * KERNEL_SECTOR_SIZE`. -/
def offset (l : Place) : Nat := (l.sector * UInt64.ofNat kernelSectorSize).toNat

/-- The device when the loops come to the segment. -/
def before (l : Place) (dev : SimpleBlockDev) : SimpleBlockDev :=
  (bioForEachSegment (simpleQueueRq dev l.bios).1 l.bio.biSector l.bio.dir l.segs).1

/-- The device when they go on behind it. -/
def after (l : Place) (dev : SimpleBlockDev) : SimpleBlockDev :=
  (bioForEachSegment (simpleQueueRq dev l.bios).1 l.bio.biSector l.bio.dir (l.segs ++ [l.seg])).1

/-- The segment as the completed request has it. -/
def completed (l : Place) (dev : SimpleBlockDev) (req : Request) : Option BioVec :=
  (simpleQueueRq dev req).2.1[l.bios.length]?.bind fun b => b.segs[l.segs.length]?

end Place

/-- Byte `i` of a segment at offset `o` was moved: a write has put it on the device, a read has fetched it from there.
-/
def Dir.Moved (before after : SimpleBlockDev) (bv bv' : BioVec) (o i : Nat) : Dir → Prop
  | .write => after.data (o + i) = bv.buffer i
  | .read => bv'.buffer i = before.data (o + i)

/-- Every byte of the segment was moved between its buffer and the device. -/
def Place.Transferred (l : Place) (dev : SimpleBlockDev) (req : Request) : Prop :=
  ∃ bv, l.completed dev req = some bv ∧ ∀ i < l.seg.bvLen.toNat,
    l.offset + i < dev.bytes ∧ l.bio.dir.Moved (l.before dev) (l.after dev) l.seg bv l.offset i

/-- `simple_transfer` refuses the segment. -/
def Place.Refused (l : Place) (dev : SimpleBlockDev) : Prop :=
  BeyondEnd dev.size (l.sector * UInt64.ofNat kernelSectorSize) (l.seg.nsect * UInt64.ofNat kernelSectorSize)

/-- The segment is empty, or it is whole sectors at an offset inside the device. -/
def Place.Inside (l : Place) (dev : SimpleBlockDev) : Prop :=
  l.seg.bvLen.toNat = 0 ∨ kernelSectorSize ∣ l.seg.bvLen.toNat ∧ l.offset + l.seg.bvLen.toNat ≤ dev.bytes

/-- A bio without the contents of its buffers. -/
def Bio.shape (b : Bio) : UInt64 × Dir × List UInt32 := (b.biSector, b.dir, b.segs.map BioVec.bvLen)

/-! ## The loops at a segment -/

/-- The loop goes on behind some segments at the sector they lead to, with the device they leave. -/
theorem bioForEachSegment_append (dir : Dir) (post : List BioVec) : ∀ (dev : SimpleBlockDev) (sector : UInt64)
    (pre : List BioVec), bioForEachSegment dev sector dir (pre ++ post) =
      ((bioForEachSegment (bioForEachSegment dev sector dir pre).1
          (pre.foldl (fun s bv => s + bv.nsect) sector) dir post).1,
        (bioForEachSegment dev sector dir pre).2 ++
          (bioForEachSegment (bioForEachSegment dev sector dir pre).1
            (pre.foldl (fun s bv => s + bv.nsect) sector) dir post).2)
  | _, _, [] => rfl
  | dev, sector, bv :: pre => by
    rw [List.cons_append, bioForEachSegment_cons, bioForEachSegment_append dir post _ (sector + bv.nsect) pre,
      bioForEachSegment_cons]
    rfl

theorem length_bioForEachSegment (dir : Dir) : ∀ (dev : SimpleBlockDev) (sector : UInt64) (segs : List BioVec),
    (bioForEachSegment dev sector dir segs).2.length = segs.length
  | _, _, [] => rfl
  | dev, sector, bv :: segs => by
    rw [bioForEachSegment_cons, List.length_cons, List.length_cons, length_bioForEachSegment]

/-- The bios in front are handled first. -/
theorem simpleQueueRq_append (req : Request) : ∀ (dev : SimpleBlockDev) (bios : Request),
    simpleQueueRq dev (bios ++ req) =
      ((simpleQueueRq (simpleQueueRq dev bios).1 req).1,
        (simpleQueueRq dev bios).2.1 ++ (simpleQueueRq (simpleQueueRq dev bios).1 req).2.1,
        (simpleQueueRq (simpleQueueRq dev bios).1 req).2.2)
  | _, [] => rfl
  | dev, b :: bios => by
    rw [List.cons_append, simpleQueueRq_cons, simpleQueueRq_append req _ bios, simpleQueueRq_cons]
    rfl

theorem length_simpleQueueRq : ∀ (dev : SimpleBlockDev) (req : Request),
    (simpleQueueRq dev req).2.1.length = req.length
  | _, [] => rfl
  | dev, b :: req => by
    rw [simpleQueueRq_cons, List.length_cons, List.length_cons, length_simpleQueueRq]

/-- **The status** is success, whatever happened to the segments. -/
theorem simpleQueueRq_status : ∀ (dev : SimpleBlockDev) (req : Request), (simpleQueueRq dev req).2.2 = blkStsOk
  | _, [] => rfl
  | dev, bio :: req => by
    rw [simpleQueueRq_cons]
    exact simpleQueueRq_status (simpleHandleBio dev bio).1 req

/-- Nothing changes the size of the device. -/
theorem size_simpleTransfer (dev : SimpleBlockDev) (sector nsect : UInt64) (buffer : Nat → UInt8) (dir : Dir) :
    (simpleTransfer dev sector nsect buffer dir).1.size = dev.size := by
  rw [simpleTransfer_eq]
  cases transferRange dev.size sector nsect with
  | none => rfl
  | some range => cases dir <;> rfl

theorem size_bioForEachSegment (dir : Dir) : ∀ (dev : SimpleBlockDev) (sector : UInt64) (segs : List BioVec),
    (bioForEachSegment dev sector dir segs).1.size = dev.size
  | _, _, [] => rfl
  | dev, sector, bv :: segs => by
    rw [bioForEachSegment_cons, size_bioForEachSegment, size_simpleTransfer]

theorem size_simpleQueueRq : ∀ (dev : SimpleBlockDev) (req : Request), (simpleQueueRq dev req).1.size = dev.size
  | _, [] => rfl
  | dev, b :: req => by
    rw [simpleQueueRq_cons, size_simpleQueueRq]
    exact size_bioForEachSegment b.dir dev b.biSector b.segs

namespace Place

variable {l : Place} {dev : SimpleBlockDev} {req : Request}

theorem size_before (l : Place) (dev : SimpleBlockDev) : (l.before dev).size = dev.size := by
  rw [before, size_bioForEachSegment, size_simpleQueueRq]

/-- The device behind a segment is that of one call of `simple_transfer`. -/
theorem after_eq (l : Place) (dev : SimpleBlockDev) :
    l.after dev = (simpleTransfer (l.before dev) l.sector l.seg.nsect l.seg.buffer l.bio.dir).1 := by
  rw [after, bioForEachSegment_append]
  rfl

/-- And so is its buffer. -/
theorem completed_eq (h : l.In req) : l.completed dev req =
    some { l.seg with buffer := (simpleTransfer (l.before dev) l.sector l.seg.nsect l.seg.buffer l.bio.dir).2 } := by
  obtain ⟨rest, post, hreq, hsegs⟩ := h
  have hbio : (simpleQueueRq dev req).2.1[l.bios.length]? =
      some (simpleHandleBio (simpleQueueRq dev l.bios).1 l.bio).2.1 := by
    rw [hreq, simpleQueueRq_append, simpleQueueRq_cons, List.getElem?_append_right (by rw [length_simpleQueueRq]),
      length_simpleQueueRq, Nat.sub_self, List.getElem?_cons_zero]
  rw [completed, hbio, Option.bind_some, simpleHandleBio]
  dsimp only
  rw [hsegs, bioForEachSegment_append, List.getElem?_append_right (by rw [length_bioForEachSegment]),
    length_bioForEachSegment, Nat.sub_self, bioForEachSegment_cons, List.getElem?_cons_zero]
  rfl

end Place

/-! ## The bytes of a segment -/

section Segment

variable {dev : SimpleBlockDev} {sector : UInt64} {bv : BioVec} {dir : Dir} {i : Nat}

theorem transferRange_offset {nsect : UInt64} {o n : Nat} (h : transferRange dev.size sector nsect = some (o, n)) :
    o = (sector * UInt64.ofNat kernelSectorSize).toNat ∧ n = (nsect * UInt64.ofNat kernelSectorSize).toNat := by
  rw [transferRange] at h
  split at h
  · cases h
  · obtain ⟨rfl, rfl⟩ := Prod.mk.inj (Option.some.inj h)
    exact ⟨rfl, rfl⟩

/-- A byte inside the range is moved. -/
theorem moved_of_lt {o n : Nat} (h : transferRange dev.size sector bv.nsect = some (o, n)) (hi : i < n) :
    dir.Moved dev (simpleTransfer dev sector bv.nsect bv.buffer dir).1 bv
      { bv with buffer := (simpleTransfer dev sector bv.nsect bv.buffer dir).2 } o i := by
  rw [simpleTransfer_eq, h]
  cases dir with
  | write =>
    show memcpy dev.data o bv.buffer 0 n (o + i) = bv.buffer i
    rw [memcpy, if_pos ⟨by omega, by omega⟩, Nat.zero_add, Nat.add_sub_cancel_left]
  | read =>
    show memcpy bv.buffer 0 dev.data o n i = dev.data (o + i)
    rw [memcpy, if_pos ⟨by omega, by omega⟩, Nat.sub_zero]

/-- A byte outside the range stays on both sides. -/
theorem eq_of_moved {o : Nat} (ho : o = (sector * UInt64.ofNat kernelSectorSize).toNat)
    (hout : ∀ n, transferRange dev.size sector bv.nsect = some (o, n) → n ≤ i)
    (h : dir.Moved dev (simpleTransfer dev sector bv.nsect bv.buffer dir).1 bv
      { bv with buffer := (simpleTransfer dev sector bv.nsect bv.buffer dir).2 } o i) :
    bv.buffer i = dev.data (o + i) := by
  rw [simpleTransfer_eq] at h
  cases hrange : transferRange dev.size sector bv.nsect with
  | none =>
    rw [hrange] at h
    cases dir with
    | write => exact Eq.symm h
    | read => exact h
  | some range =>
    obtain ⟨o', n⟩ := range
    obtain rfl : o' = o := (transferRange_offset hrange).1.trans ho.symm
    have hn := hout n hrange
    rw [hrange] at h
    cases dir with
    | write =>
      have h : memcpy dev.data o' bv.buffer 0 n (o' + i) = bv.buffer i := h
      rw [memcpy, if_neg (by omega)] at h
      exact h.symm
    | read =>
      have h : memcpy bv.buffer 0 dev.data o' n i = dev.data (o' + i) := h
      rwa [memcpy, if_neg (by omega)] at h

/-- **Which bytes are moved.** Where buffer and device differ, it is the bytes of the range. -/
theorem moved_iff {o : Nat} (ho : o = (sector * UInt64.ofNat kernelSectorSize).toNat)
    (hne : bv.buffer i ≠ dev.data (o + i)) :
    dir.Moved dev (simpleTransfer dev sector bv.nsect bv.buffer dir).1 bv
        { bv with buffer := (simpleTransfer dev sector bv.nsect bv.buffer dir).2 } o i ↔
      ∃ n, transferRange dev.size sector bv.nsect = some (o, n) ∧ i < n := by
  constructor
  · intro h
    by_contra hout
    refine hne (eq_of_moved ho (fun n hn => ?_) h)
    by_contra hlt
    exact hout ⟨n, hn, by omega⟩
  · rintro ⟨n, hn, hi⟩
    exact moved_of_lt hn hi

end Segment

namespace Place

variable {l : Place} {dev : SimpleBlockDev} {req : Request}

theorem toNat_nsect_mul (l : Place) : (l.seg.nsect * UInt64.ofNat kernelSectorSize).toNat =
    l.seg.bvLen.toNat / kernelSectorSize * kernelSectorSize := by
  have hlen := UInt32.toNat_lt l.seg.bvLen
  rw [toNat_mul_sectorSize, BioVec.toNat_nsect]
  exact Nat.mod_eq_of_lt (Nat.lt_of_le_of_lt (Nat.div_mul_le_self _ _) (by omega))

/-- The range of a segment inside the device is all of it. -/
theorem Inside.range (h : l.Inside dev) (hlen : l.seg.bvLen.toNat ≠ 0) :
    transferRange dev.size l.sector l.seg.nsect = some (l.offset, l.seg.bvLen.toNat) := by
  obtain ⟨hdvd, hin⟩ := h.resolve_left hlen
  have hwhole : l.seg.bvLen.toNat / kernelSectorSize * kernelSectorSize = l.seg.bvLen.toNat := Nat.div_mul_cancel hdvd
  have hn := l.toNat_nsect_mul
  have hpos : 0 ≤ dev.size.toInt := by
    simp only [SimpleBlockDev.bytes, Int32.toNatClampNeg] at hin
    omega
  have hsize := bytes_lt dev
  have hend : (l.sector * UInt64.ofNat kernelSectorSize + l.seg.nsect * UInt64.ofNat kernelSectorSize).toNat =
      l.offset + l.seg.bvLen.toNat := by
    rw [UInt64.toNat_add, hn, hwhole]
    exact Nat.mod_eq_of_lt (Nat.lt_of_le_of_lt hin (by omega))
  have hcheck : ¬BeyondEnd dev.size (l.sector * UInt64.ofNat kernelSectorSize)
      (l.seg.nsect * UInt64.ofNat kernelSectorSize) := by
    rw [BeyondEnd, gt_iff_lt, UInt64.lt_iff_toNat_lt, hend, toNat_size hpos]
    omega
  rw [transferRange, if_neg hcheck, hn, hwhole]
  rfl

/-- A range that reaches the last byte is all of the segment. -/
theorem inside_of_range {n : Nat}
    (hrange : transferRange dev.size l.sector l.seg.nsect = some (l.offset, n)) (hn : l.seg.bvLen.toNat - 1 < n)
    (hin : l.offset + (l.seg.bvLen.toNat - 1) < dev.bytes) : l.Inside dev := by
  have hn' := (transferRange_offset hrange).2.trans l.toNat_nsect_mul
  have hle := Nat.div_mul_le_self l.seg.bvLen.toNat kernelSectorSize
  refine .inr ⟨Nat.dvd_of_mod_eq_zero ?_, by omega⟩
  simp only [kernelSectorSize] at hn' hle ⊢
  omega

/-- **A segment inside the device** is transferred. -/
theorem Inside.transferred (h : l.Inside dev) (hl : l.In req) : l.Transferred dev req := by
  refine ⟨_, completed_eq hl, fun i hi => ?_⟩
  have hlen : l.seg.bvLen.toNat ≠ 0 := by omega
  have hrange : transferRange (l.before dev).size l.sector l.seg.nsect = some (l.offset, l.seg.bvLen.toNat) := by
    rw [size_before]
    exact h.range hlen
  obtain ⟨-, hin⟩ := h.resolve_left hlen
  rw [after_eq]
  exact ⟨by omega, moved_of_lt hrange hi⟩

/-- The place with other contents of its buffer. -/
def refill (l : Place) (buffer : Nat → UInt8) : Place where
  bios := l.bios
  bio := { l.bio with segs := l.segs ++ { l.seg with buffer := buffer } :: l.bio.segs.drop (l.segs.length + 1) }
  segs := l.segs
  seg := { l.seg with buffer := buffer }

/-- It is a place of a request of the same shape. -/
theorem exists_refill (h : l.In req) (buffer : Nat → UInt8) :
    ∃ req', req'.map Bio.shape = req.map Bio.shape ∧ (l.refill buffer).In req' := by
  obtain ⟨rest, post, rfl, hsegs⟩ := h
  refine ⟨l.bios ++ (l.refill buffer).bio :: rest, ?_, rest, _, rfl, rfl⟩
  have hshape : (l.refill buffer).bio.shape = l.bio.shape := by
    have hdrop : l.bio.segs.drop (l.segs.length + 1) = post := by
      rw [hsegs, ← List.drop_drop, List.drop_left]
      rfl
    simp only [refill, Bio.shape, hdrop]
    rw [hsegs]
    simp
  rw [List.map_append, List.map_append, List.map_cons, List.map_cons, hshape]

/-- **A segment that is transferred whatever its buffer holds** lies inside the device: the last byte decides. -/
theorem inside_of_transferred (h : l.In req)
    (hall : ∀ req', req'.map Bio.shape = req.map Bio.shape → ∀ l' : Place, l'.In req' → l'.Transferred dev req') :
    l.Inside dev := by
  by_cases hlen : l.seg.bvLen.toNat = 0
  · exact .inl hlen
  · -- a buffer that has no byte in common with the device there
    obtain ⟨req', hshape, hin⟩ := exists_refill h fun i => (l.before dev).data (l.offset + i) + 1
    obtain ⟨bv, hbv, hbytes⟩ := hall req' hshape _ hin
    cases (completed_eq hin).symm.trans hbv
    obtain ⟨hlt, hmoved⟩ := hbytes (l.seg.bvLen.toNat - 1) (Nat.sub_one_lt hlen)
    rw [after_eq] at hmoved
    have hne : (l.before dev).data (l.offset + (l.seg.bvLen.toNat - 1)) + 1 ≠
        (l.before dev).data (l.offset + (l.seg.bvLen.toNat - 1)) := fun heq => by
      have := congrArg UInt8.toNat heq
      simp only [UInt8.toNat_add] at this
      have := UInt8.toNat_lt ((l.before dev).data (l.offset + (l.seg.bvLen.toNat - 1)))
      have hone : (1 : UInt8).toNat = 1 := rfl
      omega
    obtain ⟨n, hrange, hn⟩ := (moved_iff rfl hne).mp hmoved
    rw [size_before] at hrange
    exact inside_of_range hrange hn hlt

/-- Requests of the same shape have the same places. -/
theorem In.of_shape {req' : Request} (h : l.In req') (hshape : req'.map Bio.shape = req.map Bio.shape) :
    ∃ l' : Place, l'.In req ∧ l'.sector = l.sector ∧ l'.seg.bvLen = l.seg.bvLen := by
  obtain ⟨rest, post, rfl, hsegs⟩ := h
  rw [List.map_append, List.map_cons] at hshape
  obtain ⟨bios, rest', rfl, -, hrest⟩ := List.map_eq_append_iff.mp hshape.symm
  obtain ⟨b, rest', rfl, hb, -⟩ := List.map_eq_cons_iff.mp hrest
  simp only [Bio.shape, Prod.mk.injEq, hsegs, List.map_append, List.map_cons] at hb
  obtain ⟨hsector, -, hlens⟩ := hb
  obtain ⟨segs, post', hsegs', hpre, hpost⟩ := List.map_eq_append_iff.mp hlens
  obtain ⟨bv, post', rfl, hbv, -⟩ := List.map_eq_cons_iff.mp hpost
  refine ⟨⟨bios, b, segs, bv⟩, ⟨rest', post', rfl, hsegs'⟩, ?_, hbv⟩
  have hfold : ∀ (segs : List BioVec) (s : UInt64), segs.foldl (fun s bv => s + bv.nsect) s =
      (segs.map BioVec.bvLen).foldl (fun s len => s + (len / UInt32.ofNat kernelSectorSize).toUInt64) s :=
    fun segs s => by rw [List.foldl_map]; rfl
  simp only [sector, hfold, hsector, hpre]

/-- What a refused segment leaves. -/
theorem Refused.unchanged (h : l.Refused dev) (hl : l.In req) :
    l.after dev = l.before dev ∧ l.completed dev req = some l.seg := by
  have hrange : transferRange (l.before dev).size l.sector l.seg.nsect = none := by
    rw [size_before]
    exact if_pos h
  have hkeep : simpleTransfer (l.before dev) l.sector l.seg.nsect l.seg.buffer l.bio.dir =
      (l.before dev, l.seg.buffer) := by
    rw [simpleTransfer_eq, hrange]
  rw [after_eq, completed_eq hl, hkeep]
  exact ⟨rfl, rfl⟩

end Place

/-- **The status of a request.** Whatever the buffers hold, success means that every byte of every segment was moved
between its buffer and the device, exactly if all segments are whole sectors inside the device. A refused segment makes
the request fail exactly if none is refused; its device and its buffer stay as they are. -/
theorem simple_queue_rq_honest (dev : SimpleBlockDev) (req : Request) :
    ((∀ req', req'.map Bio.shape = req.map Bio.shape → (simpleQueueRq dev req').2.2 = blkStsOk →
        ∀ l : Place, l.In req' → l.Transferred dev req') ↔
      ∀ l : Place, l.In req → l.Inside dev) ∧
    (((∃ l : Place, l.In req ∧ l.Refused dev) → (simpleQueueRq dev req).2.2 ≠ blkStsOk) ↔
      ∀ l : Place, l.In req → ¬l.Refused dev) ∧
    ∀ l : Place, l.In req → l.Refused dev → l.after dev = l.before dev ∧ l.completed dev req = some l.seg := by
  refine ⟨⟨fun h l hl => ?_, fun h req' hshape _ l hl => ?_⟩, ⟨fun h l hl hrefused => ?_, fun h => ?_⟩,
    fun l hl hrefused => hrefused.unchanged hl⟩
  · exact Place.inside_of_transferred hl fun req' hshape => h req' hshape (simpleQueueRq_status dev req')
  · obtain ⟨l', hl', hsector, hlen⟩ := hl.of_shape hshape
    have hinside := h l' hl'
    rw [Place.Inside, Place.offset, hsector, hlen] at hinside
    exact Place.Inside.transferred hinside hl
  · exact h ⟨l, hl, hrefused⟩ (simpleQueueRq_status dev req)
  · rintro ⟨l, hl, hrefused⟩
    exact absurd hrefused (h l hl)

/-- A write of one sector right behind the device: it is refused and the device is as it was, and the request
succeeds. -/
theorem simple_queue_rq_refused_ok :
    let dev := simpleBlockInit fun _ => 0
    let bio : Bio := ⟨2048, .write, [⟨512, fun _ => 1⟩]⟩
    let l : Place := ⟨[], bio, [], ⟨512, fun _ => 1⟩⟩
    l.In [bio] ∧ l.Refused dev ∧ (simpleQueueRq dev [bio]).2.2 = blkStsOk ∧ (simpleQueueRq dev [bio]).1 = dev ∧
      ¬l.Transferred dev [bio] := by
  intro dev bio l
  have hl : l.In [bio] := ⟨[], [], rfl, rfl⟩
  have hrefused : l.Refused dev := by
    show BeyondEnd (Int32.ofNat simpleBlockSize) _ _
    decide
  refine ⟨hl, hrefused, rfl, (hrefused.unchanged hl).1, ?_⟩
  rintro ⟨bv, -, hbytes⟩
  exact absurd (hbytes 0 (by decide)).1 (by decide)

end KernelModules.Block
