import KernelModules.Block.FlatDisk

/-!
# Cutting the same bytes into segments

`cut content p ls` are segments of the lengths `ls` over the bytes of `content` from position `p` on. The segment loop
divides every length by the sector size, so a segment loses what it has beyond whole sectors, and everything behind it
moves forward on the device. `source ls d` is the position of the content that belongs to byte `d` behind the start
sector, `dest ls` its inverse (`dest_eq_some`).

- a write stores the content at its sources (`bioForEachSegment_write`), a read fills the positions that are sources
  (`bioForEachSegment_read`);
- so two cuts have the same effect exactly if they have the same sources (`simple_handle_bio_cut`), and cuts into whole
  sectors have (`source_whole`).
-/

namespace KernelModules.Block

open Lib

/-- Segments of the given lengths over consecutive bytes. -/
def cut (content : Nat → UInt8) : Nat → List UInt32 → List BioVec
  | _, [] => []
  | p, l :: ls => ⟨l, fun i => content (p + i)⟩ :: cut content (p + l.toNat) ls

/-- The length of a cut. -/
def total : List UInt32 → Nat
  | [] => 0
  | l :: ls => l.toNat + total ls

/-- What the loop moves of a segment: its whole sectors. -/
def whole (l : UInt32) : Nat := l.toNat / kernelSectorSize * kernelSectorSize

/-- The position of the content that is transferred to or from byte `d` behind the start sector. -/
def source : List UInt32 → Nat → Option Nat
  | [], _ => none
  | l :: ls, d => if d < whole l then some d else (source ls (d - whole l)).map (l.toNat + ·)

/-- The byte behind the start sector to or from which a position of the content is transferred. -/
def dest : List UInt32 → Nat → Option Nat
  | [], _ => none
  | l :: ls, q =>
    if q < whole l then some q else if q < l.toNat then none else (dest ls (q - l.toNat)).map (whole l + ·)

/-! ## Sources -/

theorem whole_le (l : UInt32) : whole l ≤ l.toNat := Nat.div_mul_le_self _ _

/-- The two maps are inverse to each other. -/
theorem dest_eq_some {ls : List UInt32} {d q : Nat} : dest ls q = some d ↔ source ls d = some q := by
  induction ls generalizing d q with
  | nil => simp [dest, source]
  | cons l ls ih =>
    have hle := whole_le l
    constructor
    · intro h
      rw [dest] at h
      split at h
      · rename_i hq
        obtain rfl := Option.some.inj h
        rw [source, if_pos hq]
      · split at h
        · cases h
        · obtain ⟨d', hd', rfl⟩ := Option.map_eq_some_iff.mp h
          rw [source, if_neg (by omega), Nat.add_sub_cancel_left, ih.mp hd', Option.map_some]
          congr 1
          omega
    · intro h
      rw [source] at h
      split at h
      · rename_i hd
        obtain rfl := Option.some.inj h
        rw [dest, if_pos hd]
      · obtain ⟨q', hq', rfl⟩ := Option.map_eq_some_iff.mp h
        rw [dest, if_neg (by omega), if_neg (by omega), Nat.add_sub_cancel_left, ih.mpr hq', Option.map_some]
        congr 1
        omega

/-- Sources are positions of the content. -/
theorem source_lt {ls : List UInt32} {d q : Nat} (h : source ls d = some q) : q < total ls := by
  induction ls generalizing d q with
  | nil => cases h
  | cons l ls ih =>
    have hle := whole_le l
    rw [source] at h
    rw [total]
    split at h
    · obtain rfl := Option.some.inj h
      omega
    · obtain ⟨q', hq', rfl⟩ := Option.map_eq_some_iff.mp h
      have := ih hq'
      omega

/-- **Whole sectors** are transferred byte by byte from the start. -/
theorem source_whole {ls : List UInt32} (h : ∀ l ∈ ls, kernelSectorSize ∣ l.toNat) (d : Nat) :
    source ls d = if d < total ls then some d else none := by
  induction ls generalizing d with
  | nil => rfl
  | cons l ls ih =>
    have hl : whole l = l.toNat := Nat.div_mul_cancel (h l List.mem_cons_self)
    rw [source, total, hl, ih fun l hl => h l (List.mem_cons_of_mem _ hl)]
    by_cases hd : d < l.toNat
    · rw [if_pos hd, if_pos (by omega)]
    · rw [if_neg hd]
      by_cases hd' : d - l.toNat < total ls
      · rw [if_pos hd', if_pos (by omega), Option.map_some]
        congr 1
        omega
      · rw [if_neg hd', if_neg (by omega), Option.map_none]

/-! ## The loop on a cut -/

section Loop

variable {dev : SimpleBlockDev} {sector : UInt64} {content : Nat → UInt8}

/-- The whole sectors of a segment are copied, and the loop goes on right behind them on the device. -/
theorem simpleTransfer_cut (hsize : 0 ≤ dev.size.toInt) (sector : UInt64) (l : UInt32) (buffer : Nat → UInt8)
    (dir : Dir)
    (h : sector.toNat * kernelSectorSize + l.toNat ≤ dev.bytes) :
    simpleTransfer dev sector (BioVec.nsect ⟨l, buffer⟩) buffer dir =
        copyBytes dev (sector.toNat * kernelSectorSize) (whole l) buffer dir ∧
      (sector + BioVec.nsect ⟨l, buffer⟩).toNat * kernelSectorSize = sector.toNat * kernelSectorSize + whole l := by
  have hn : (BioVec.nsect ⟨l, buffer⟩).toNat * kernelSectorSize = whole l := by rw [BioVec.toNat_nsect, whole]
  have hle := whole_le l
  have hlt := bytes_lt dev
  have hsum : sector.toNat + (BioVec.nsect ⟨l, buffer⟩).toNat < 2 ^ 64 := by
    simp only [kernelSectorSize] at h hn
    omega
  constructor
  · rw [simpleTransfer_eq, transferRange_of_lt hsize (by omega), hn, if_pos (by omega)]
  · rw [UInt64.toNat_add, Nat.mod_eq_of_lt hsum, Nat.add_mul, hn]

/-- The content stored at its sources, from `start` on. -/
def scatter (data : Nat → UInt8) (start : Nat) (content : Nat → UInt8) (ls : List UInt32) : Nat → UInt8 :=
  fun o => if o < start then data o else ((source ls (o - start)).map content).getD (data o)

/-- **A write** stores the content at its sources. -/
theorem bioForEachSegment_write (ls : List UInt32) (p : Nat) (hsize : 0 ≤ dev.size.toInt)
    (h : sector.toNat * kernelSectorSize + total ls ≤ dev.bytes) :
    (bioForEachSegment dev sector .write (cut content p ls)).1.data =
      scatter dev.data (sector.toNat * kernelSectorSize) (fun q => content (p + q)) ls := by
  induction ls generalizing dev sector p with
  | nil =>
    funext o
    simp [bioForEachSegment, cut, scatter, source]
  | cons l ls ih =>
    rw [total] at h
    obtain ⟨htransfer, hnext⟩ :=
      simpleTransfer_cut hsize sector l (fun i => content (p + i)) .write (Nat.le_trans (by omega) h)
    have hle := whole_le l
    rw [cut, bioForEachSegment_cons]
    simp only [htransfer, copyBytes]
    rw [ih]
    · funext o
      simp only [scatter, hnext, source, memcpy]
      generalize sector.toNat * kernelSectorSize = start
      -- before the segment, in it, behind it
      by_cases hbefore : o < start
      · rw [if_pos (by omega), if_neg (by omega), if_pos hbefore]
      · by_cases hseg : o < start + whole l
        · rw [if_pos hseg, if_pos ⟨by omega, hseg⟩, if_neg hbefore, if_pos (by omega), Option.map_some,
            Option.getD_some, Nat.zero_add]
        · rw [if_neg hseg, if_neg (fun hc => hseg hc.2), if_neg hbefore, if_neg (by omega), Option.map_map,
            show o - start - whole l = o - (start + whole l) by omega]
          simp only [Function.comp_def, Nat.add_assoc]
    · exact hsize
    · rw [hnext]
      exact Nat.le_trans (by omega) h

/-- The content with the device read into the positions that are sources. -/
def gather (content : Nat → UInt8) (data : Nat → UInt8) (start : Nat) (ls : List UInt32) : Nat → UInt8 :=
  fun q => ((dest ls q).map fun d => data (start + d)).getD (content q)

/-- The bytes of a cut. -/
theorem segBytes_cut (content : Nat → UInt8) : ∀ (p : Nat) (ls : List UInt32),
    segBytes (cut content p ls) = (List.range (total ls)).map fun q => content (p + q)
  | _, [] => rfl
  | p, l :: ls => by
    have ih := segBytes_cut content (p + l.toNat) ls
    rw [segBytes] at ih
    rw [segBytes, cut, List.flatMap_cons, ih, total, List.range_add, List.map_append, List.map_map, BioVec.bytes,
      slice_eq_map]
    simp only [Function.comp_def, Nat.zero_add, Nat.add_assoc]

/-- **A read** fills the positions that are sources. -/
theorem bioForEachSegment_read (ls : List UInt32) (p : Nat) (hsize : 0 ≤ dev.size.toInt)
    (h : sector.toNat * kernelSectorSize + total ls ≤ dev.bytes) :
    segBytes (bioForEachSegment dev sector .read (cut content p ls)).2 =
      (List.range (total ls)).map
        (gather (fun q => content (p + q)) dev.data (sector.toNat * kernelSectorSize) ls) := by
  induction ls generalizing sector p with
  | nil => rfl
  | cons l ls ih =>
    rw [total] at h ⊢
    obtain ⟨htransfer, hnext⟩ :=
      simpleTransfer_cut hsize sector l (fun i => content (p + i)) .read (Nat.le_trans (by omega) h)
    have hle := whole_le l
    have hrest := @ih (sector + BioVec.nsect ⟨l, fun i => content (p + i)⟩) (p + l.toNat)
      (by rw [hnext]; exact Nat.le_trans (by omega) h)
    rw [cut, bioForEachSegment_cons]
    simp only [htransfer, copyBytes, segBytes, List.flatMap_cons]
    rw [segBytes] at hrest
    rw [hrest, List.range_add, List.map_append, List.map_map, BioVec.bytes, slice_eq_map]
    refine congrArg₂ (· ++ ·) ?_ ?_
    · refine List.map_congr_left fun q hq => ?_
      have hq := List.mem_range.mp hq
      simp only [gather, dest, memcpy, Nat.zero_add, Nat.zero_le, true_and, Nat.sub_zero]
      by_cases hw : q < whole l
      · rw [if_pos hw, if_pos hw, Option.map_some, Option.getD_some]
      · rw [if_neg hw, if_neg hw, if_pos hq, Option.map_none, Option.getD_none]
    · refine List.map_congr_left fun q _ => ?_
      simp only [Function.comp_def, gather, dest, hnext]
      rw [if_neg (by omega), if_neg (by omega), Nat.add_sub_cancel_left, Option.map_map]
      simp only [Function.comp_def, Nat.add_assoc]

/-- A write leaves the buffers alone. -/
theorem bioForEachSegment_write_buffers : ∀ (dev : SimpleBlockDev) (sector : UInt64) (segs : List BioVec),
    (bioForEachSegment dev sector .write segs).2 = segs
  | _, _, [] => rfl
  | dev, sector, bv :: segs => by
    have hbuffer : (simpleTransfer dev sector bv.nsect bv.buffer .write).2 = bv.buffer := by
      rw [simpleTransfer_eq]
      cases transferRange dev.size sector bv.nsect <;> rfl
    rw [bioForEachSegment_cons, bioForEachSegment_write_buffers, hbuffer]

/-- A read leaves the device alone. -/
theorem bioForEachSegment_read_data : ∀ (dev : SimpleBlockDev) (sector : UInt64) (segs : List BioVec),
    (bioForEachSegment dev sector .read segs).1.data = dev.data
  | _, _, [] => rfl
  | dev, sector, bv :: segs => by
    have hdata : (simpleTransfer dev sector bv.nsect bv.buffer .read).1.data = dev.data := by
      rw [simpleTransfer_eq]
      cases transferRange dev.size sector bv.nsect <;> rfl
    rw [bioForEachSegment_cons, bioForEachSegment_read_data, hdata]

end Loop

/-! ## Two cuts -/

/-- A write shows the sources of a cut. -/
theorem source_of_scatter {ls ls' : List UInt32} {start : Nat}
    (h : ∀ data content, scatter data start content ls = scatter data start content ls') {d q : Nat}
    (hd : source ls d = some q) : source ls' d = some q := by
  -- only position `q` of the content is marked
  have hmark := congrFun (h (fun _ => 0) fun i => if i = q then 1 else 0) (start + d)
  simp only [scatter, if_neg (Nat.not_lt.mpr (Nat.le_add_right start d)), Nat.add_sub_cancel_left, hd, Option.map_some,
    Option.getD_some, if_pos] at hmark
  cases hd' : source ls' d with
  | none =>
    rw [hd', Option.map_none, Option.getD_none] at hmark
    exact absurd hmark (by decide)
  | some q' =>
    rw [hd', Option.map_some, Option.getD_some] at hmark
    by_cases hq : q' = q
    · rw [hq]
    · rw [if_neg hq] at hmark
      exact absurd hmark (by decide)

/-- So does a read. -/
theorem source_of_gather {ls ls' : List UInt32} {start : Nat} (hsum : total ls = total ls')
    (h : ∀ data content, (List.range (total ls)).map (gather content data start ls) =
      (List.range (total ls')).map (gather content data start ls')) {d q : Nat}
    (hd : source ls d = some q) : source ls' d = some q := by
  have hq : q < total ls := source_lt hd
  -- only byte `d` behind the start is marked
  have hmark := h (fun o => if o = start + d then 1 else 0) fun _ => 0
  rw [← hsum] at hmark
  have hmark := List.map_inj_left.mp hmark q (List.mem_range.mpr hq)
  simp only [gather, dest_eq_some.mpr hd, Option.map_some, Option.getD_some, if_pos] at hmark
  cases hd' : dest ls' q with
  | none =>
    rw [hd', Option.map_none, Option.getD_none] at hmark
    exact absurd hmark (by decide)
  | some d' =>
    rw [hd', Option.map_some, Option.getD_some] at hmark
    by_cases hne : start + d' = start + d
    · obtain rfl : d' = d := by omega
      exact dest_eq_some.mp hd'
    · rw [if_neg hne] at hmark
      exact absurd hmark (by decide)

/-- Maps that agree on their values agree. -/
theorem source_ext {ls ls' : List UInt32} (h : ∀ {d q}, source ls d = some q → source ls' d = some q)
    (h' : ∀ {d q}, source ls' d = some q → source ls d = some q) (d : Nat) : source ls d = source ls' d :=
  Option.ext fun _ => ⟨h, h'⟩

/-- The sources determine the destinations. -/
theorem dest_congr {ls ls' : List UInt32} (h : ∀ d, source ls d = source ls' d) : dest ls = dest ls' := by
  funext q
  refine Option.ext fun d => ?_
  rw [dest_eq_some, dest_eq_some, h d]

/-- **Segmentation.** Two cuts of equally many bytes inside the device leave the same device and the same buffers,
whatever the contents, exactly if they have the same sources. -/
theorem simple_handle_bio_cut (size : Int32) (sector : UInt64) (dir : Dir) (ls ls' : List UInt32)
    (hsum : total ls = total ls') (hin : ((sector.toNat * kernelSectorSize + total ls : Nat) : Int) ≤ size.toInt) :
    (∀ data content,
      (simpleHandleBio ⟨size, data⟩ ⟨sector, dir, cut content 0 ls⟩).1.data =
        (simpleHandleBio ⟨size, data⟩ ⟨sector, dir, cut content 0 ls'⟩).1.data ∧
      segBytes (simpleHandleBio ⟨size, data⟩ ⟨sector, dir, cut content 0 ls⟩).2.1.segs =
        segBytes (simpleHandleBio ⟨size, data⟩ ⟨sector, dir, cut content 0 ls'⟩).2.1.segs) ↔
      ∀ d, source ls d = source ls' d := by
  have hsize : ∀ data, 0 ≤ (⟨size, data⟩ : SimpleBlockDev).size.toInt := fun _ => by
    show 0 ≤ size.toInt
    omega
  have hbytes : ∀ data, sector.toNat * kernelSectorSize + total ls ≤ (⟨size, data⟩ : SimpleBlockDev).bytes :=
    fun _ => by
    show _ ≤ size.toInt.toNat
    omega
  have hbytes' := hbytes
  rw [hsum] at hbytes'
  cases dir with
  | write =>
    simp only [simpleHandleBio, bioForEachSegment_write_buffers, bioForEachSegment_write _ 0 (hsize _) (hbytes _),
      bioForEachSegment_write _ 0 (hsize _) (hbytes' _), Nat.zero_add]
    constructor
    · intro h
      exact source_ext (source_of_scatter fun data content => (h data content).1)
        (source_of_scatter fun data content => (h data content).1.symm)
    · intro h data content
      refine ⟨?_, ?_⟩
      · unfold scatter
        funext o
        rw [h]
      · rw [segBytes_cut, segBytes_cut, hsum]
  | read =>
    simp only [simpleHandleBio, bioForEachSegment_read_data, bioForEachSegment_read _ 0 (hsize _) (hbytes _),
      bioForEachSegment_read _ 0 (hsize _) (hbytes' _), Nat.zero_add, true_and]
    constructor
    · intro h
      exact source_ext (source_of_gather hsum h) (source_of_gather hsum.symm fun data content => (h data content).symm)
    · intro h data content
      have hgather : gather content data (sector.toNat * kernelSectorSize) ls =
          gather content data (sector.toNat * kernelSectorSize) ls' := by
        unfold gather
        rw [dest_congr h]
      rw [hgather, hsum]

theorem simple_handle_bio_cut_wholeSectors :
    total [512, 1024] = total [1536] ∧
    (simpleHandleBio ⟨Int32.ofNat simpleBlockSize, fun _ => 0⟩
        ⟨3, .write, cut (fun i => UInt8.ofNat i) 0 [512, 1024]⟩).1.data =
      (simpleHandleBio ⟨Int32.ofNat simpleBlockSize, fun _ => 0⟩
        ⟨3, .write, cut (fun i => UInt8.ofNat i) 0 [1536]⟩).1.data := by
  have htwo : ∀ l ∈ ([512, 1024] : List UInt32), kernelSectorSize ∣ l.toNat :=
    List.forall_mem_cons.mpr ⟨⟨1, rfl⟩, List.forall_mem_singleton.mpr ⟨2, rfl⟩⟩
  have hone : ∀ l ∈ ([1536] : List UInt32), kernelSectorSize ∣ l.toNat := List.forall_mem_singleton.mpr ⟨3, rfl⟩
  have hsources : ∀ d, source [512, 1024] d = source [1536] d := fun d => by
    rw [source_whole htwo, source_whole hone]
    rfl
  exact ⟨rfl, ((simple_handle_bio_cut (Int32.ofNat simpleBlockSize) 3 .write [512, 1024] [1536] rfl (by decide)).mpr
    hsources (fun _ => 0) fun i => UInt8.ofNat i).1⟩

/-- A sector written in two halves is not written at all. -/
theorem simple_handle_bio_cut_halves :
    (simpleHandleBio ⟨Int32.ofNat simpleBlockSize, fun _ => 0⟩
      ⟨0, .write, cut (fun _ => 1) 0 [256, 256]⟩).1.data 0 = 0 ∧
    (simpleHandleBio ⟨Int32.ofNat simpleBlockSize, fun _ => 0⟩
      ⟨0, .write, cut (fun _ => 1) 0 [512]⟩).1.data 0 = 1 := by
  decide

end KernelModules.Block
