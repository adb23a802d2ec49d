import KernelModules.Lib.FlatArray

/-!
# The RAM block device (`block_demo.c`)

A bio is a start sector, a direction and a list of segments; a segment is a length and the memory at its buffer
address. `simpleTransfer` computes byte offsets and lengths in `unsigned long`, modulo `2^64`, and drops a request
whose end lies past the device; `simpleHandleBio` walks the segments with a running sector; `simpleQueueRq` walks the
bios of a request. Each returns the device together with the buffers, since a read fills them.
-/

namespace KernelModules.Block

open Lib

/-- `KERNEL_SECTOR_SIZE`. -/
def kernelSectorSize : Nat := 512

/-- `SIMPLE_BLOCK_SIZE`: 1 MB. -/
def simpleBlockSize : Nat := 1024 * 1024

/-- `bio_data_dir`. -/
inductive Dir where
  | read
  | write
  deriving DecidableEq, Repr

/-- `blk_status_t`. -/
abbrev BlkStatus := UInt8

def blkStsOk : BlkStatus := 0

/-- `struct simple_block_dev`: the size in bytes and the storage, by offset from `data`. -/
structure SimpleBlockDev where
  size : Int32
  data : Nat → UInt8

/-- `struct bio_vec`, with the memory found at `page_address(bv_page) + bv_offset`. -/
structure BioVec where
  bvLen : UInt32
  buffer : Nat → UInt8

structure Bio where
  biSector : UInt64
  dir : Dir
  segs : List BioVec

/-- `struct request`: its bios. -/
abbrev Request := List Bio

/-- The device that `simple_block_init` sets up over the memory `mem` it got from `vmalloc`. -/
def simpleBlockInit (mem : Nat → UInt8) : SimpleBlockDev where
  size := Int32.ofNat simpleBlockSize
  data := memset mem 0xAA simpleBlockSize

/-- `(offset + nbytes) > dev->size`. The comparison converts the `int` size to `unsigned long`. -/
abbrev BeyondEnd (size : Int32) (offset nbytes : UInt64) : Prop := offset + nbytes > size.toInt64.toUInt64

/-- `simple_transfer`. -/
def simpleTransfer (dev : SimpleBlockDev) (sector nsect : UInt64) (buffer : Nat → UInt8) (dir : Dir) :
    SimpleBlockDev × (Nat → UInt8) :=
  let offset := sector * UInt64.ofNat kernelSectorSize
  let nbytes := nsect * UInt64.ofNat kernelSectorSize
  if BeyondEnd dev.size offset nbytes then
    (dev, buffer)
  else match dir with
    | .write => ({ dev with data := memcpy dev.data offset.toNat buffer 0 nbytes.toNat }, buffer)
    | .read => (dev, memcpy buffer 0 dev.data offset.toNat nbytes.toNat)

/-- `bvec.bv_len / KERNEL_SECTOR_SIZE`, an `unsigned int` division. -/
def BioVec.nsect (bv : BioVec) : UInt64 := (bv.bvLen / UInt32.ofNat kernelSectorSize).toUInt64

/-- The loop of `simple_handle_bio` over the segments. -/
def bioForEachSegment (dev : SimpleBlockDev) (sector : UInt64) (dir : Dir) :
    List BioVec → SimpleBlockDev × List BioVec
  | [] => (dev, [])
  | bv :: segs =>
    let t := simpleTransfer dev sector bv.nsect bv.buffer dir
    let r := bioForEachSegment t.1 (sector + bv.nsect) dir segs
    (r.1, { bv with buffer := t.2 } :: r.2)

/-- `simple_handle_bio`: the device, the bio with its buffers, and the status. -/
def simpleHandleBio (dev : SimpleBlockDev) (bio : Bio) : SimpleBlockDev × Bio × BlkStatus :=
  let r := bioForEachSegment dev bio.biSector bio.dir bio.segs
  (r.1, { bio with segs := r.2 }, blkStsOk)

/-- `simple_queue_rq`: bios are handled until one fails; the request completes with the last status. -/
def simpleQueueRq (dev : SimpleBlockDev) : Request → SimpleBlockDev × Request × BlkStatus
  | [] => (dev, [], blkStsOk)
  | bio :: req =>
    let b := simpleHandleBio dev bio
    if b.2.2 ≠ blkStsOk then
      (b.1, b.2.1 :: req, b.2.2)
    else
      let r := simpleQueueRq b.1 req
      (r.1, b.2.1 :: r.2.1, r.2.2)

/-- Requests handled one after another: the device and the completed requests. -/
def serve (dev : SimpleBlockDev) : List Request → SimpleBlockDev × List Request
  | [] => (dev, [])
  | req :: reqs =>
    let r := simpleQueueRq dev req
    let rest := serve r.1 reqs
    (rest.1, r.2.1 :: rest.2)

/-! ## The loops, case by case -/

theorem bioForEachSegment_cons (dev : SimpleBlockDev) (sector : UInt64) (dir : Dir) (bv : BioVec) (segs : List BioVec) :
    bioForEachSegment dev sector dir (bv :: segs) =
      ((bioForEachSegment (simpleTransfer dev sector bv.nsect bv.buffer dir).1 (sector + bv.nsect) dir segs).1,
        { bv with buffer := (simpleTransfer dev sector bv.nsect bv.buffer dir).2 } ::
          (bioForEachSegment (simpleTransfer dev sector bv.nsect bv.buffer dir).1 (sector + bv.nsect) dir segs).2) :=
  rfl

/-- Every bio reports success, so the request loop never breaks. -/
theorem simpleQueueRq_cons (dev : SimpleBlockDev) (bio : Bio) (req : Request) :
    simpleQueueRq dev (bio :: req) =
      ((simpleQueueRq (simpleHandleBio dev bio).1 req).1,
        (simpleHandleBio dev bio).2.1 :: (simpleQueueRq (simpleHandleBio dev bio).1 req).2.1,
        (simpleQueueRq (simpleHandleBio dev bio).1 req).2.2) := by
  rw [simpleQueueRq, if_neg (by simp [simpleHandleBio])]

theorem serve_cons (dev : SimpleBlockDev) (req : Request) (reqs : List Request) :
    serve dev (req :: reqs) =
      ((serve (simpleQueueRq dev req).1 reqs).1,
        (simpleQueueRq dev req).2.1 :: (serve (simpleQueueRq dev req).1 reqs).2) :=
  rfl

theorem serve_append (dev : SimpleBlockDev) : ∀ reqs reqs' : List Request,
    serve dev (reqs ++ reqs') =
      ((serve (serve dev reqs).1 reqs').1, (serve dev reqs).2 ++ (serve (serve dev reqs).1 reqs').2)
  | [], _ => rfl
  | req :: reqs, reqs' => by
    rw [List.cons_append, serve_cons, serve_append _ reqs reqs', serve_cons, List.cons_append]

end KernelModules.Block
