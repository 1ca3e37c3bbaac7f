/-
The state of the file system and its block and inode layer, from the first part
of `kernel/fs/fs.c`: the two bit maps, blocks, and inode slots.

`alloc_block` and `alloc_inode` scan 64-bit words for a clear bit with a running
counter and set it with a 32-bit shift; `free_block` and `free_inode` clear a bit
whose position they compute by division.
-/
import UcasKernel.Fs.Layout

namespace UcasKernel

/-- The file system as the kernel sees it: the SD card, the superblock object,
the descriptor table, the shared block buffer and the working directory of the
current process.  `clock` holds the values the next calls of `get_ticks`
return. -/
structure Fs where
  /-- The bytes of the card; sector `s` starts at `512 * s`. -/
  disk : Bytes
  superblock : Fs.Superblock
  fdescArray : ℕ → Fs.Fdesc
  blockBuf : Bytes
  cwdInum : ℤ
  clock : ℕ → ℕ

namespace Fs

/-- `get_ticks`. -/
def getTicks (fs : Fs) : ℕ × Fs :=
  (fs.clock 0, { fs with clock := fun i => fs.clock (i + 1) })

/-- `bios_sdread` of `n` sectors from sector `s`, into a fresh buffer.  The
sector number is a C `unsigned`. -/
def sdread (fs : Fs) (n s : ℕ) : Bytes :=
  Bytes.blit Bytes.zero 0 fs.disk (nbytesPerSector * (s % 2 ^ 32)) (nbytesPerSector * n)

/-- `bios_sdwrite` of `n` sectors of `buf` to sector `s`. -/
def sdwrite (fs : Fs) (buf : Bytes) (n s : ℕ) : Fs :=
  { fs with
    disk := Bytes.blit fs.disk (nbytesPerSector * (s % 2 ^ 32)) buf 0 (nbytesPerSector * n) }

/-! ## Bit maps -/

/-- The loop `while (val & 1) { val >>= 1; bnum++; }` on a word of `n` bits:
the number of its trailing ones. -/
def trailingOnes : ℕ → ℕ → ℕ
  | 0, _ => 0
  | n + 1, val => if val % 2 = 1 then trailingOnes n (val / 2) + 1 else 0

/-- The scan of one sector of a bit map, over its words `j .. j + n - 1`: the
first word with a clear bit gets the bit `bnum % 64` set.  Returns the buffer,
the running bit counter and whether a word was found. -/
def scanWords (buf : Bytes) (bnum j : ℕ) : ℕ → Bytes × ℕ × Bool
  | 0 => (buf, bnum, false)
  | n + 1 =>
    let val := Bytes.get64 buf (8 * j)
    if val = 0xffffffffffffffff then scanWords buf (bnum + 64) (j + 1) n
    else
      let bnum := bnum + trailingOnes 64 val
      (Bytes.set64 buf (8 * j) (val ||| shl1 (bnum % 64 : ℕ)), bnum, true)

/-- The loop of `alloc_block` over the `n` sectors of the block map from number
`i`. -/
def allocBlockLoop (fs : Fs) (bmapStart bnum i : ℕ) : ℕ → ℕ × Fs
  | 0 => (bnum, fs)
  | n + 1 =>
    let (buf, bnum, finished) := scanWords (fs.sdread 1 (bmapStart + i)) bnum 0 64
    let fs := fs.sdwrite buf 1 (bmapStart + i)
    if finished then (bnum, fs) else fs.allocBlockLoop bmapStart bnum (i + 1) n

/-- `alloc_block`. -/
def allocBlock (fs : Fs) : ℕ × Fs :=
  let bmapStart := fs.superblock.start + fs.superblock.bmapOffset
  let (bnum, fs) := fs.allocBlockLoop bmapStart 0 0 nsectorsBmap
  (bnum + 1, fs)

/-- The sector at which a block starts; the product is a C `int`. -/
def blockSector (fs : Fs) (blockNum : ℕ) : ℕ :=
  (fs.superblock.start + blockNum * nsectorsPerBlock) % 2 ^ 32

/-- `read_block`. -/
def readBlock (fs : Fs) (blockNum : ℕ) : Fs :=
  { fs with blockBuf := fs.sdread nsectorsPerBlock (fs.blockSector blockNum) }

/-- `write_block`. -/
def writeBlock (fs : Fs) (blockNum : ℕ) : Fs :=
  fs.sdwrite fs.blockBuf nsectorsPerBlock (fs.blockSector blockNum)

/-- The bitwise complement of a 64-bit word. -/
def not64 (v : ℕ) : ℕ := 2 ^ 64 - 1 - v % 2 ^ 64

/-- `sector_buf[i] &= ~(1 << k)`, for a 64-word buffer: an index outside of it
has no defined result. -/
def clearBit (buf : Bytes) (i k : ℤ) : Option Bytes :=
  if 0 ≤ i ∧ i < 64 then
    let a := 8 * i.toNat
    some (Bytes.set64 buf a (Bytes.get64 buf a &&& not64 (shl1 k)))
  else none

/-- `free_block`.  The parameter is a C `int`. -/
def freeBlock (fs : Fs) (blockNum : ℤ) : Option Fs :=
  if blockNum = 0 then some fs
  else do
    let sectorOffset := blockNum.tdiv nbitsPerSector
    let arrOffset := (blockNum.tmod nbitsPerSector).tdiv 64
    let bitOffset := (blockNum.tmod nbitsPerSector).tmod 64 - 1
    let bmapStart := fs.superblock.start + fs.superblock.bmapOffset
    let sector := ((bmapStart + sectorOffset) % 2 ^ 32).toNat
    let buf ← clearBit (fs.sdread 1 sector) arrOffset bitOffset
    some (fs.sdwrite buf 1 sector)

/-- `alloc_inode`. -/
def allocInode (fs : Fs) : ℤ × Fs :=
  let imapStart := fs.superblock.start + fs.superblock.imapOffset
  let (buf, inum, _) := scanWords (fs.sdread 1 imapStart) 0 0 64
  (inum + 1, fs.sdwrite buf 1 imapStart)

/-- `free_inode`. -/
def freeInode (fs : Fs) (inodeNum : ℤ) : Option Fs := do
  let imapStart := fs.superblock.start + fs.superblock.imapOffset
  let buf ← clearBit (fs.sdread 1 imapStart) (inodeNum.tdiv 64) (inodeNum.tmod 64 - 1)
  some (fs.sdwrite buf 1 imapStart)

/-! ## Inode slots -/

/-- The sector of an inode and the number of its slot in the sector, both as C
`uint32_t` values. -/
def inodeSlot (fs : Fs) (inodeNum : ℤ) : ℕ × ℕ :=
  let inodeStart := fs.superblock.start + fs.superblock.inodeOffset
  (((inodeStart + (inodeNum - 1).tdiv nsectorsPerBlock) % 2 ^ 32).toNat,
    (((inodeNum - 1).tmod nsectorsPerBlock) % 2 ^ 32).toNat)

/-- `read_inode`; a slot outside the sector buffer has no defined content. -/
def readInode (fs : Fs) (inodeNum : ℤ) : Option Inode :=
  let (sector, offset) := fs.inodeSlot inodeNum
  if offset < 8 then some (Inode.get (fs.sdread 1 sector) (Inode.sizeof * offset)) else none

/-- `write_inode`. -/
def writeInode (fs : Fs) (inodeNum : ℤ) (inode : Inode) : Option Fs :=
  let (sector, offset) := fs.inodeSlot inodeNum
  if offset < 8 then
    some (fs.sdwrite (Inode.put (fs.sdread 1 sector) (Inode.sizeof * offset) inode) 1 sector)
  else none

/-! ## Reading the card after a write -/

lemma getLE_sdread (fs : Fs) {n s m a : ℕ} (h : a + m ≤ nbytesPerSector * n) :
    Bytes.getLE (fs.sdread n s) m a =
      Bytes.getLE fs.disk m (nbytesPerSector * (s % 2 ^ 32) + a) := by
  rw [sdread, Bytes.getLE_blit ⟨by omega, by omega⟩, Nat.sub_zero]

lemma disk_sdwrite (fs : Fs) (buf : Bytes) (n s : ℕ) :
    (fs.sdwrite buf n s).disk =
      Bytes.blit fs.disk (nbytesPerSector * (s % 2 ^ 32)) buf 0 (nbytesPerSector * n) := rfl

/-- The integers of a range of sectors just written are those of the buffer. -/
lemma getLE_sdwrite (fs : Fs) {buf : Bytes} {n s m a : ℕ} (h : a + m ≤ nbytesPerSector * n) :
    Bytes.getLE (fs.sdwrite buf n s).disk m (nbytesPerSector * (s % 2 ^ 32) + a) =
      Bytes.getLE buf m a := by
  rw [sdwrite, Bytes.getLE_blit ⟨by omega, by omega⟩]
  congr 1
  omega

/-- A write leaves every byte outside its sectors as it was. -/
lemma disk_sdwrite_of_disjoint (fs : Fs) {buf : Bytes} {n s x : ℕ}
    (h : x < nbytesPerSector * (s % 2 ^ 32) ∨ nbytesPerSector * (s % 2 ^ 32 + n) ≤ x) :
    (fs.sdwrite buf n s).disk x = fs.disk x := by
  rw [Nat.mul_add] at h
  exact Bytes.blit_apply_of_notMem h

lemma getLE_sdwrite_of_disjoint (fs : Fs) {buf : Bytes} {n s m c : ℕ}
    (h : c + m ≤ nbytesPerSector * (s % 2 ^ 32) ∨ nbytesPerSector * (s % 2 ^ 32 + n) ≤ c) :
    Bytes.getLE (fs.sdwrite buf n s).disk m c = Bytes.getLE fs.disk m c := by
  rw [Nat.mul_add] at h
  exact Bytes.getLE_blit_of_disjoint h

/-- The fields that no access to the card changes. -/
@[simp] lemma superblock_sdwrite (fs : Fs) (buf : Bytes) (n s : ℕ) :
    (fs.sdwrite buf n s).superblock = fs.superblock := rfl
@[simp] lemma superblock_writeBlock (fs : Fs) (b : ℕ) :
    (fs.writeBlock b).superblock = fs.superblock := rfl
@[simp] lemma superblock_readBlock (fs : Fs) (b : ℕ) :
    (fs.readBlock b).superblock = fs.superblock := rfl
@[simp] lemma disk_readBlock (fs : Fs) (b : ℕ) : (fs.readBlock b).disk = fs.disk := rfl
@[simp] lemma blockBuf_sdwrite (fs : Fs) (buf : Bytes) (n s : ℕ) :
    (fs.sdwrite buf n s).blockBuf = fs.blockBuf := rfl
@[simp] lemma cwdInum_sdwrite (fs : Fs) (buf : Bytes) (n s : ℕ) :
    (fs.sdwrite buf n s).cwdInum = fs.cwdInum := rfl

end Fs
end UcasKernel
