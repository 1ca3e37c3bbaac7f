/-
The on-disk records of the file system, from `include/os/fs.h`.

An inode is 64 bytes.  A directory entry has the natural C layout: `valid` at
offset 0, `inum` at offset 4, the 27 bytes of `name` from offset 8, and a size
rounded up to 36, so that a block of 4096 bytes holds 113 whole entries although
`NDENTRIES_PER_BLOCK` is 128.
-/
import UcasKernel.Lib.Bytes

namespace UcasKernel
namespace Fs

def superblockMagic : ℕ := 0x20221205
def fsStartSector : ℕ := 0x100000
def numFdescs : ℕ := 16

def nbytesPerBlock : ℕ := 4096
def nbytesPerSector : ℕ := 512
def nbitsPerSector : ℕ := 4096
def nsectorsPerBlock : ℕ := 8

def nsectorsFs : ℕ := 0x100000
def nsectorsSuperblock : ℕ := 1
def nsectorsBmap : ℕ := 32
def nsectorsImap : ℕ := 1
def nsectorsInodeblock : ℕ := 512

def rootDirInum : ℤ := 1
def testBigFileInum : ℤ := 2
def ndirectBlocks : ℕ := 10
def nindirectBlocks : ℕ := 1024

def dentryNameLen : ℕ := 26
def ndentriesPerBlock : ℕ := 128

/-- `superblock_t`. -/
structure Superblock where
  magic : ℕ
  start : ℕ
  size : ℕ
  bmapOffset : ℕ
  imapOffset : ℕ
  inodeOffset : ℕ
  dataOffset : ℕ
  inodeSize : ℕ
  dentrySize : ℕ
deriving DecidableEq, Repr

/-- The bytes of the superblock object, copied to the head of its sector. -/
def Superblock.put (b : Bytes) (sb : Superblock) : Bytes :=
  let b := Bytes.set32 b 0 sb.magic
  let b := Bytes.set32 b 4 sb.start
  let b := Bytes.set32 b 8 sb.size
  let b := Bytes.set32 b 12 sb.bmapOffset
  let b := Bytes.set32 b 16 sb.imapOffset
  let b := Bytes.set32 b 20 sb.inodeOffset
  let b := Bytes.set32 b 24 sb.dataOffset
  let b := Bytes.set16 b 28 sb.inodeSize
  Bytes.set16 b 30 sb.dentrySize

/-- `inode_type_t`: the values of the field `type`. -/
def typeFile : ℕ := 1
def typeDirectory : ℕ := 2

/-- `inode_t`. -/
structure Inode where
  type : ℕ
  permission : ℕ
  size : ℕ
  ref : ℕ
  timeCreated : ℕ
  direct : ℕ → ℕ
  indirect : ℕ
  doubleIndirect : ℕ

namespace Inode

/-- `sizeof(inode_t)`. -/
def sizeof : ℕ := 64

/-- An inode after `memset` to zero. -/
def zero : Inode := ⟨0, 0, 0, 0, 0, fun _ => 0, 0, 0⟩

/-- Read the inode at offset `a` of a sector buffer. -/
def get (b : Bytes) (a : ℕ) : Inode where
  type := Bytes.get16 b a
  permission := Bytes.get16 b (a + 2)
  size := Bytes.get32 b (a + 4)
  ref := Bytes.get32 b (a + 8)
  timeCreated := Bytes.get32 b (a + 12)
  direct := fun i => Bytes.get32 b (a + 16 + 4 * i)
  indirect := Bytes.get32 b (a + 56)
  doubleIndirect := Bytes.get32 b (a + 60)

/-- The first `n` slots of `direct`, from offset `a`. -/
def putDirect (b : Bytes) (a : ℕ) (direct : ℕ → ℕ) : ℕ → Bytes
  | 0 => b
  | n + 1 => Bytes.set32 (putDirect b a direct n) (a + 4 * n) (direct n)

/-- Write the inode to offset `a` of a sector buffer. -/
def put (b : Bytes) (a : ℕ) (inode : Inode) : Bytes :=
  let b := Bytes.set16 b a inode.type
  let b := Bytes.set16 b (a + 2) inode.permission
  let b := Bytes.set32 b (a + 4) inode.size
  let b := Bytes.set32 b (a + 8) inode.ref
  let b := Bytes.set32 b (a + 12) inode.timeCreated
  let b := putDirect b (a + 16) inode.direct ndirectBlocks
  let b := Bytes.set32 b (a + 56) inode.indirect
  Bytes.set32 b (a + 60) inode.doubleIndirect

/-- Store block number `v` in slot `i` of `direct`. -/
def setDirect (inode : Inode) (i v : ℕ) : Inode :=
  { inode with direct := Function.update inode.direct i v }

lemma get32_putDirect (b : Bytes) (a : ℕ) (direct : ℕ → ℕ) {n i : ℕ} (hi : i < n) :
    Bytes.get32 (putDirect b a direct n) (a + 4 * i) = direct i % 2 ^ 32 := by
  induction n with
  | zero => omega
  | succ n ih =>
    rcases Nat.lt_succ_iff_lt_or_eq.1 hi with h | rfl
    · rw [putDirect, Bytes.get32, Bytes.getLE_setLE_of_disjoint (by omega)]
      exact ih h
    · rw [putDirect, Bytes.get32, Bytes.getLE_setLE]
      norm_num

lemma getLE_putDirect_of_disjoint {b : Bytes} {a n m c : ℕ} {direct : ℕ → ℕ}
    (h : c + m ≤ a ∨ a + 4 * n ≤ c) :
    Bytes.getLE (putDirect b a direct n) m c = Bytes.getLE b m c := by
  induction n with
  | zero => rfl
  | succ n ih => rw [putDirect, Bytes.getLE_setLE_of_disjoint (by omega), ih (by omega)]

/-- The fields of an inode read back from the slot it was written to. -/
lemma get_put_direct (b : Bytes) (a : ℕ) (inode : Inode) {i : ℕ} (hi : i < ndirectBlocks) :
    (get (put b a inode) a).direct i = inode.direct i % 2 ^ 32 := by
  have hi' : i < 10 := hi
  simp only [get, put]
  rw [Bytes.get32, Bytes.getLE_setLE_of_disjoint (by omega),
    Bytes.getLE_setLE_of_disjoint (by omega)]
  exact get32_putDirect _ _ _ hi

lemma get_put_indirect (b : Bytes) (a : ℕ) (inode : Inode) :
    (get (put b a inode) a).indirect = inode.indirect % 2 ^ 32 := by
  simp only [get, put]
  rw [Bytes.get32, Bytes.getLE_setLE_of_disjoint (by omega), Bytes.getLE_setLE]
  norm_num

lemma get_put_doubleIndirect (b : Bytes) (a : ℕ) (inode : Inode) :
    (get (put b a inode) a).doubleIndirect = inode.doubleIndirect % 2 ^ 32 := by
  simp only [get, put]
  rw [Bytes.get32, Bytes.getLE_setLE]
  norm_num

end Inode

/-- `fdesc_t`. -/
structure Fdesc where
  inum : ℤ
  read : Bool
  write : Bool
  offset : ℕ
deriving DecidableEq, Repr

/-- A descriptor after `memset` to zero. -/
def Fdesc.zero : Fdesc := ⟨0, false, false, 0⟩

/-! ## Directory entries -/

/-- `sizeof(dentry_t)`. -/
def sizeofDentry : ℕ := 36

/-- The byte of `block_buf` at an offset; reading past its 4096 bytes has no
defined result. -/
def blockByte (buf : Bytes) (a : ℕ) : Option UInt8 :=
  if a < nbytesPerBlock then some (buf a) else none

/-- `dentries[j].valid`. -/
def dentryValid (buf : Bytes) (j : ℕ) : Option Bool :=
  (blockByte buf (sizeofDentry * j)).map (· ≠ 0)

/-- `dentries[j].inum`. -/
def dentryInum (buf : Bytes) (j : ℕ) : Option ℕ :=
  if sizeofDentry * j + 8 ≤ nbytesPerBlock then
    some (Bytes.get32 buf (sizeofDentry * j + 4))
  else none

/-- `strcmp` of the string at offset `a` of `block_buf` with a path is zero. -/
def strcmpAt (buf : Bytes) : ℕ → List UInt8 → Option Bool
  | a, [] => (blockByte buf a).map (· = 0)
  | a, c :: cs => do
    if (← blockByte buf a) = c then strcmpAt buf (a + 1) cs else some false

/-- `dentries[j].valid && strcmp(dentries[j].name, path) == 0`. -/
def dentryMatches (buf : Bytes) (j : ℕ) (path : List UInt8) : Option Bool := do
  if ← dentryValid buf j then strcmpAt buf (sizeofDentry * j + 8) path else some false

/-- `strcpy` of a path to offset `a` of `block_buf`, terminator included. -/
def strcpyAt (buf : Bytes) (a : ℕ) : List UInt8 → Bytes
  | [] => Function.update buf a 0
  | c :: cs => strcpyAt (Function.update buf a c) (a + 1) cs

/-- Entry `j` made valid with the given inode number and name. -/
def setDentry (buf : Bytes) (j : ℕ) (inum : ℤ) (name : List UInt8) : Bytes :=
  let buf := Bytes.set32 buf (sizeofDentry * j + 4) (inum % 2 ^ 32).toNat
  let buf := Function.update buf (sizeofDentry * j) 1
  strcpyAt buf (sizeofDentry * j + 8) name

/-- The same in `block_buf`; a name that does not end inside it overruns it. -/
def putDentry (buf : Bytes) (j : ℕ) (inum : ℤ) (name : List UInt8) : Option Bytes :=
  if sizeofDentry * j + 8 + name.length < nbytesPerBlock then some (setDentry buf j inum name)
  else none

end Fs
end UcasKernel
