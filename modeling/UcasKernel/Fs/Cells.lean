/-
The cells that hold the block numbers of a file.

`offset_to_blk` and `set_inode_blk_num` both compute the way from an offset to an entry
of `direct`, of the indirect block or of a block of the second level.  Here an entry is
a value of its own, whose indices are in the bounds of their arrays, and the two
functions are a read and a write of the cell of the offset.  A write is seen by the
reads of that cell only, as long as the index blocks on the way are different blocks.
-/
import UcasKernel.Fs.Slots

namespace UcasKernel
namespace Fs

/-- An entry of the three-level map from the blocks of a file to block numbers. -/
inductive Cell
  | direct (i : Fin ndirectBlocks)
  | indirect (i : Fin nindirectBlocks)
  | double (i j : Fin nindirectBlocks)
deriving DecidableEq

/-- An index block of a file: the two in the inode, and those of the second level. -/
inductive Index
  | indirect
  | double
  | second (i : Fin nindirectBlocks)

lemma blk_indirect_lt {blk : ℕ} (hi : blk < ndirectBlocks + nindirectBlocks)
    (hd : ¬ blk < ndirectBlocks) : blk - ndirectBlocks < nindirectBlocks := by
  omega

/-- The second level holds every block that a 32-bit offset can name. -/
lemma blk_double_lt {offset : ℕ} (h : offset < 2 ^ 32) :
    (offset / nbytesPerBlock - (ndirectBlocks + nindirectBlocks)) / nindirectBlocks <
      nindirectBlocks := by
  simp only [nbytesPerBlock, ndirectBlocks, nindirectBlocks]
  omega

lemma mod_nindirectBlocks_lt (n : ℕ) : n % nindirectBlocks < nindirectBlocks :=
  Nat.mod_lt _ (by decide)

namespace Cell

/-- The cell of a 32-bit offset. -/
def ofOffset (offset : ℕ) (h : offset < 2 ^ 32) : Cell :=
  if hd : offset / nbytesPerBlock < ndirectBlocks then .direct ⟨offset / nbytesPerBlock, hd⟩
  else if hi : offset / nbytesPerBlock < ndirectBlocks + nindirectBlocks then
    .indirect ⟨offset / nbytesPerBlock - ndirectBlocks, blk_indirect_lt hi hd⟩
  else
    .double
      ⟨(offset / nbytesPerBlock - (ndirectBlocks + nindirectBlocks)) / nindirectBlocks,
        blk_double_lt h⟩
      ⟨(offset / nbytesPerBlock - (ndirectBlocks + nindirectBlocks)) % nindirectBlocks,
        mod_nindirectBlocks_lt _⟩

/-- `offset_to_blk`, from the cell on. -/
def fetch (fs : Fs) (x : Inode) : Cell → ℕ × Fs
  | direct i => (x.direct i, fs)
  | indirect i =>
    let fs := fs.readBlock x.indirect
    (fs.indexEntry i, fs)
  | double i j =>
    let fs := fs.readBlock x.doubleIndirect
    let fs := fs.readBlock (fs.indexEntry i)
    (fs.indexEntry j, fs)

/-- `set_inode_blk_num`, from the cell on. -/
def assign (fs : Fs) (newBlk : ℕ) (x : Inode) (inum : ℤ) : Cell → Option (Inode × Fs)
  | direct i => do
    let fs ← fs.writeInode inum (x.setDirect i newBlk)
    some (x.setDirect i newBlk, fs)
  | indirect i =>
    let fs := fs.readBlock x.indirect
    let fs := fs.setIndexEntry i newBlk
    some (x, fs.writeBlock x.indirect)
  | double i j =>
    let fs := fs.readBlock x.doubleIndirect
    let dbIndirectBlkNum := fs.indexEntry i
    let fs := fs.readBlock dbIndirectBlkNum
    let fs := fs.setIndexEntry j newBlk
    some (x, fs.writeBlock dbIndirectBlkNum)

/-- The index blocks on the way to a cell. -/
def path : Cell → Set Index
  | direct _ => ∅
  | indirect _ => {.indirect}
  | double i _ => {.double, .second i}

end Cell

/-- The block number of an index block. -/
def Index.block (fs : Fs) (x : Inode) : Index → ℕ
  | indirect => x.indirect
  | double => x.doubleIndirect
  | second i => Bytes.get32 (fs.block x.doubleIndirect) (4 * i)

/-- The block number in a cell. -/
def Cell.value (fs : Fs) (x : Inode) : Cell → ℕ
  | direct i => x.direct i
  | indirect i => Bytes.get32 (fs.block x.indirect) (4 * i)
  | double i j => Bytes.get32 (fs.block (Index.block fs x (.second i))) (4 * j)

/-- A block that was allocated and has no byte in common with the inodes. -/
structure IndexBlock (b : ℕ) : Prop where
  ne_zero : b ≠ 0
  lt : b < nblocks
  apart : Disjoint (blockBytes b) inodeBytes

/-- Index blocks that are allocated, outside of the inodes, and pairwise distinct. -/
structure Indexed (fs : Fs) (x : Inode) (S : Set Index) : Prop where
  allocated : ∀ p ∈ S, IndexBlock (p.block fs x)
  distinct : S.InjOn (Index.block fs x)

/-! ## The cell of an offset -/

section Offset

variable {offset offset' : ℕ}

/-- Two offsets have the same cell if they lie in the same block of the file. -/
lemma Cell.ofOffset_inj (h : offset < 2 ^ 32) (h' : offset' < 2 ^ 32) :
    Cell.ofOffset offset' h' = Cell.ofOffset offset h ↔
      offset' / nbytesPerBlock = offset / nbytesPerBlock := by
  constructor
  · intro heq
    unfold ofOffset at heq
    split at heq <;> split at heq <;> try split at heq
    all_goals try split at heq
    all_goals simp only [direct.injEq, indirect.injEq, double.injEq, Fin.mk.injEq, reduceCtorEq] at heq
    · exact heq
    · simp only [ndirectBlocks, nindirectBlocks] at *
      omega
    · have hdiv := Nat.div_add_mod (offset / nbytesPerBlock - (ndirectBlocks + nindirectBlocks))
        nindirectBlocks
      have hdiv' := Nat.div_add_mod (offset' / nbytesPerBlock - (ndirectBlocks + nindirectBlocks))
        nindirectBlocks
      rw [heq.1, heq.2] at hdiv'
      omega
  · intro heq
    unfold ofOffset
    simp only [heq]

lemma offsetToBlk_eq_fetch (h : offset < 2 ^ 32) (fs : Fs) (x : Inode) :
    fs.offsetToBlk offset x = (Cell.ofOffset offset h).fetch fs x := by
  unfold offsetToBlk Cell.ofOffset
  dsimp only
  split
  · rfl
  · split <;> rfl

lemma setInodeBlkNum_eq_assign (h : offset < 2 ^ 32) (fs : Fs) (newBlk : ℕ) (x : Inode) (inum : ℤ) :
    fs.setInodeBlkNum offset newBlk x inum =
      (Cell.ofOffset offset h).assign fs newBlk x inum := by
  unfold setInodeBlkNum Cell.ofOffset
  dsimp only
  split
  · rfl
  · split <;> rfl

end Offset

/-! ## Reading a cell -/

lemma IndexBlock.lt' {b : ℕ} (hb : IndexBlock b) : b < 2 ^ 17 := hb.lt

section Fetch

variable {fs : Fs} {x : Inode} {c : Cell}

lemma Indexed.mono {S T : Set Index} (hx : Indexed fs x T) (h : S ⊆ T) : Indexed fs x S :=
  ⟨fun p hp => hx.allocated p (h hp), hx.distinct.mono h⟩

lemma Indexed.ne {S : Set Index} {p q : Index} (hx : Indexed fs x S) (hp : p ∈ S) (hq : q ∈ S)
    (hne : p ≠ q) : p.block fs x ≠ q.block fs x := fun heq => hne (hx.distinct hp hq heq)

lemma Cell.fetch_value (h : fs.superblock = mkfsSuperblock) (hx : Indexed fs x c.path) :
    (c.fetch fs x).1 = c.value fs x := by
  cases c with
  | direct i => rfl
  | indirect i =>
    have hlt : x.indirect < 2 ^ 17 := (hx.allocated .indirect rfl).lt'
    simp only [fetch, readBlock_block h hlt]
    rfl
  | double i j =>
    have hdouble : x.doubleIndirect < 2 ^ 17 := (hx.allocated .double (.inl rfl)).lt'
    have hsecond : Index.block fs x (.second i) < 2 ^ 17 := (hx.allocated _ (.inr rfl)).lt'
    simp only [fetch, readBlock_block h hdouble]
    have hentry : ({ fs with blockBuf := fs.block x.doubleIndirect } : Fs).indexEntry i =
        Index.block fs x (.second i) := rfl
    rw [hentry, readBlock_block (by exact h) hsecond]
    rfl

end Fetch

/-! ## Writing a cell -/

/-- An entry of an index block is changed in the block buffer and written back. -/
def storeEntry (fs : Fs) (b k newBlk : ℕ) : Fs :=
  ({ fs with blockBuf := Bytes.set32 (fs.block b) (4 * k) newBlk } : Fs).writeBlock b

section StoreEntry

variable {fs : Fs} {b k newBlk : ℕ}

@[simp] lemma superblock_storeEntry (fs : Fs) (b k newBlk : ℕ) :
    (fs.storeEntry b k newBlk).superblock = fs.superblock := rfl

lemma changesIn_storeEntry (h : fs.superblock = mkfsSuperblock) (hb : b < 2 ^ 17) :
    fs.ChangesIn (blockBytes b) (fs.storeEntry b k newBlk) :=
  @changesIn_writeBlock { fs with blockBuf := _ } b h hb

/-- The entries of all blocks after the change of one. -/
lemma entry_storeEntry (h : fs.superblock = mkfsSuperblock) (hb : b < 2 ^ 17)
    (hnew : newBlk < 2 ^ 32) {c l : ℕ} (hl : l < nindirectBlocks) :
    Bytes.get32 ((fs.storeEntry b k newBlk).block c) (4 * l) =
      if c = b ∧ l = k then newBlk else Bytes.get32 (fs.block c) (4 * l) := by
  have hl' : l < 1024 := hl
  by_cases hc : c = b
  · subst hc
    have hblock : Bytes.get32 ((fs.storeEntry c k newBlk).block c) (4 * l) =
        Bytes.get32 (Bytes.set32 (fs.block c) (4 * k) newBlk) (4 * l) :=
      Bytes.getLE_congr fun i hi => block_writeBlock (by exact h) hb
        (by simp only [nbytesPerBlock]; omega)
    rw [hblock]
    by_cases hk : l = k
    · rw [if_pos ⟨rfl, hk⟩, hk, Bytes.get32, Bytes.getLE_setLE]
      exact Nat.mod_eq_of_lt hnew
    · rw [if_neg fun hmem => hk hmem.2, Bytes.get32, Bytes.getLE_setLE_of_disjoint (by omega)]
  · rw [if_neg fun hmem => hc hmem.1,
      (changesIn_storeEntry h hb).block (disjoint_block_block fun heq => hc heq.symm)]

end StoreEntry

section Assign

variable {fs fs' : Fs} {x x' : Inode} {c c' : Cell} {inum newBlk : ℕ}

/-- What a write of a cell does, by the kind of the cell. -/
inductive Assigned (fs : Fs) (newBlk : ℕ) (x : Inode) (inum : ℕ) : Cell → Inode → Fs → Prop
  | direct (i : Fin ndirectBlocks) {fs' : Fs}
      (hw : fs.writeInode inum (x.setDirect i newBlk) = some fs') :
      Assigned fs newBlk x inum (.direct i) (x.setDirect i newBlk) fs'
  | indirect (i : Fin nindirectBlocks) :
      Assigned fs newBlk x inum (.indirect i) x (fs.storeEntry x.indirect i newBlk)
  | double (i j : Fin nindirectBlocks) :
      Assigned fs newBlk x inum (.double i j) x
        (fs.storeEntry (Index.block fs x (.second i)) j newBlk)

lemma Cell.assigned (h : fs.superblock = mkfsSuperblock) (hinum : 1 ≤ inum ∧ inum ≤ ninodes)
    (hx : Indexed fs x c.path) :
    ∃ x' fs', c.assign fs newBlk x inum = some (x', fs') ∧ Assigned fs newBlk x inum c x' fs' := by
  cases c with
  | direct i =>
    obtain ⟨fs', hwrite, -⟩ := writeInode_spec h hinum (x.setDirect i newBlk)
    refine ⟨_, fs', ?_, .direct i hwrite⟩
    simp only [assign, hwrite, Option.bind_eq_bind, Option.bind_some]
  | indirect i =>
    have hlt : x.indirect < 2 ^ 17 := (hx.allocated .indirect rfl).lt'
    refine ⟨x, _, ?_, .indirect i⟩
    simp only [assign, readBlock_block h hlt]
    rfl
  | double i j =>
    have hdouble : x.doubleIndirect < 2 ^ 17 := (hx.allocated .double (.inl rfl)).lt'
    have hsecond : Index.block fs x (.second i) < 2 ^ 17 := (hx.allocated _ (.inr rfl)).lt'
    refine ⟨x, _, ?_, .double i j⟩
    simp only [assign, readBlock_block h hdouble]
    have hentry : ({ fs with blockBuf := fs.block x.doubleIndirect } : Fs).indexEntry i =
        Index.block fs x (.second i) := rfl
    rw [hentry, readBlock_block (by exact h) hsecond]
    rfl

/-- The bytes that a write of a cell changes: those of the block that holds the cell, or
those of the inode. -/
def Cell.region (fs : Fs) (x : Inode) (inum : ℕ) : Cell → Set ℕ
  | .direct _ => slotBytes inum
  | .indirect _ => blockBytes x.indirect
  | .double i _ => blockBytes (Index.block fs x (.second i))

lemma Assigned.changesIn (ha : Assigned fs newBlk x inum c x' fs')
    (h : fs.superblock = mkfsSuperblock) (hinum : 1 ≤ inum ∧ inum ≤ ninodes)
    (hx : Indexed fs x c.path) : fs.ChangesIn (c.region fs x inum) fs' := by
  cases ha with
  | direct i hw => exact changesIn_writeInode h hinum hw
  | indirect i => exact changesIn_storeEntry h (hx.allocated .indirect rfl).lt'
  | double i j => exact changesIn_storeEntry h (hx.allocated _ (.inr rfl)).lt'

lemma Assigned.superblock (ha : Assigned fs newBlk x inum c x' fs')
    (h : fs.superblock = mkfsSuperblock) (hinum : 1 ≤ inum ∧ inum ≤ ninodes) :
    fs'.superblock = mkfsSuperblock := by
  cases ha with
  | direct i hw => exact superblock_writeInode h hinum hw
  | indirect i => rw [superblock_storeEntry, h]
  | double i j => rw [superblock_storeEntry, h]

lemma Assigned.inode_fields (ha : Assigned fs newBlk x inum c x' fs') :
    x'.indirect = x.indirect ∧ x'.doubleIndirect = x.doubleIndirect := by
  cases ha <;> exact ⟨rfl, rfl⟩

/-- The entries that lead to blocks of the second level are not written. -/
lemma Indexed.region_apart (hx : Indexed fs x (c.path ∪ c'.path))
    (hinum : 1 ≤ inum ∧ inum ≤ ninodes) (hd : Index.double ∈ c'.path) :
    Disjoint (c.region fs x inum) (blockBytes x.doubleIndirect) := by
  cases c with
  | direct i =>
    exact (hx.allocated .double (.inr hd)).apart.symm.mono_left (slotBytes_subset hinum)
  | indirect i =>
    refine disjoint_block_block fun heq => ?_
    exact hx.ne (p := .indirect) (q := .double) (.inl rfl) (.inr hd) (by simp) heq
  | double i j =>
    refine disjoint_block_block fun heq => ?_
    exact hx.ne (p := .second i) (q := .double) (.inl (.inr rfl)) (.inr hd) (by simp) heq

/-- The way to another cell is the same after the write. -/
lemma Assigned.index (ha : Assigned fs newBlk x inum c x' fs') (h : fs.superblock = mkfsSuperblock)
    (hinum : 1 ≤ inum ∧ inum ≤ ninodes) (hx : Indexed fs x (c.path ∪ c'.path)) {p : Index}
    (hp : p ∈ c'.path) : p.block fs' x' = p.block fs x := by
  obtain ⟨hindirect, hdouble⟩ := ha.inode_fields
  cases p with
  | indirect => exact hindirect
  | double => exact hdouble
  | second k =>
    have hd : Index.double ∈ c'.path := by
      cases c' with
      | direct i => cases hp
      | indirect i => cases hp
      | double i j => exact .inl rfl
    have hblock := (ha.changesIn h hinum (hx.mono Set.subset_union_left)).block
      (hx.region_apart hinum hd)
    rw [Index.block, hdouble, hblock]
    rfl

lemma Assigned.indexed (ha : Assigned fs newBlk x inum c x' fs')
    (h : fs.superblock = mkfsSuperblock) (hinum : 1 ≤ inum ∧ inum ≤ ninodes)
    (hx : Indexed fs x (c.path ∪ c'.path)) : Indexed fs' x' c'.path := by
  refine ⟨fun p hp => ?_, fun p hp q hq heq => ?_⟩
  · rw [ha.index h hinum hx hp]
    exact hx.allocated p (.inr hp)
  · rw [ha.index h hinum hx hp, ha.index h hinum hx hq] at heq
    exact hx.distinct (.inr hp) (.inr hq) heq

/-- After a write of a cell of the inode, no block has changed that holds a cell. -/
lemma value_of_direct {i : Fin ndirectBlocks} (h : fs.superblock = mkfsSuperblock)
    (hinum : 1 ≤ inum ∧ inum ≤ ninodes)
    (hw : fs.writeInode inum (x.setDirect i newBlk) = some fs') (hx : Indexed fs x c'.path) :
    c'.value fs' (x.setDirect i newBlk) = if c' = .direct i then newBlk else c'.value fs x := by
  have hkeep : ∀ p ∈ c'.path, fs'.block (p.block fs x) = fs.block (p.block fs x) := fun p hp =>
    (changesIn_writeInode h hinum hw).block
      ((hx.allocated p hp).apart.symm.mono_left (slotBytes_subset hinum))
  cases c' with
  | direct i' =>
    by_cases hi : i' = i
    · subst hi
      rw [if_pos rfl]
      exact Function.update_self ..
    · rw [if_neg fun heq => hi (Cell.direct.inj heq)]
      exact Function.update_of_ne (fun heq => hi (Fin.ext heq)) _ _
  | indirect i' =>
    rw [if_neg (by simp)]
    exact congrArg (Bytes.get32 · (4 * i')) (hkeep .indirect rfl)
  | double i' j' =>
    have hx' : Indexed fs x ((Cell.direct i).path ∪ (Cell.double i' j').path) := by
      rwa [Cell.path, Set.empty_union]
    rw [if_neg (by simp), Cell.value, (Assigned.direct i hw).index h hinum hx' (.inr rfl),
      hkeep _ (.inr rfl)]
    rfl

/-- A cell that was written holds the new number, and every other one the old. -/
lemma Assigned.value (ha : Assigned fs newBlk x inum c x' fs') (h : fs.superblock = mkfsSuperblock)
    (hinum : 1 ≤ inum ∧ inum ≤ ninodes) (hnew : newBlk < 2 ^ 32)
    (hx : Indexed fs x (c.path ∪ c'.path)) :
    c'.value fs' x' = if c' = c then newBlk else c'.value fs x := by
  have hindex := fun p => ha.index (p := p) h hinum hx
  cases ha with
  | direct i hw => exact value_of_direct h hinum hw (hx.mono Set.subset_union_right)
  | indirect i =>
    have hin : Index.indirect ∈ (Cell.indirect i).path ∪ c'.path := .inl rfl
    have hlt : x.indirect < 2 ^ 17 := (hx.allocated _ hin).lt'
    cases c' with
    | direct i' => rfl
    | indirect i' =>
      rw [Cell.value, entry_storeEntry h hlt hnew i'.2]
      simp only [true_and, Cell.indirect.injEq, Fin.ext_iff]
      rfl
    | double i' j' =>
      have hsecond : Index.block fs x (.second i') ≠ x.indirect :=
        hx.ne (.inr (.inr rfl)) hin (by simp)
      rw [Cell.value, hindex _ (.inr rfl), entry_storeEntry h hlt hnew j'.2,
        if_neg fun hmem => hsecond hmem.1, if_neg (by simp)]
      rfl
  | double i j =>
    have hin : Index.second i ∈ (Cell.double i j).path ∪ c'.path := .inl (.inr rfl)
    have hlt : Index.block fs x (.second i) < 2 ^ 17 := (hx.allocated _ hin).lt'
    cases c' with
    | direct i' => rfl
    | indirect i' =>
      have hindirect : x.indirect ≠ Index.block fs x (.second i) :=
        hx.ne (p := .indirect) (.inr rfl) hin (by simp)
      rw [Cell.value, entry_storeEntry h hlt hnew i'.2, if_neg fun hmem => hindirect hmem.1,
        if_neg (by simp)]
      rfl
    | double i' j' =>
      have hsame : Index.block fs x (.second i') = Index.block fs x (.second i) ↔ i' = i := by
        rw [hx.distinct.eq_iff (.inr (.inr rfl)) hin, Index.second.injEq]
      rw [Cell.value, hindex _ (.inr rfl), entry_storeEntry h hlt hnew j'.2]
      simp only [hsame, Cell.double.injEq, Fin.ext_iff]
      rfl

end Assign

section Pointers

variable {fs : Fs} {x : Inode} {inum newBlk offset offset' : ℕ}

/-- A block number that was set is found again at the offsets of its block of the file,
and every other lookup is as before. -/
theorem offsetToBlk_setInodeBlkNum (h : fs.superblock = mkfsSuperblock)
    (hinum : 1 ≤ inum ∧ inum ≤ ninodes) (hnew : newBlk < 2 ^ 32) (ho : offset < 2 ^ 32)
    (ho' : offset' < 2 ^ 32)
    (hx : Indexed fs x ((Cell.ofOffset offset ho).path ∪ (Cell.ofOffset offset' ho').path)) :
    (∃ x' fs', fs.setInodeBlkNum offset newBlk x inum = some (x', fs') ∧
      (fs'.offsetToBlk offset' x').1 =
        (if offset' / nbytesPerBlock = offset / nbytesPerBlock then newBlk
          else (fs.offsetToBlk offset' x).1) ∧
      fs.ChangesIn ((Cell.ofOffset offset ho).region fs x inum) fs') ∧
    (∀ g : Fs, ∀ y, g.offsetToBlk offset' y = (Cell.ofOffset offset' ho').fetch g y) ∧
    fs.setInodeBlkNum offset newBlk x inum =
      (Cell.ofOffset offset ho).assign fs newBlk x inum := by
  obtain ⟨x', fs', hassign, ha⟩ := @Cell.assigned fs x (Cell.ofOffset offset ho) inum newBlk h hinum
    (hx.mono Set.subset_union_left)
  have hbefore := Cell.fetch_value h (hx.mono Set.subset_union_right)
  have hafter := Cell.fetch_value (ha.superblock h hinum) (ha.indexed h hinum hx)
  refine ⟨⟨x', fs', ?_, ?_, ?_⟩, offsetToBlk_eq_fetch ho', setInodeBlkNum_eq_assign ho ..⟩
  · rw [setInodeBlkNum_eq_assign ho, hassign]
  · rw [offsetToBlk_eq_fetch ho', offsetToBlk_eq_fetch ho', hafter, hbefore,
      ha.value h hinum hnew hx]
    simp only [Cell.ofOffset_inj]
  · exact ha.changesIn h hinum (hx.mono Set.subset_union_left)

end Pointers

lemma indexBlock_of_dataBlock {b : ℕ} (hb : DataBlock b) : IndexBlock b :=
  ⟨by have := hb.1; omega, hb.2, (disjoint_inodes_block hb.1).symm⟩

/-- An inode with an indirect block. -/
def indirectInode : Inode := { fileInode 45056 (fun i => 71 + i) with indirect := 100 }

/-- The first two entries of the indirect block, at offsets 40960 and 45056. -/
theorem offsetToBlk_setInodeBlkNum_indirect :
    let fs : Fs := { emptyCard with superblock := mkfsSuperblock }
    ∃ x' fs', fs.setInodeBlkNum 40960 200 indirectInode (1 : ℕ) = some (x', fs') ∧
      (fs'.offsetToBlk 45056 x').1 = (fs.offsetToBlk 45056 indirectInode).1 := by
  intro fs
  have hx : Indexed fs indirectInode ({Index.indirect} ∪ {Index.indirect}) := by
    rw [Set.union_self]
    refine ⟨?_, Set.injOn_singleton _ _⟩
    rintro p rfl
    exact @indexBlock_of_dataBlock 100 ⟨by decide, by decide⟩
  obtain ⟨⟨x', fs', hset, hvalue, -⟩, -⟩ := @offsetToBlk_setInodeBlkNum fs indirectInode 1 200 40960
    45056 rfl (by decide) (by decide) (by decide) (by decide) hx
  exact ⟨x', fs', hset, hvalue⟩

end Fs
end UcasKernel
