/-
The slots of the inodes.

`read_inode` and `write_inode` find the slot of a number from 1 to 4096 by a division
by eight, the number of slots in a sector.  A slot is read and written as a whole, and
the rest of its sector is written back as it was read, so a write of one inode is seen
by a read of that inode only.
-/
import UcasKernel.Fs.Frame
import UcasKernel.Fs.Ownership

namespace UcasKernel
namespace Fs

/-- Two inodes with the same fields; `direct` is an array of ten numbers. -/
structure Inode.Agree (x y : Inode) : Prop extends Inode.Same x y where
  permission : x.permission = y.permission
  size : x.size = y.size
  timeCreated : x.timeCreated = y.timeCreated
  indirect : x.indirect = y.indirect
  doubleIndirect : x.doubleIndirect = y.doubleIndirect

/-- Every field of an inode fits into its bytes. -/
structure Inode.InRange (x : Inode) : Prop extends Inode.Fits x where
  permission : x.permission < 2 ^ 16
  size : x.size < 2 ^ 32
  timeCreated : x.timeCreated < 2 ^ 32
  indirect : x.indirect < 2 ^ 32
  doubleIndirect : x.doubleIndirect < 2 ^ 32

namespace Inode

section Agree

variable {x y z : Inode}

lemma Agree.refl (x : Inode) : Agree x x := ⟨Same.refl x, rfl, rfl, rfl, rfl, rfl⟩

lemma Agree.symm (h : Agree x y) : Agree y x :=
  ⟨⟨h.type.symm, h.ref.symm, fun i hi => (h.direct i hi).symm⟩, h.permission.symm, h.size.symm,
    h.timeCreated.symm, h.indirect.symm, h.doubleIndirect.symm⟩

lemma Agree.trans (h : Agree x y) (h' : Agree y z) : Agree x z :=
  ⟨h.toSame.trans h'.toSame, h.permission.trans h'.permission, h.size.trans h'.size,
    h.timeCreated.trans h'.timeCreated, h.indirect.trans h'.indirect,
    h.doubleIndirect.trans h'.doubleIndirect⟩

/-- An inode is read from the 64 bytes of its slot. -/
lemma agree_get_of_eq {b c : Bytes} {a a' : ℕ} (h : ∀ k < sizeof, b (a + k) = c (a' + k)) :
    Agree (get b a) (get c a') := by
  have hfield : ∀ m k, k + m ≤ 64 → Bytes.getLE b m (a + k) = Bytes.getLE c m (a' + k) :=
    fun m k hk => Bytes.getLE_congr fun i hi => by
      rw [Nat.add_assoc, Nat.add_assoc]
      exact h _ (by simp only [sizeof]; omega)
  refine ⟨⟨hfield 2 0 (by omega), hfield 4 8 (by omega), fun i hi => ?_⟩, hfield 2 2 (by omega),
    hfield 4 4 (by omega), hfield 4 12 (by omega), hfield 4 56 (by omega), hfield 4 60 (by omega)⟩
  have hi' : i < 10 := hi
  have := hfield 4 (16 + 4 * i) (by omega)
  rwa [← Nat.add_assoc, ← Nat.add_assoc] at this

lemma inRange_get (b : Bytes) (a : ℕ) : (get b a).InRange :=
  ⟨fits_get b a, Bytes.getLE_lt b 2 _, Bytes.getLE_lt b 4 _, Bytes.getLE_lt b 4 _,
    Bytes.getLE_lt b 4 _, Bytes.getLE_lt b 4 _⟩

end Agree

section Put

variable (b : Bytes) (a : ℕ) (x : Inode)

lemma get_put_permission : (get (put b a x) a).permission = x.permission % 2 ^ 16 := by
  simp only [get, put]
  rw [Bytes.get16, Bytes.getLE_setLE_of_disjoint (by omega),
    Bytes.getLE_setLE_of_disjoint (by omega),
    getLE_putDirect_of_disjoint (by simp only [ndirectBlocks]; omega),
    Bytes.getLE_setLE_of_disjoint (by omega), Bytes.getLE_setLE_of_disjoint (by omega),
    Bytes.getLE_setLE_of_disjoint (by omega), Bytes.getLE_setLE]
  norm_num

lemma get_put_size : (get (put b a x) a).size = x.size % 2 ^ 32 := by
  simp only [get, put]
  rw [Bytes.get32, Bytes.getLE_setLE_of_disjoint (by omega),
    Bytes.getLE_setLE_of_disjoint (by omega),
    getLE_putDirect_of_disjoint (by simp only [ndirectBlocks]; omega),
    Bytes.getLE_setLE_of_disjoint (by omega), Bytes.getLE_setLE_of_disjoint (by omega),
    Bytes.getLE_setLE]
  norm_num

lemma get_put_timeCreated : (get (put b a x) a).timeCreated = x.timeCreated % 2 ^ 32 := by
  simp only [get, put]
  rw [Bytes.get32, Bytes.getLE_setLE_of_disjoint (by omega),
    Bytes.getLE_setLE_of_disjoint (by omega),
    getLE_putDirect_of_disjoint (by simp only [ndirectBlocks]; omega), Bytes.getLE_setLE]
  norm_num

/-- What was put is what is got. -/
lemma agree_get_put {x : Inode} (hx : x.InRange) : Agree (get (put b a x) a) x := by
  refine ⟨⟨?_, ?_, fun i hi => ?_⟩, ?_, ?_, ?_, ?_, ?_⟩
  · rw [get_put_type, Nat.mod_eq_of_lt hx.type]
  · rw [get_put_ref, Nat.mod_eq_of_lt hx.ref]
  · rw [get_put_direct b a x hi, Nat.mod_eq_of_lt (hx.direct i hi)]
  · rw [get_put_permission, Nat.mod_eq_of_lt hx.permission]
  · rw [get_put_size, Nat.mod_eq_of_lt hx.size]
  · rw [get_put_timeCreated, Nat.mod_eq_of_lt hx.timeCreated]
  · rw [get_put_indirect, Nat.mod_eq_of_lt hx.indirect]
  · rw [get_put_doubleIndirect, Nat.mod_eq_of_lt hx.doubleIndirect]

end Put

end Inode

/-- An inode of a file, with its size and its direct blocks. -/
def fileInode (size : ℕ) (direct : ℕ → ℕ) : Inode :=
  { Inode.zero with type := typeFile, ref := 1, size := size, direct := direct }

lemma inRange_fileInode {size : ℕ} {direct : ℕ → ℕ} (hsize : size < 2 ^ 32)
    (hdirect : ∀ i < ndirectBlocks, direct i < 2 ^ 32) : (fileInode size direct).InRange := by
  have hzero : 0 < 2 ^ 32 := by decide
  exact ⟨⟨show 1 < 2 ^ 16 by decide, show 1 < 2 ^ 32 by decide, hdirect⟩, show 0 < 2 ^ 16 by decide,
    hsize, hzero, hzero, hzero⟩

/-! ## Where the slots are -/

/-- The sectors of the inodes. -/
def inodeBytes : Set ℕ :=
  {x | nbytesPerSector * inodeSector ≤ x ∧ x < nbytesPerSector * (inodeSector + nsectorsInodeblock)}

/-- The sector of the superblock. -/
def superblockBytes : Set ℕ :=
  {x | nbytesPerSector * fsStartSector ≤ x ∧ x < nbytesPerSector * (fsStartSector + 1)}

section Slots

variable {i j : ℕ}

lemma slotBase_eq (i : ℕ) :
    slotBase i = nbytesPerSector * (inodeSector + (i - 1) / 8) + Inode.sizeof * ((i - 1) % 8) := by
  simp only [slotBase, nbytesPerSector, Inode.sizeof]
  omega

lemma slotBytes_subset (hi : 1 ≤ i ∧ i ≤ ninodes) : slotBytes i ⊆ inodeBytes := by
  rintro x ⟨hlo, hhi⟩
  simp only [slotBase, Inode.sizeof, ninodes, nbytesPerSector, inodeSector] at *
  constructor
  · simp only [nbytesPerSector, inodeSector]
    omega
  · simp only [nsectorsInodeblock, nbytesPerSector, inodeSector]
    omega

lemma disjoint_slots (hi : 1 ≤ i) (hj : 1 ≤ j) (hne : j ≠ i) :
    Disjoint (slotBytes i) (slotBytes j) := by
  refine Set.disjoint_left.2 ?_
  rintro x ⟨hx, hx'⟩ ⟨hy, hy'⟩
  simp only [slotBase, Inode.sizeof] at *
  omega

lemma disjoint_inodes_maps : Disjoint inodeBytes (superblockBytes ∪ (bmapBytes ∪ imapBytes)) := by
  refine Set.disjoint_left.2 ?_
  rintro x ⟨hlo, -⟩ (⟨-, hx⟩ | ⟨-, hx⟩ | ⟨-, hx⟩) <;>
    simp only [nbytesPerSector, inodeSector, imapSector, fsStartSector] at *
  all_goals omega

lemma disjoint_inodes_block {b : ℕ} (hb : 70 ≤ b) : Disjoint inodeBytes (blockBytes b) := by
  refine Set.disjoint_left.2 ?_
  rintro x ⟨-, hx⟩ ⟨hx', -⟩
  simp only [blockBase, nbytesPerSector, inodeSector, nsectorsInodeblock] at *
  omega

end Slots

/-! ## Reads and writes of a slot -/

section ReadWrite

variable {fs fs' : Fs} {n : ℕ} {v : Inode}

/-- The inode depends on the bytes of its slot only. -/
lemma agree_inode_of_disk (hn : n ≤ ninodes) (h : ∀ x ∈ slotBytes n, fs'.disk x = fs.disk x) :
    Inode.Agree (fs'.inode n) (fs.inode n) := by
  refine Inode.agree_get_of_eq fun k hk => ?_
  have hs : (inodeSector + (n - 1) / 8) % 2 ^ 32 = inodeSector + (n - 1) / 8 := by
    simp only [ninodes] at hn
    simp only [inodeSector]
    omega
  have hk' : k < 64 := hk
  have hin : ∀ g : Fs, g.sdread 1 (inodeSector + (n - 1) / 8) (64 * ((n - 1) % 8) + k) =
      g.disk (slotBase n + k) := by
    intro g
    rw [sdread, hs, Bytes.blit_apply_of_mem (by simp only [nbytesPerSector]; omega), slotBase_eq]
    congr 1
    simp only [Inode.sizeof]
    omega
  rw [hin, hin]
  refine h _ ?_
  constructor <;> omega

lemma ChangesIn.inode {r : Set ℕ} (h : fs.ChangesIn r fs') (hn : n ≤ ninodes)
    (hr : Disjoint r (slotBytes n)) : Inode.Agree (fs'.inode n) (fs.inode n) :=
  agree_inode_of_disk hn fun _ hx => h fun hmem => Set.disjoint_left.1 hr hmem hx

/-- The slot that was written holds what was put into its sector. -/
lemma agree_inode_put (h : fs.superblock = mkfsSuperblock) (hn : 1 ≤ n ∧ n ≤ ninodes)
    (hwrite : fs.writeInode n v = some fs') : ∃ b a,
    Inode.Agree (fs'.inode n) (Inode.get (Inode.put b a v) a) := by
  rw [writeInode, inodeSlot_of_le h hn] at hwrite
  dsimp only at hwrite
  rw [if_pos (Nat.mod_lt _ (by decide)), Option.some.injEq] at hwrite
  subst hwrite
  refine ⟨fs.sdread 1 (inodeSector + (n - 1) / 8), 64 * ((n - 1) % 8),
    Inode.agree_get_of_eq fun k hk => ?_⟩
  have hk' : k < 64 := hk
  rw [sdread, Bytes.blit_apply_of_mem (by simp only [nbytesPerSector]; omega), disk_sdwrite,
    Bytes.blit_apply_of_mem (by simp only [nbytesPerSector]; omega)]
  congr 1
  omega

/-- The slot that was written holds the inode. -/
lemma agree_inode_writeInode (h : fs.superblock = mkfsSuperblock) (hn : 1 ≤ n ∧ n ≤ ninodes)
    (hv : v.InRange) (hwrite : fs.writeInode n v = some fs') :
    Inode.Agree (fs'.inode n) v := by
  obtain ⟨b, a, hagree⟩ := agree_inode_put h hn hwrite
  exact hagree.trans (Inode.agree_get_put b a hv)

/-- A write of one inode: that one is there, the others are as they were, and so is every
byte outside of its slot. -/
theorem inode_slots_independent {i j : ℕ} (h : fs.superblock = mkfsSuperblock)
    (hi : 1 ≤ i ∧ i ≤ ninodes) (hj : 1 ≤ j ∧ j ≤ ninodes) (hv : v.InRange) :
    (∃ fs' x y, fs.writeInode i v = some fs' ∧ fs.readInode j = some y ∧
      fs'.readInode j = some x ∧ Inode.Agree x (if j = i then v else y) ∧
      fs.ChangesIn (slotBytes i) fs') ∧
    slotBytes i ⊆ inodeBytes ∧ (j ≠ i → Disjoint (slotBytes i) (slotBytes j)) ∧
    Disjoint inodeBytes (superblockBytes ∪ (bmapBytes ∪ imapBytes)) ∧
    ∀ b, 70 ≤ b → Disjoint inodeBytes (blockBytes b) := by
  obtain ⟨fs', hwrite, hw, -⟩ := writeInode_spec h hi v
  have hsb : fs'.superblock = mkfsSuperblock := hw.superblock.trans h
  have hchanges := changesIn_writeInode h hi hwrite
  refine ⟨⟨fs', _, _, hwrite, readInode_inode h hj, readInode_inode hsb hj, ?_, hchanges⟩,
    slotBytes_subset hi, disjoint_slots hi.1 hj.1, disjoint_inodes_maps,
    fun b hb => disjoint_inodes_block hb⟩
  split
  · rename_i heq
    rw [heq]
    exact agree_inode_writeInode h hi hv hwrite
  · rename_i hne
    exact hchanges.inode hj.2 (disjoint_slots hi.1 hj.1 hne)

end ReadWrite

/-- Inode 9 written on the empty card, and inode 10 read from the same sector. -/
theorem inode_slots_independent_nine :
    let fs : Fs := { emptyCard with superblock := mkfsSuperblock }
    ∃ fs' x y, fs.writeInode (9 : ℕ) (fileInode 5 fun _ => 0) = some fs' ∧
      fs.readInode (10 : ℕ) = some y ∧ fs'.readInode (10 : ℕ) = some x ∧ Inode.Agree x y := by
  intro fs
  have hv := @inRange_fileInode 5 (fun _ => 0) (by decide) fun _ _ => by decide
  obtain ⟨⟨fs', x, y, hwrite, hy, hx, hagree, -⟩, -⟩ :=
    @inode_slots_independent fs _ 9 10 rfl (by decide) (by decide) hv
  rw [if_neg (by decide)] at hagree
  exact ⟨fs', x, y, hwrite, hy, hx, hagree⟩

/-! ## A card with one file -/

/-- A card with the inode `x` in slot 1, the given content of the data blocks, and one
descriptor in every place of the table. -/
def fileCard (x : Inode) (d : Fdesc) (data : ℕ → Bytes) : Fs :=
  { emptyCard with
    disk := fun a =>
      if a < blockBase 70 then Inode.put Bytes.zero (slotBase 1) x a
      else data ((a - blockBase 0) / nbytesPerBlock) ((a - blockBase 0) % nbytesPerBlock)
    superblock := mkfsSuperblock
    fdescArray := fun _ => d }

section FileCard

variable {x : Inode} {d : Fdesc} {data : ℕ → Bytes}

lemma readInode_fileCard (hx : x.InRange) :
    ∃ y, (fileCard x d data).readInode 1 = some y ∧ Inode.Agree y x := by
  refine ⟨_, readInode_inode (n := 1) rfl (by decide), ?_⟩
  refine Inode.Agree.trans ?_ (Inode.agree_get_put Bytes.zero (slotBase 1) hx)
  refine Inode.agree_get_of_eq fun k hk => ?_
  have hk' : k < 64 := hk
  rw [sdread, Bytes.blit_apply_of_mem (by simp only [nbytesPerSector]; omega)]
  have hat : nbytesPerSector * ((inodeSector + (1 - 1) / 8) % 2 ^ 32) +
      (64 * ((1 - 1) % 8) + k - 0) = slotBase 1 + k := by
    simp only [slotBase, nbytesPerSector, inodeSector]
    omega
  rw [hat]
  refine if_pos ?_
  simp only [slotBase, blockBase, nbytesPerSector, inodeSector]
  omega

lemma block_fileCard {b y : ℕ} (hb : 70 ≤ b) (hy : y < nbytesPerBlock) :
    (fileCard x d data).block b y = data b y := by
  have hy' : y < 4096 := hy
  have hoff : blockBase b + y - blockBase 0 = nbytesPerBlock * b + y := by
    simp only [blockBase, nbytesPerSector, nbytesPerBlock]
    omega
  rw [Fs.block, if_pos hy]
  refine (if_neg ?_).trans ?_
  · simp only [blockBase, nbytesPerSector]
    omega
  · rw [hoff, Nat.mul_add_div (by decide), Nat.div_eq_of_lt hy, Nat.mul_add_mod,
      Nat.mod_eq_of_lt hy, Nat.add_zero]

end FileCard

end Fs
end UcasKernel
