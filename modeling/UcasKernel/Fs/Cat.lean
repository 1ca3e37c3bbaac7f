/-
What `do_cat` prints of a file.

The loop goes over the ten direct blocks and ends at a piece of 32 bytes that starts with
NUL.  It knows neither the size nor whether there is a block: where the text reaches the last
piece of its last block, the loop goes on to the next slot, and a slot without a block makes
it read block 0, which begins with the superblock.
-/
import UcasKernel.Fs.Creation
import UcasKernel.Fs.Reading

namespace UcasKernel
namespace Fs

/-- The blocks that the outer loop of `do_cat` reads. -/
def catReads (fs : Fs) (inode : Inode) (i : ℕ) : ℕ → List ℕ
  | 0 => []
  | n + 1 =>
    let fs := fs.readBlock (inode.direct i)
    inode.direct i ::
      if (catPieces fs.blockBuf 0 128).2 then [] else fs.catReads inode (i + 1) n

/-- The bytes of a file. -/
def fileText (fs : Fs) (x : Inode) : List UInt8 := (List.range x.size).map (fs.fileByte x)

/-- A regular file without NUL, whose blocks are 0 behind its size. -/
structure TextFile (fs : Fs) (x : Inode) : Prop where
  type : x.type = typeFile
  size : x.size ≤ ndirectBlocks * nbytesPerBlock
  block : ∀ p < x.size, fs.blkNum x p ≠ 0
  text : ∀ p < x.size, fs.fileByte x p ≠ 0
  zero : ∀ p, x.size ≤ p → nbytesPerBlock * (p / nbytesPerBlock) < x.size → fs.fileByte x p = 0

/-- `do_cat` prints the bytes of the file, from blocks of the file. -/
structure CatPrints (fs : Fs) (path : List UInt8) (x : Inode) : Prop where
  prints : ∃ fs', (fs.doCatL path).result = some (0, fs.fileText x, fs')
  reads : ∀ b ∈ fs.catReads x 0 ndirectBlocks, b ≠ 0 ∧ ∃ i < ndirectBlocks, x.direct i = b

/-- The number of blocks that the size covers. -/
def nfileBlocks (x : Inode) : ℕ := (x.size + nbytesPerBlock - 1) / nbytesPerBlock

/-- The text ends before the last piece of its last block. -/
def EndsInBlock (x : Inode) : Prop :=
  0 < x.size % nbytesPerBlock ∧ x.size % nbytesPerBlock ≤ nbytesPerBlock - 32

instance (x : Inode) : Decidable (EndsInBlock x) := inferInstanceAs (Decidable (_ ∧ _))

/-! ## The pieces of a block -/

section Pieces

variable {f : ℕ → UInt8} {buf : Bytes} {i j k n t : ℕ}

lemma takeWhile_range (hk : k ≤ n) (hne : ∀ i < k, f i ≠ 0) (h0 : k < n → f k = 0) :
    ((List.range n).map f).takeWhile (· ≠ 0) = (List.range k).map f := by
  obtain ⟨m, rfl⟩ := Nat.exists_eq_add_of_le hk
  rw [List.range_add, List.map_append, List.takeWhile_append_of_pos fun c hc => ?_]
  · cases m with
    | zero => simp
    | succ m =>
      rw [List.range_succ_eq_map, List.map_cons, List.map_cons, List.takeWhile_cons_of_neg,
        List.append_nil]
      simp [h0 (by omega)]
  · obtain ⟨i, hi, rfl⟩ := List.mem_map.1 hc
    simpa using hne i (List.mem_range.1 hi)

/-- A list over a range in two parts. -/
lemma map_range_cut {α : Type} (f : ℕ → α) (a r : ℕ) :
    (List.range (min a r)).map f ++ (List.range (r - a)).map (fun j => f (a + j)) =
      (List.range r).map f := by
  rcases Nat.le_total a r with hle | hle
  · obtain ⟨m, rfl⟩ := Nat.exists_eq_add_of_le hle
    rw [min_eq_left hle, Nat.add_sub_cancel_left, List.range_add, List.map_append, List.map_map]
    rfl
  · rw [min_eq_right hle, Nat.sub_eq_zero_of_le hle]
    exact List.append_nil _

/-- What the inner loop prints of a block whose text has `t` bytes. -/
lemma catPieces_text (ht : t ≤ nbytesPerBlock) (hne : ∀ i < t, buf i ≠ 0)
    (h0 : ∀ i, t ≤ i → i < nbytesPerBlock → buf i = 0) (hj : j + n = 128) (hjt : j * 32 < t + 32) :
    catPieces buf j n =
      ((List.range (t - j * 32)).map fun i => buf (j * 32 + i), decide (t ≤ nbytesPerBlock - 32)) := by
  simp only [nbytesPerBlock] at ht h0
  induction n generalizing j with
  | zero =>
    rw [catPieces, decide_eq_false (by simp only [nbytesPerBlock]; omega), show t - j * 32 = 0 by omega]
    rfl
  | succ n ih =>
    rw [catPieces]
    by_cases hin : j * 32 < t
    · rw [if_neg (hne _ hin), @takeWhile_range _ (min 32 (t - j * 32)) 32 (Nat.min_le_left ..)
        (fun i hi => hne _ (by omega)) (fun hlt => h0 _ (by omega) (by omega)),
        ih (by omega) (by omega)]
      dsimp only
      rw [← map_range_cut (fun i => buf (j * 32 + i)) 32 (t - j * 32),
        show t - j * 32 - 32 = t - (j + 1) * 32 by omega]
      simp only [Nat.add_mul, Nat.one_mul, Nat.add_assoc]
    · rw [if_pos (h0 _ (by omega) (by omega)), decide_eq_true (by simp only [nbytesPerBlock]; omega),
        show t - j * 32 = 0 by omega]
      rfl

/-- A block that begins with NUL. -/
lemma catPieces_of_zero (h : buf (j * 32) = 0) : catPieces buf j (n + 1) = ([], true) := by
  rw [catPieces, if_pos h]

lemma catPieces_ne_nil (h : buf (j * 32) ≠ 0) : (catPieces buf j (n + 1)).1 ≠ [] := by
  rw [catPieces, if_neg h]
  dsimp only
  rw [List.range_succ_eq_map, List.map_cons, List.takeWhile_cons_of_pos (by simpa using h)]
  exact List.cons_ne_nil _ _

end Pieces

/-! ## The blocks -/

section Blocks

variable {fs : Fs} {x : Inode} {i n : ℕ}

lemma readBlock_readBlock (fs : Fs) (a b : ℕ) : (fs.readBlock a).readBlock b = fs.readBlock b := rfl

lemma catBlocks_readBlock (fs : Fs) (b : ℕ) (x : Inode) (i n : ℕ) :
    ((fs.readBlock b).catBlocks x i n).1 = (fs.catBlocks x i n).1 := by
  cases n with
  | zero => rfl
  | succ n => rw [Fs.catBlocks, Fs.catBlocks, readBlock_readBlock]

lemma catReads_readBlock (fs : Fs) (b : ℕ) (x : Inode) (i n : ℕ) :
    (fs.readBlock b).catReads x i n = fs.catReads x i n := by
  cases n with
  | zero => rfl
  | succ n => rw [Fs.catReads, Fs.catReads, readBlock_readBlock]

/-- One round of the outer loop. -/
lemma catBlocks_succ (fs : Fs) (x : Inode) (i n : ℕ) :
    (fs.catBlocks x i (n + 1)).1 = (catPieces (fs.readBlock (x.direct i)).blockBuf 0 128).1 ++
      if (catPieces (fs.readBlock (x.direct i)).blockBuf 0 128).2 then []
      else (fs.catBlocks x (i + 1) n).1 := by
  rw [← catBlocks_readBlock fs (x.direct i) x (i + 1) n, Fs.catBlocks]
  generalize catPieces (fs.readBlock (x.direct i)).blockBuf 0 128 = p
  dsimp only
  split
  · exact (List.append_nil _).symm
  · rfl

lemma catReads_succ (fs : Fs) (x : Inode) (i n : ℕ) :
    fs.catReads x i (n + 1) = x.direct i ::
      if (catPieces (fs.readBlock (x.direct i)).blockBuf 0 128).2 then []
      else fs.catReads x (i + 1) n := by
  rw [← catReads_readBlock fs (x.direct i) x (i + 1) n, Fs.catReads]

lemma readBlock_direct (fs : Fs) (x : Inode) (hi : i < ndirectBlocks) {j : ℕ}
    (hj : j < nbytesPerBlock) :
    (fs.readBlock (x.direct i)).blockBuf j = fs.fileByte x (nbytesPerBlock * i + j) := by
  have hdiv : (nbytesPerBlock * i + j) / nbytesPerBlock = i := by
    rw [Nat.mul_add_div (by decide), Nat.div_eq_of_lt hj, Nat.add_zero]
  have hlt : nbytesPerBlock * i + j < ndirectBlocks * nbytesPerBlock := by
    simp only [nbytesPerBlock, ndirectBlocks] at *
    omega
  rw [fileByte, blkNum_direct _ _ hlt, hdiv, Nat.mul_add_mod, Nat.mod_eq_of_lt hj]

/-- The pieces of a block that the file covers. -/
lemma TextFile.catPieces (h : TextFile fs x) (hi : nbytesPerBlock * i < x.size) :
    catPieces (fs.readBlock (x.direct i)).blockBuf 0 128 =
      ((List.range (min nbytesPerBlock (x.size - nbytesPerBlock * i))).map fun j =>
          fs.fileByte x (nbytesPerBlock * i + j),
        decide (min nbytesPerBlock (x.size - nbytesPerBlock * i) ≤ nbytesPerBlock - 32)) := by
  have hsize := h.size
  have hlt : i < ndirectBlocks := by
    simp only [nbytesPerBlock, ndirectBlocks] at *
    omega
  have hbyte : ∀ j < nbytesPerBlock, (fs.readBlock (x.direct i)).blockBuf j =
      fs.fileByte x (nbytesPerBlock * i + j) := fun j hj => readBlock_direct fs x hlt hj
  rw [catPieces_text (Nat.min_le_left ..) (fun j hj => ?_) (fun j hj hj' => ?_) (zero_add 128)
    (by omega), Nat.zero_mul, Nat.sub_zero]
  · rw [Prod.mk.injEq]
    refine ⟨List.map_congr_left fun j hj => ?_, rfl⟩
    have := List.mem_range.1 hj
    rw [Nat.zero_add, hbyte j (by omega)]
  · rw [hbyte j (by omega)]
    exact h.text _ (by omega)
  · rw [hbyte j hj']
    refine h.zero _ (by omega) ?_
    rwa [Nat.mul_add_div (by decide), Nat.div_eq_of_lt hj', Nat.add_zero]

/-- The loop up to the last block of the text. -/
lemma TextFile.catBlocks (h : TextFile fs x) (hi : i ≤ nfileBlocks x) (hn : nfileBlocks x ≤ i + n)
    (hends : EndsInBlock x → i < nfileBlocks x) :
    (fs.catBlocks x i n).1 =
      ((List.range (x.size - nbytesPerBlock * i)).map fun j =>
          fs.fileByte x (nbytesPerBlock * i + j)) ++
        (if EndsInBlock x then []
          else (fs.catBlocks x (nfileBlocks x) (i + n - nfileBlocks x)).1) ∧
    fs.catReads x i n = (List.range' i (nfileBlocks x - i)).map x.direct ++
      (if EndsInBlock x then [] else fs.catReads x (nfileBlocks x) (i + n - nfileBlocks x)) := by
  obtain ⟨m, hm⟩ : ∃ m, nfileBlocks x = m := ⟨_, rfl⟩
  have hsize : x.size + 4095 < 4096 * m + 4096 ∧ 4096 * m ≤ x.size + 4095 := by
    rw [nfileBlocks] at hm
    simp only [nbytesPerBlock] at hm
    omega
  rw [hm] at hi hn hends ⊢
  induction n generalizing i with
  | zero =>
    obtain rfl : i = m := by omega
    have hnot : ¬ EndsInBlock x := fun hin => absurd (hends hin) (lt_irrefl _)
    rw [if_neg hnot, if_neg hnot, Nat.add_zero, Nat.sub_self]
    refine ⟨?_, rfl⟩
    rw [show x.size - nbytesPerBlock * i = 0 by simp only [nbytesPerBlock]; omega]
    rfl
  | succ n ih =>
    rcases Nat.lt_or_ge i m with hlt | hge
    · have hcov : nbytesPerBlock * i < x.size := by
        simp only [nbytesPerBlock]
        omega
      rw [catBlocks_succ, catReads_succ, h.catPieces hcov]
      dsimp only
      by_cases hin : EndsInBlock x ∧ i + 1 = m
      · -- the last block, and its last piece is empty
        obtain ⟨hin, hlast⟩ := hin
        have hcut : min nbytesPerBlock (x.size - nbytesPerBlock * i) = x.size - nbytesPerBlock * i ∧
            x.size - nbytesPerBlock * i ≤ nbytesPerBlock - 32 := by
          have hmod := hin
          simp only [EndsInBlock, nbytesPerBlock] at hmod ⊢
          omega
        rw [hcut.1, decide_eq_true hcut.2, if_pos hin, if_pos hin, show m - i = 1 by omega]
        exact ⟨rfl, rfl⟩
      · have hcut : ¬ min nbytesPerBlock (x.size - nbytesPerBlock * i) ≤ nbytesPerBlock - 32 := by
          simp only [EndsInBlock, nbytesPerBlock] at hin ⊢
          omega
        have hnext : EndsInBlock x → i + 1 < m := by
          intro hends'
          have := hends hends'
          by_contra hge
          exact hin ⟨hends', by omega⟩
        have hrest := @ih (i + 1) hnext (by omega) (by omega)
        rw [decide_eq_false hcut, hrest.1, hrest.2, show i + 1 + n = i + (n + 1) by omega]
        simp only [Bool.false_eq_true, if_false]
        rw [← List.append_assoc, ← map_range_cut (fun j => fs.fileByte x (nbytesPerBlock * i + j))
            nbytesPerBlock (x.size - nbytesPerBlock * i),
          show x.size - nbytesPerBlock * i - nbytesPerBlock = x.size - nbytesPerBlock * (i + 1) by
            rw [Nat.sub_sub, Nat.mul_succ],
          show m - i = m - (i + 1) + 1 by omega, List.range'_succ]
        refine ⟨?_, rfl⟩
        simp only [Nat.mul_add, Nat.mul_one, Nat.add_assoc]
    · obtain rfl : i = m := by omega
      have hnot : ¬ EndsInBlock x := fun hin => absurd (hends hin) (lt_irrefl _)
      rw [if_neg hnot, if_neg hnot, Nat.add_sub_cancel_left, Nat.sub_self,
        show x.size - nbytesPerBlock * i = 0 by simp only [nbytesPerBlock]; omega]
      exact ⟨rfl, rfl⟩

end Blocks

/-! ## The call -/

section Call

variable {fs fs₁ : Fs} {x : Inode} {path : List UInt8} {inum : ℤ}

/-- The number of the covered blocks and the size. -/
lemma nfileBlocks_spec (x : Inode) : x.size ≤ nbytesPerBlock * nfileBlocks x ∧
    nbytesPerBlock * nfileBlocks x < x.size + nbytesPerBlock := by
  rw [nfileBlocks]
  simp only [nbytesPerBlock]
  omega

/-- The call on a regular file. -/
lemma doCatL_file (hparse : fs.parsePath path fs.cwdInum = some (inum, fs₁))
    (hx : fs.readInode inum = some x) (htype : x.type = typeFile) :
    ∃ fs', (fs.doCatL path).result = some (0, (fs.catBlocks x 0 ndirectBlocks).1, fs') := by
  obtain ⟨buf, rfl⟩ : ∃ buf, fs₁ = { fs with blockBuf := buf } := ⟨_, parsePathLoop_readOnly hparse⟩
  have hx₁ : ({ fs with blockBuf := buf } : Fs).readInode inum = some x := hx
  have hne : x.type ≠ typeDirectory := by
    rw [htype]
    decide
  refine ⟨(({ fs with blockBuf := buf } : Fs).catBlocks x 0 ndirectBlocks).2, ?_⟩
  rw [doCatL, Logged.result_bind, result_parsePathL, hparse, Option.bind_some, Logged.result_bind,
    readInodeL, Logged.result_tell, hx₁, Option.bind_some, if_neg hne, Logged.result_pure,
    ← catBlocks_readBlock fs 0, ← catBlocks_readBlock { fs with blockBuf := buf } 0]
  rfl

/-- A file is printed by `do_cat` exactly if the loop ends inside the text, or at the last
direct block, or at a further block of the file that begins with NUL. -/
theorem catPrints_iff (hparse : fs.parsePath path fs.cwdInum = some (inum, fs₁))
    (hx : fs.readInode inum = some x) (h : TextFile fs x) :
    fs.CatPrints path x ↔ EndsInBlock x ∨ nfileBlocks x = ndirectBlocks ∨
      x.direct (nfileBlocks x) ≠ 0 ∧ fs.fileByte x (nbytesPerBlock * nfileBlocks x) = 0 := by
  obtain ⟨fs', hcall⟩ := doCatL_file hparse hx h.type
  have hspec := nfileBlocks_spec x
  have hsize := h.size
  have hle : nfileBlocks x ≤ ndirectBlocks := by
    simp only [nbytesPerBlock, ndirectBlocks] at *
    omega
  have hstart : EndsInBlock x → 0 < nfileBlocks x := by
    intro hends
    have hpos := hends.1
    simp only [nbytesPerBlock] at *
    omega
  have hcovered : ∀ i < nfileBlocks x, x.direct i ≠ 0 := by
    intro i hi
    have hcov : nbytesPerBlock * i < x.size := by
      simp only [nbytesPerBlock] at *
      omega
    have hblk := h.block _ hcov
    rwa [blkNum_direct _ _ (by omega), Nat.mul_div_cancel_left _ (by decide)] at hblk
  obtain ⟨htext, hreads⟩ := @TextFile.catBlocks fs x 0 ndirectBlocks h (Nat.zero_le _) (by omega) hstart
  simp only [Nat.mul_zero, Nat.sub_zero, Nat.zero_add] at htext hreads
  change _ = fs.fileText x ++ _ at htext
  rw [htext] at hcall
  have hown : ∀ b ∈ (List.range' 0 (nfileBlocks x)).map x.direct,
      b ≠ 0 ∧ ∃ i < ndirectBlocks, x.direct i = b := by
    intro b hb
    obtain ⟨i, hi, rfl⟩ := List.mem_map.1 hb
    have hi' := (List.mem_range'_1.1 hi).2
    exact ⟨hcovered i (by omega), i, by omega, rfl⟩
  by_cases hends : EndsInBlock x
  · rw [if_pos hends, List.append_nil] at hcall hreads
    refine iff_of_true ⟨⟨fs', hcall⟩, ?_⟩ (.inl hends)
    rw [hreads]
    exact hown
  rw [if_neg hends] at hcall hreads
  rcases Nat.eq_or_lt_of_le hle with heq | hlt
  · rw [heq] at hcall hreads hown
    rw [Nat.sub_self] at hcall hreads
    refine iff_of_true ⟨⟨fs', hcall.trans ?_⟩, ?_⟩ (.inr (.inl heq))
    · rw [Fs.catBlocks, List.append_nil]
    · rw [hreads, Fs.catReads, List.append_nil]
      exact hown
  -- the loop goes on to a slot behind the text
  obtain ⟨k, hk⟩ : ∃ k, ndirectBlocks - nfileBlocks x = k + 1 :=
    ⟨ndirectBlocks - nfileBlocks x - 1, by omega⟩
  have hfirst : (fs.readBlock (x.direct (nfileBlocks x))).blockBuf (0 * 32) =
      fs.fileByte x (nbytesPerBlock * nfileBlocks x) := readBlock_direct fs x hlt (by decide)
  rw [hk, catBlocks_succ] at hcall
  rw [hk, catReads_succ] at hreads
  constructor
  · rintro ⟨⟨fs'', hprints⟩, hown'⟩
    have hnext := hown' _ (hreads ▸ List.mem_append_right _ List.mem_cons_self)
    refine .inr (.inr ⟨hnext.1, ?_⟩)
    rw [hcall, Option.some.injEq, Prod.mk.injEq, Prod.mk.injEq] at hprints
    have hnil := (List.append_eq_nil_iff.1 (List.append_right_eq_self.1 hprints.2.1)).1
    by_contra hne
    exact @catPieces_ne_nil _ 0 127 (by rwa [hfirst]) hnil
  · rintro (hends' | heq | ⟨hne, hzero⟩)
    · exact absurd hends' hends
    · exact absurd heq hlt.ne
    have hpieces := @catPieces_of_zero (fs.readBlock (x.direct (nfileBlocks x))).blockBuf 0 127
      (hfirst.trans hzero)
    refine ⟨⟨fs', hcall.trans ?_⟩, fun b hb => ?_⟩
    · rw [hpieces]
      simp
    · rw [hreads, hpieces] at hb
      rcases List.mem_append.1 hb with hb | hb
      · exact hown b hb
      · obtain rfl : b = x.direct (nfileBlocks x) := by simpa using hb
        exact ⟨hne, _, hlt, rfl⟩

end Call

/-! ## Files on a card -/

/-- A card on which the working directory is a file of three bytes. -/
def textCard : Fs :=
  fileCard (fileInode 3 fun _ => 71) ⟨1, true, true, 0⟩ fun _ => Bytes.ofList [97, 98, 99]

/-- A short file is printed. -/
theorem catPrints_text :
    ∃ x, textCard.readInode 1 = some x ∧ textCard.CatPrints [] x := by
  obtain ⟨x, hx, hagree⟩ := @readInode_fileCard (fileInode 3 fun _ => 71) ⟨1, true, true, 0⟩
    (fun _ => Bytes.ofList [97, 98, 99]) (inRange_fileInode (by decide) fun _ _ => by decide)
  have hsize : x.size = 3 := hagree.size
  have hblk : ∀ p < nbytesPerBlock, textCard.blkNum x p = 71 := by
    intro p hp
    rw [blkNum_direct _ _ (by simp only [nbytesPerBlock, ndirectBlocks] at *; omega),
      Nat.div_eq_of_lt hp]
    exact hagree.direct 0 (by decide)
  have hbyte : ∀ p < nbytesPerBlock, textCard.fileByte x p = Bytes.ofList [97, 98, 99] p := by
    intro p hp
    rw [fileByte, hblk p hp, readBlock_block rfl (by decide), Nat.mod_eq_of_lt hp]
    exact block_fileCard (by decide) hp
  have hfile : TextFile textCard x := by
    refine ⟨hagree.type, by rw [hsize]; decide, fun p hp => ?_, fun p hp => ?_, fun p hp hcov => ?_⟩
    · rw [hblk p (by simp only [nbytesPerBlock]; omega)]
      decide
    · rw [hsize] at hp
      rw [hbyte p (by simp only [nbytesPerBlock]; omega)]
      exact (by decide : ∀ p < 3, Bytes.ofList [97, 98, 99] p ≠ 0) p hp
    · rw [hsize] at hp hcov
      rw [hbyte p (by simp only [nbytesPerBlock] at *; omega)]
      exact List.getD_eq_default _ _ hp
  refine ⟨x, hx, (catPrints_iff (parsePath_nil textCard 1) hx hfile).2 (.inl ?_)⟩
  rw [EndsInBlock, hsize]
  decide

/-- An empty file on a freshly formatted card is not printed: block 0 is read. -/
theorem cat_not_prints :
    ∃ fs fs' fs'' x, ∃ n : ℕ, emptyCard.doMkfs = some (0, fs) ∧ fs.doTouch [97] = some (0, fs') ∧
      fs'.parsePath [97] fs'.cwdInum = some ((n : ℤ), fs'') ∧ fs'.readInode n = some x ∧
      TextFile fs' x ∧ ¬ fs'.CatPrints [97] x := by
  obtain ⟨fs, hmkfs, hst⟩ := doMkfs_stores emptyCard
  have hopen := hst.mapOpen_iff.2 ⟨3, ⟨by decide, by decide, by decide⟩, rfl⟩
  have hname : Name [97] := ⟨by decide, by decide, by decide⟩
  have hroot : (imageTree emptyCard.fdescArray).node (imageTree emptyCard.fdescArray).cwd =
    some (.dir (freshEntries 1 1 ++ [⟨true, 2, bigfileName⟩])) := rfl
  have hlt : (freshEntries 1 1 ++ [(⟨true, 2, bigfileName⟩ : Entry)]).length < maxEntries := by decide
  have hnone : firstNamed (freshEntries 1 1 ++ [(⟨true, 2, bigfileName⟩ : Entry)]) [97] = none :=
    by decide
  obtain ⟨n, fs', htouch, hn, hfresh, hhanded, hst'⟩ :=
    hst.doTouch hroot (by decide) (by decide) hnone hopen (hname.hasRoom hlt)
  obtain ⟨fs'', hparse⟩ := hst'.leadsTo_new (Tree.node_create hroot hfresh) (by decide)
    hname hnone hhanded
  obtain ⟨v, hs, hr⟩ := hst
  obtain ⟨x, b, o, hx⟩ := hs.openedCwd hr hroot
  obtain ⟨y, hy, htype, hsize, -, hdirect⟩ :=
    o.touch_inode hs.superblock hx (by decide) (by decide) hnone hlt hn hhanded htouch
  have hcwd : fs'.cwdInum = (1 : ℕ) := by
    obtain ⟨v', hs', hr'⟩ := hst'
    exact hs'.cwdInum.trans hr'.cwd
  have hfile : TextFile fs' y := by
    refine ⟨htype, by rw [hsize]; decide, fun p hp => ?_, fun p hp => ?_, fun p _ hcov => ?_⟩
    all_goals
      rw [hsize] at *
      omega
  refine ⟨fs, fs', fs'', y, n, hmkfs, htouch, by rw [hcwd]; exact hparse, hy, hfile, fun hprints => ?_⟩
  have hread := hprints.reads 0
  rw [ndirectBlocks, catReads_succ, hdirect 0 (by decide)] at hread
  exact (hread List.mem_cons_self).1 rfl

end Fs
end UcasKernel
