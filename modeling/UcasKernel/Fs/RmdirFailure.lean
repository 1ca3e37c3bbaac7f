/-
When `do_rmdir` fails.

The call returns 1 in two places: behind the first loop when the path leads to a
file, and in the second loop when the test for the end of the directory succeeds.
That test is made on the entry with the index of the block, so in a directory with
a first entry it never does.  A path that leads nowhere is not tested for: the
inode with number 0 is read.  The entries of a directory for itself and for its
parent, and the empty path, lead to a directory, which is then freed.
-/
import UcasKernel.Fs.Names

namespace UcasKernel
namespace Fs

/-- The call returns 1, and the card, the descriptors and the working directory
are as before. -/
def RmdirFails (fs : Fs) (path : List UInt8) : Prop :=
  ∃ fs', fs.doRmdir path = some (1, fs') ∧ fs'.disk = fs.disk ∧
    fs'.fdescArray = fs.fdescArray ∧ fs'.cwdInum = fs.cwdInum

/-- The path names a valid entry of the working directory whose inode is a
directory, and neither the entry for itself nor the one for its parent. -/
def NamesSubdir (fs : Fs) (path : List UInt8) : Prop :=
  path ≠ [46] ∧ path ≠ [46, 46] ∧ ∃ cwd j b fs' n dir, fs.readInode fs.cwdInum = some cwd ∧
    fs.scanBlocks cwd (isNamed path) isUnused 0 0 ndirectBlocks = some (.hit j, b, fs') ∧
    dentryInum fs'.blockBuf j = some n ∧ fs.readInode n = some dir ∧ dir.type = typeDirectory

/-- The first loop of `do_rmdir`, and the two inodes that are read behind it. -/
structure RmdirReads (fs : Fs) (path : List UInt8) (fs' : Fs) (cwd dir : Inode) : Prop where
  parse : ∃ inum, fs.parsePath path fs.cwdInum = some (inum, fs') ∧ fs.readInode inum = some dir
  cwd : fs.readInode fs.cwdInum = some cwd

/-- The path leads to a regular file. -/
def LeadsToFile (fs : Fs) (path : List UInt8) : Prop :=
  ∃ fs' cwd dir, RmdirReads fs path fs' cwd dir ∧ dir.type = typeFile

/-- The second loop comes to an unused entry at the index of its block. -/
def MeetsUnused (fs : Fs) (path : List UInt8) : Prop :=
  ∃ fs' cwd dir j b fs'', RmdirReads fs path fs' cwd dir ∧
    fs'.scanBlocks cwd (isNamed path) (fun buf i _ => isUnused buf i i) 0 0 ndirectBlocks =
      some (.stop j, b, fs'')

section Rmdir

variable {fs fs' : Fs} {path : List UInt8}

/-- A path is resolved with the block buffer alone. -/
lemma readInode_of_parsePath {n r : ℤ} (hparse : fs.parsePath path n = some (r, fs')) (m : ℤ) :
    fs'.readInode m = fs.readInode m := by
  rw [parsePathLoop_readOnly hparse]
  rfl

/-- What `do_rmdir` does behind its second loop. -/
def rmdirEnd (dir : Inode) (inum : ℤ) : Scan × ℕ × Fs → Option (ℤ × Fs)
  | (.stop _, _, fs) => some (1, fs)
  | (.hit j, b, fs) => do
    let fs ← ((fs.clearValid j).writeBlock b).freeInode inum
    let fs ← fs.freeDirect dir 0 ndirectBlocks
    some (0, fs)
  | (.past, b, fs) => do
    let fs ← (fs.writeBlock b).freeInode inum
    let fs ← fs.freeDirect dir 0 ndirectBlocks
    some (0, fs)

/-- Behind the loop it returns 1 only if the loop stopped. -/
lemma rmdirEnd_one {dir : Inode} {inum : ℤ} {s : Scan × ℕ × Fs}
    (h : rmdirEnd dir inum s = some (1, fs')) : ∃ j, s.1 = .stop j := by
  obtain ⟨scan, b, fs₁⟩ := s
  cases scan with
  | stop j => exact ⟨j, rfl⟩
  | hit j | past =>
    obtain ⟨fs₂, -, h⟩ := Option.bind_eq_some_iff.1 h
    obtain ⟨fs₃, -, h⟩ := Option.bind_eq_some_iff.1 h
    cases h

/-- What it does behind its first loop. -/
lemma doRmdir_reads {cwd dir : Inode} (h : RmdirReads fs path fs' cwd dir) :
    ∃ inum, fs.doRmdir path =
      if dir.type = typeFile then some (1, fs')
      else
        (fs'.scanBlocks cwd (isNamed path) (fun buf i _ => isUnused buf i i) 0 0 ndirectBlocks).bind
          (rmdirEnd dir inum) := by
  obtain ⟨⟨inum, hparse, hdir⟩, hcwd⟩ := h
  refine ⟨inum, ?_⟩
  rw [Fs.doRmdir, hparse]
  simp only [Option.bind_eq_bind, Option.bind_some, readInode_of_parsePath hparse, hcwd, hdir]
  split
  · rfl
  · congr 1
    funext r
    obtain ⟨scan, b, fs₁⟩ := r
    cases scan <;> rfl

lemma RmdirReads.of_doRmdir {r : ℤ} (h : fs.doRmdir path = some (r, fs')) :
    ∃ fs₁ cwd dir, RmdirReads fs path fs₁ cwd dir := by
  rw [Fs.doRmdir] at h
  obtain ⟨⟨inum, fs₁⟩, hparse, h⟩ := Option.bind_eq_some_iff.1 h
  obtain ⟨cwd, hcwd, h⟩ := Option.bind_eq_some_iff.1 h
  obtain ⟨dir, hdir, -⟩ := Option.bind_eq_some_iff.1 h
  rw [readInode_of_parsePath hparse] at hcwd hdir
  exact ⟨fs₁, cwd, dir, ⟨inum, hparse, hdir⟩, hcwd⟩

/-- The call returns 1 exactly in its two places. -/
lemma doRmdir_fails_iff : fs.RmdirFails path ↔ fs.LeadsToFile path ∨ fs.MeetsUnused path := by
  constructor
  · rintro ⟨fs', hrmdir, -⟩
    obtain ⟨fs₁, cwd, dir, hreads⟩ := RmdirReads.of_doRmdir hrmdir
    obtain ⟨inum, heq⟩ := doRmdir_reads hreads
    rw [heq] at hrmdir
    split at hrmdir
    · rename_i hfile
      exact .inl ⟨fs₁, cwd, dir, hreads, hfile⟩
    · obtain ⟨⟨scan, b, fs₂⟩, hscan, h⟩ := Option.bind_eq_some_iff.1 hrmdir
      obtain ⟨j, rfl⟩ := rmdirEnd_one h
      exact .inr ⟨fs₁, cwd, dir, j, b, fs₂, hreads, hscan⟩
  · -- both ways leave a state that differs in the block buffer
    have hdone : ∀ {fs' : Fs}, fs' = { fs with blockBuf := fs'.blockBuf } →
        fs.doRmdir path = some (1, fs') → fs.RmdirFails path := by
      intro fs' hbuf hone
      rw [hbuf] at hone
      exact ⟨_, hone, rfl, rfl, rfl⟩
    rintro (⟨fs₁, cwd, dir, hreads, hfile⟩ | ⟨fs₁, cwd, dir, j, b, fs₂, hreads, hscan⟩)
    · obtain ⟨inum, heq⟩ := doRmdir_reads hreads
      obtain ⟨m, hparse, -⟩ := hreads.parse
      rw [if_pos hfile] at heq
      exact hdone (parsePathLoop_readOnly hparse) heq
    · obtain ⟨inum, heq⟩ := doRmdir_reads hreads
      obtain ⟨m, hparse, -⟩ := hreads.parse
      have hfs₁ := parsePathLoop_readOnly hparse
      have hfs₂ := scanBlocks_readOnly hscan
      rw [hfs₁] at hfs₂
      rw [hscan, Option.bind_some, rmdirEnd] at heq
      by_cases hfile : dir.type = typeFile
      · rw [if_pos hfile] at heq
        exact hdone hfs₁ heq
      · rw [if_neg hfile] at heq
        exact hdone hfs₂ heq

/-- In a directory of the tree that has an entry the second loop does not stop. -/
lemma Stores.not_meetsUnused {t : Tree} {es : List Entry} (h : fs.Stores t)
    (hc : t.node t.cwd = some (.dir es)) (hes : es ≠ []) (hpath : 0 ∉ path) :
    ¬ fs.MeetsUnused path := by
  rintro ⟨fs₁, cwd, dir, j, b, fs₂, ⟨⟨m, hparse, -⟩, hcwd⟩, hscan⟩
  obtain ⟨v, hs, hr⟩ := h
  have hs₁ := hs.of_parsePath hparse
  obtain ⟨x, b', o⟩ := hs₁.opened hr hc
  obtain rfl : x = cwd := by
    have hx := o.inode
    rw [readInode_of_parsePath hparse, ← hr.cwd, ← hs.cwdInum, hcwd] at hx
    exact (Option.some.inj hx).symm
  cases hfirst : firstNamed es path with
  | none =>
    rw [o.scan_endless hpath hfirst, if_neg hes] at hscan
    cases hscan
  | some i =>
    have hhit := o.scan_hit (fun buf i _ => isUnused buf i i) hpath hfirst fun k _ =>
      o.isUnused_of_lt (List.length_pos_iff.2 hes) 0
    rw [hhit] at hscan
    cases hscan

end Rmdir

/-- A `rmdir` returns 1 and leaves everything as it was exactly if the path leads
to a regular file, or its second loop meets an unused entry at the index of the
block; the latter never happens in a directory of the tree with an entry. -/
theorem rmdir_fails_iff (fs : Fs) (path : Path) :
    (fs.RmdirFails path.1 ↔ fs.LeadsToFile path.1 ∨ fs.MeetsUnused path.1) ∧
    ∀ t es, fs.Stores t → t.node t.cwd = some (.dir es) → es ≠ [] →
      (fs.RmdirFails path.1 ↔ fs.LeadsToFile path.1) := by
  refine ⟨doRmdir_fails_iff, fun t es h hc hes => ?_⟩
  rw [doRmdir_fails_iff, or_iff_left (h.not_meetsUnused hc hes path.2)]

/-- The big file of a fresh image is a regular file, so `rmdir` of it fails. -/
theorem rmdir_fails_bigfile :
    ∃ fs, emptyCard.doMkfs = some (0, fs) ∧ fs.RmdirFails bigfileName := by
  obtain ⟨fs, hmkfs, hst⟩ := doMkfs_stores emptyCard
  refine ⟨fs, hmkfs, ((rmdir_fails_iff fs ⟨bigfileName, by decide⟩).2 _ _ hst rfl (by decide)).2 ?_⟩
  obtain ⟨v, fs', r⟩ : ∃ v fs', Resolved fs fs' v (imageTree _) bigfileName 2 :=
    resolved_image hst (by decide) (by decide) rfl
  have hfile : (imageTree emptyCard.fdescArray).node 2 = some (.file 1) := rfl
  obtain ⟨-, -, y, hy, hsame, -⟩ := r.node hfile
  obtain ⟨x, b, -, -, hx⟩ := r.cwd rfl
  rw [readInode_of_parsePath r.parse] at hx hy
  exact ⟨fs', x, y, ⟨⟨2, r.parse, hy⟩, hx⟩, (r.represents.type_eq_file hfile hsame).2 ⟨1, rfl⟩⟩

/-- On a fresh image a `rmdir` of the entry for the directory itself removes it,
and a `rmdir` of a missing name does not return. -/
theorem rmdir_unchecked :
    ∃ fs, emptyCard.doMkfs = some (0, fs) ∧
      (¬ fs.NamesSubdir [46] ∧ ¬ fs.RmdirFails [46]) ∧
      (¬ fs.NamesSubdir [97] ∧ ¬ fs.RmdirFails [97]) := by
  obtain ⟨fs, hmkfs, hst⟩ := doMkfs_stores emptyCard
  refine ⟨fs, hmkfs, ⟨fun hdir => hdir.1 rfl, ?_⟩, ?_, ?_⟩
  · obtain ⟨v, fs', r⟩ : ∃ v fs', Resolved fs fs' v (imageTree _) [46] 1 :=
      resolved_image hst (by decide) (by decide) rfl
    obtain ⟨fs'', hrmdir, -⟩ : ∃ fs'', fs.doRmdir [46] = some (0, fs'') ∧ _ :=
      r.doRmdir rfl (by decide) rfl rfl
    rintro ⟨f, hone, -⟩
    rw [hrmdir] at hone
    cases hone
  · rintro ⟨-, -, cwd, j, b, fs', n, dir, hcwd, hscan, -⟩
    obtain ⟨v, hs, hr⟩ := hst
    obtain ⟨x, b', o⟩ := hs.opened hr (n := 1) rfl
    have hx := o.inode
    rw [show ((1 : ℕ) : ℤ) = fs.cwdInum from (hs.cwdInum.trans hr.cwd).symm, hcwd] at hx
    obtain rfl := Option.some.inj hx
    rw [o.scan_unnamed (by decide) rfl] at hscan
    cases hscan
  · obtain ⟨v, fs', r⟩ : ∃ v fs', Resolved fs fs' v (imageTree _) [97] 0 :=
      resolved_image hst (by decide) (by decide) rfl
    rintro ⟨f, hone, -⟩
    rw [r.doRmdir_none rfl rfl] at hone
    cases hone

end Fs
end UcasKernel
