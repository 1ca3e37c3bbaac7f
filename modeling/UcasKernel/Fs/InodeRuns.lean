/-
Inode numbers over runs of calls.

`parse_path` returns 0 for a path that leads nowhere and a closed descriptor holds 0, and
`do_ln`, `do_rmdir`, `do_ls`, `do_cat` and `do_lseek` pass that 0 on to `read_inode`.  From
the state `do_mkfs` leaves, as long as these get a path that leads somewhere or an open
descriptor, no call works on an inode that has been freed, a name with a separator is not
resolved, and data is written to the direct blocks of files only, every number passed to
`read_inode` and `write_inode` is between 1 and 4096.
-/
import UcasKernel.Fs.FileWrites
import UcasKernel.Fs.InodeCalls
import UcasKernel.Fs.Steps

namespace UcasKernel
namespace Fs

open Logged

/-! ## The events of a run -/

/-- A call of a process, with the two that only print and the one that formats the card,
or another process coming to run with its own working directory.  `do_statfs` uses no inode
and leaves everything as it was. -/
inductive Event
  | call (call : Syscall)
  | ls (path : Path) (option : ℤ)
  | cat (path : Path)
  | mkfs
  | resume (cwdInum : ℕ)

/-- The state after an event, if it returns. -/
def History.next (s : History) : Event → Option History
  | .call call => s.step call
  | .ls path option => (s.fs.doLsL path.1 option).result.map fun r => { s with fs := r.2.2 }
  | .cat path => (s.fs.doCatL path.1).result.map fun r => { s with fs := r.2.2 }
  | .mkfs => s.fs.doMkfs.map fun r => ⟨r.2, [1, 2]⟩
  | .resume cwdInum => some { s with fs := { s.fs with cwdInum := cwdInum } }

/-- The numbers passed to `read_inode` and `write_inode`. -/
def inodeCalls (fs : Fs) : Event → List ℤ
  | .call (.mkdir path) => (fs.doMkdirL path.1).log
  | .call (.rmdir path) => (fs.doRmdirL path.1).log
  | .call (.touch path) => (fs.doTouchL path.1).log
  | .call (.rm path) => (fs.doRmL path.1).log
  | .call (.ln srcPath dstPath) => (fs.doLnL srcPath.1 dstPath.1).log
  | .call (.cd path) => (fs.doCdL path.1).log
  | .call (.fopen path mode) => (fs.doFopenL path.1 mode).log
  | .call (.fread fd buff length) => (fs.doFreadL fd buff length).log
  | .call (.fwrite fd buff length) => (fs.doFwriteL fd buff length).log
  | .call (.fclose _) => []
  | .call (.lseek fd offset whence) => (fs.doLseekL fd offset whence).log
  | .ls path option => (fs.doLsL path.1 option).log
  | .cat path => (fs.doCatL path.1).log
  | .mkfs => fs.doMkfsL.log
  | .resume _ => []

/-- The number of an inode. -/
def ValidInode (n : ℤ) : Prop := 1 ≤ n ∧ n ≤ ninodes

instance (n : ℤ) : Decidable (ValidInode n) := by
  unfold ValidInode
  infer_instance

/-- The path leads to an inode in use. -/
def LeadsSomewhere (s : History) (path : Path) : Prop :=
  ∀ (n : ℤ) (fs' : Fs), s.fs.parsePath path.1 s.fs.cwdInum = some (n, fs') → s.Allocated n.toNat

/-- The path begins in a directory in use, without a separator in a name, and leads
nowhere or to an inode in use. -/
def PathInUse (s : History) (path : Path) : Prop :=
  CwdInUse s ∧ s.fs.PlainPath path.1 ∧ LeadsInUse s path

/-- The descriptor is of a file in use, and the data ends within the direct blocks. -/
def WritesDirect (s : History) (d : Fdesc) (length : ℤ) : Prop :=
  ∃ inode, s.Allocated d.inum.toNat ∧ s.fs.readInode d.inum = some inode ∧
    inode.type = typeFile ∧ (d.offset % 2 ^ 32 : ℕ) + length ≤ ndirectBlocks * nbytesPerBlock

/-- An event whose inode numbers come from inodes in use. -/
def Resolvable (s : History) : Event → Prop
  | .call (.touch path) => WorksInUse s (.touch path)
  | .call (.mkdir path) => WorksInUse s (.mkdir path)
  | .call (.cd path) | .call (.rm path) | .call (.fopen path _) => PathInUse s path
  | .call (.rmdir path) | .ls path _ | .cat path => PathInUse s path ∧ LeadsSomewhere s path
  | .call (.ln srcPath dstPath) => srcPath.1 = dstPath.1 ∨
    PathInUse s srcPath ∧ LeadsSomewhere s srcPath ∧ dstPath.1.length ≤ 27
  | .call (.lseek fd _ _) => ∀ d, s.fs.fdesc fd = some d → d.inum ≠ 0
  | .call (.fwrite fd _ length) =>
    ∀ d, s.fs.fdesc fd = some d → d.write = true → WritesDirect s d length
  | .call (.fread _ _ _) | .call (.fclose _) | .mkfs | .resume _ => True

/-! ## The invariant -/

/-- A descriptor holds the number of an inode, or 0 and then no permissions. -/
structure Fdesc.Numbered (d : Fdesc) : Prop where
  nonneg : 0 ≤ d.inum
  le : d.inum ≤ ninodes
  closed : d.inum = 0 → d.read = false ∧ d.write = false

/-- The numbers in valid entries are bounded. -/
def Tree.EntriesLe (t : Tree) : Prop := ∀ d, ∀ e ∈ t.entries d, e.valid = true → e.inum ≤ ninodes

/-- The numbers in valid entries and in descriptors are numbers of inodes. -/
structure Numbered (s : History) (t : Tree) : Prop where
  tracks : Tracks s t
  entries : t.EntriesLe
  fdescs : ∀ i < numFdescs, (t.fdescArray i).Numbered

/-- The card also holds the index blocks that `do_mkfs` lays out. -/
structure Formatted (s : History) (t : Tree) : Prop extends Numbered s t where
  indexed : t.indexed = true

lemma Fdesc.numbered_zero : Fdesc.zero.Numbered := ⟨le_rfl, by decide, fun _ => ⟨rfl, rfl⟩⟩

lemma Fdesc.Numbered.valid {d : Fdesc} (h : d.Numbered) (hd : d.inum ≠ 0) : ValidInode d.inum :=
  ⟨by have := h.nonneg; omega, h.le⟩

section Entries

variable {t t' : Tree} {es : List Entry} {n m : ℕ}

lemma Tree.EntriesLe.set (h : t.EntriesLe) {nd : Option Node}
    (hnd : ∀ es, nd = some (.dir es) → ∀ e ∈ es, e.valid = true → e.inum ≤ ninodes) :
    (t.set n nd).EntriesLe := by
  intro d e he hvalid
  by_cases hd : d = n
  · subst hd
    rcases nd with _ | _ | es'
    · rw [entries_set_none] at he
      cases he
    · rw [entries_set_file] at he
      cases he
    · rw [entries_set_dir] at he
      exact hnd es' rfl e he hvalid
  · rw [entries_set_of_ne nd hd] at he
    exact h d e he hvalid

lemma Tree.EntriesLe.enter (h : t.EntriesLe) {name : List UInt8}
    (hc : t.node t.cwd = some (.dir es)) (hm : m ≤ ninodes) : (t.enter name m).EntriesLe := by
  intro d e he hvalid
  rcases mem_entries_enter hc he with hold | rfl
  · exact h d e hold hvalid
  · exact hm

lemma Tree.EntriesLe.unlink (h : t.EntriesLe) (hc : t.node t.cwd = some (.dir es)) (j : ℕ) :
    (t.unlink j).EntriesLe := fun d e he hvalid => h d e (mem_entries_unlink hc he hvalid) hvalid

/-- An edit enters numbers of nodes only. -/
lemma Tree.EntriesLe.edits {fs : Fs} {call : Syscall} (h : t.EntriesLe) (hedits : fs.Edits t call t')
    (hle : ∀ k, t.node k ≠ none → k ≤ ninodes) : t'.EntriesLe := by
  have hcwd : ∀ {n : ℕ} {nd : Node} {es : List Entry}, t.node t.cwd = some (.dir es) →
      t.node n = none → (t.set n (some nd)).node t.cwd = some (.dir es) := by
    intro n nd es hc hn
    refine (Tree.node_set_of_ne _ _ ?_).trans hc
    rintro rfl
    rw [hc] at hn
    cases hn
  have hbound : ∀ {k : ℕ} {nd : Node}, t.node k = some nd → k ≤ ninodes := fun hk =>
    hle _ (by rw [hk]; exact Option.some_ne_none _)
  cases hedits with
  | same | cd => exact h
  | touch hc _ hn hhanded =>
    exact (h.set fun _ heq => by cases heq).enter (hcwd hc hn) hhanded.2.1
  | mkdir hc _ hn hhanded =>
    refine Tree.EntriesLe.enter (h.set fun es' heq => ?_) (hcwd hc hn) hhanded.2.1
    obtain rfl := Node.dir.inj (Option.some.inj heq)
    intro e he _
    simp only [freshEntries, List.mem_cons, List.not_mem_nil, or_false] at he
    rcases he with rfl | rfl
    · exact hhanded.2.1
    · exact hbound hc
  | lnFile _ hc hnode => exact (h.enter hc (hbound hnode)).set fun _ heq => by cases heq
  | lnDir _ hc hnode => exact h.enter hc (hbound hnode)
  | rm hc _ =>
    refine (h.unlink hc _).set fun es' heq => ?_
    split at heq <;> cases heq
  | rmdir hc _ => exact (h.unlink hc _).set fun _ heq => by cases heq

lemma Edits.fdescArray {fs : Fs} {call : Syscall} (hedits : fs.Edits t call t') :
    t'.fdescArray = t.fdescArray := by
  cases hedits <;> rfl

lemma Edits.indexed {fs : Fs} {call : Syscall} (hedits : fs.Edits t call t') :
    t'.indexed = t.indexed := by
  cases hedits <;> rfl

end Entries

/-! ## The numbers of one event -/

section Log

variable {s : History} {t : Tree} {es : List Entry} {path : Path}

lemma all_ite {α : Type} {c : Prop} [Decidable c] {x y : InodeLog α} {P : ℤ → Prop}
    (hx : c → x.All P) (hy : ¬ c → y.All P) : (if c then x else y).All P := by
  split
  · exact hx ‹_›
  · exact hy ‹_›

/-- Resolving a path reads the inode it begins in and, behind a separator, those of the
entries it goes through. -/
lemma Opened.all_parsePathL {fs : Fs} {v : Volume} {n : ℕ} {x : Inode} {b : ℕ}
    (o : fs.Opened v n es x b) (hn : ValidInode n) (hpath : 0 ∉ path.1) (hplain : Plain es path.1) :
    (fs.parsePathL path.1 n).All ValidInode := by
  rw [parsePathL, parsePathLoopL]
  refine all_ite (fun _ => all_pure _) fun hne => all_ite (fun _ => all_of _) fun _ => ?_
  refine All.bind (all_tell.2 hn) fun y hy => All.bind (all_of _) fun r hscan => ?_
  obtain ⟨scan, c, fs₁⟩ := r
  obtain rfl := Option.some.inj (hy.symm.trans o.inode)
  cases scan with
  | stop j | past => exact all_pure _
  | hit j =>
    refine All.bind (all_of _) fun inum _ => all_ite (fun _ => ?_) fun _ => all_of _
    rcases hplain with hslash | hnone
    · -- nothing is left of the path
      have hdrop : path.1.drop ((path.1.takeWhile (· ≠ 47)).length + 1) = [] := by
        rw [List.takeWhile_eq_self_iff.2 fun c hc => ?_]
        · exact List.drop_eq_nil_of_le (by omega)
        · simp only [decide_eq_true_eq]
          rintro rfl
          exact hslash hc
      rw [hdrop]
      cases path.1.length with
      | zero => exact all_of _
      | succ k =>
        rw [parsePathLoopL, if_pos rfl]
        exact all_pure _
    · have hmiss := o.scan_unnamed hpath hnone
      rw [result_of] at hscan
      rw [hmiss] at hscan
      split at hscan <;> cases hscan

/-- The number of the working directory. -/
lemma Numbered.cwd (h : Numbered s t) (hcwd : CwdInUse s) :
    ValidInode s.fs.cwdInum ∧ ∃ es, t.node t.cwd = some (.dir es) := by
  obtain ⟨es, hc⟩ := h.tracks.cwd hcwd
  obtain ⟨v, hs, hr⟩ := h.tracks.stores
  obtain ⟨h1, h2, -⟩ := hs.nodeBounds hr hc
  refine ⟨?_, es, hc⟩
  rw [hs.cwdInum, hr.cwd]
  exact ⟨by omega, by omega⟩

lemma Numbered.all_parsePathL (h : Numbered s t) (hp : PathInUse s path) :
    (s.fs.parsePathL path.1 s.fs.cwdInum).All ValidInode := by
  obtain ⟨hvalid, es, hc⟩ := h.cwd hp.1
  have hplain := h.tracks.stores.plain hc hp.2.1
  obtain ⟨v, hs, hr⟩ := h.tracks.stores
  obtain ⟨x, b, o⟩ := hs.opened hr hc
  rw [hs.cwdInum, hr.cwd] at hvalid ⊢
  exact o.all_parsePathL hvalid path.2 hplain

/-- The number a path leads to. -/
lemma Numbered.valid_of_parsePath (h : Numbered s t) {n : ℤ} {fs' : Fs} (hleads : LeadsInUse s path)
    (hparse : (s.fs.parsePathL path.1 s.fs.cwdInum).result = some (n, fs')) (hn : n ≠ 0) :
    ValidInode n := by
  rw [result_parsePathL] at hparse
  have hall := (hleads n fs' hparse).resolve_left hn
  obtain ⟨h1, h2, -⟩ := h.tracks.handed _ hall.1
  simp only [ValidInode, ninodes] at h2 ⊢
  omega

lemma Numbered.ne_zero (h : Numbered s t) {n : ℤ} {fs' : Fs} (hleads : LeadsSomewhere s path)
    (hparse : (s.fs.parsePathL path.1 s.fs.cwdInum).result = some (n, fs')) : n ≠ 0 := by
  rintro rfl
  rw [result_parsePathL] at hparse
  have := (h.tracks.handed _ (hleads 0 fs' hparse).1).1
  simp at this

/-- Resolving a path leaves the working directory. -/
lemma cwdInum_of_parsePathL {fs fs' : Fs} {n m : ℤ} {p : List UInt8}
    (hparse : (fs.parsePathL p n).result = some (m, fs')) : fs'.cwdInum = fs.cwdInum := by
  rw [result_parsePathL] at hparse
  rw [parsePathLoop_readOnly hparse]

/-- The next inode number, after reading blocks. -/
lemma Numbered.valid_allocInode (h : Numbered s t) (hopen : s.fs.MapOpen imapSector 1) {fs' : Fs}
    (hread : fs' = { s.fs with blockBuf := fs'.blockBuf }) : ValidInode fs'.allocInode.1 := by
  obtain ⟨v, hs, hr⟩ := h.tracks.stores
  have hs' : fs'.Shows v := by
    rw [hread]
    exact hs.setBlockBuf _
  have hopen' : fs'.MapOpen imapSector 1 := by
    rw [hread]
    exact hopen
  obtain ⟨n, fs₁, halloc, hhanded, -⟩ := hs'.allocInode hopen'
  obtain ⟨h1, h2, -⟩ := hhanded
  rw [halloc]
  exact ⟨by omega, by omega⟩

/-- The walk of `do_touch` and `do_mkdir`, when it does not end at the name. -/
lemma Numbered.valid_new (h : Numbered s t)
    (hC : CwdInUse s ∧ (dentryNameLen < path.1.length ∨ s.fs.NameTaken path.1 ∨
      s.fs.MapOpen imapSector 1)) (hlen : ¬ path.1.length > dentryNameLen) {x : Inode} {scan : Scan}
    {b : ℕ} {fs' : Fs} (hx : s.fs.readInode s.fs.cwdInum = some x)
    (hscan : s.fs.scanBlocks x (isNamed path.1) isUnused 0 0 ndirectBlocks = some (scan, b, fs'))
    (hmiss : ∀ j, scan ≠ .hit j) : ValidInode fs'.allocInode.1 := by
  obtain ⟨-, es, hc⟩ := h.cwd hC.1
  refine h.valid_allocInode ?_ (scanBlocks_readOnly hscan)
  rcases h.tracks.mapOpen hc hC.2 with (hlong | ⟨j, hj⟩) | ⟨-, -, hopen⟩
  · exact absurd hlong hlen
  · obtain ⟨v, hs, hr⟩ := h.tracks.stores
    obtain ⟨y, c, o⟩ := hs.opened hr hc
    rw [hs.cwdInum, hr.cwd] at hx
    obtain rfl := Option.some.inj (hx.symm.trans o.inode)
    rw [o.scan_named path.2 hj] at hscan
    cases hscan
    exact absurd rfl (hmiss j)
  · exact hopen

lemma Numbered.all_touch (h : Numbered s t) (hC : WorksInUse s (.touch path)) :
    (s.fs.doTouchL path.1).All ValidInode := by
  obtain ⟨hvalid, -⟩ := h.cwd hC.1
  refine All.bind (all_tell.2 hvalid) fun x hx => all_ite (fun _ => all_pure _) fun hlen => ?_
  refine All.bind (all_of _) fun ⟨scan, b, fs₁⟩ hscan => ?_
  cases scan with
  | hit j => exact all_pure _
  | stop j | past =>
    have hnew := h.valid_new hC hlen hx hscan fun _ heq => by cases heq
    dsimp only
    rcases halloc : fs₁.allocInode with ⟨n, fs₂⟩
    rcases fs₂.getTicks with ⟨ticks, fs₃⟩
    rw [halloc] at hnew
    dsimp only
    exact All.bind (all_tell.2 hnew) fun _ _ => All.bind (all_of _) fun _ _ => all_pure _

/-- Making a directory writes the inode of the next number. -/
lemma all_initDirInodeL {fs : Fs} {p : ℤ} (hnew : ValidInode fs.allocInode.1) :
    (fs.initDirInodeL p).All ValidInode := by
  rw [initDirInodeL]
  rcases halloc : fs.allocInode with ⟨n, fs₁⟩
  rcases fs₁.allocBlock with ⟨b, fs₂⟩
  rcases fs₂.getTicks with ⟨ticks, fs₃⟩
  rw [halloc] at hnew
  dsimp only
  exact All.bind (all_tell.2 hnew) fun _ _ => all_pure _

lemma Numbered.all_mkdir (h : Numbered s t) (hC : WorksInUse s (.mkdir path)) :
    (s.fs.doMkdirL path.1).All ValidInode := by
  obtain ⟨hvalid, -⟩ := h.cwd hC.1
  refine All.bind (all_tell.2 hvalid) fun x hx => all_ite (fun _ => all_pure _) fun hlen => ?_
  refine All.bind (all_of _) fun ⟨scan, b, fs₁⟩ hscan => ?_
  cases scan with
  | hit j => exact all_pure _
  | stop j | past =>
    have hnew := h.valid_new hC hlen hx hscan fun _ heq => by cases heq
    dsimp only
    exact All.bind (all_initDirInodeL hnew) fun _ _ => All.bind (all_of _) fun _ _ => all_pure _

lemma Numbered.all_cd (h : Numbered s t) (hp : PathInUse s path) :
    (s.fs.doCdL path.1).All ValidInode := by
  refine All.bind (h.all_parsePathL hp) fun ⟨n, fs'⟩ hparse => ?_
  refine all_ite (fun _ => all_pure _) fun hn => ?_
  refine All.bind (all_tell.2 (h.valid_of_parsePath hp.2.2 hparse hn)) fun _ _ => ?_
  exact all_ite (fun _ => all_pure _) fun _ => all_pure _

lemma Numbered.all_rm (h : Numbered s t) (hp : PathInUse s path) :
    (s.fs.doRmL path.1).All ValidInode := by
  obtain ⟨hvalid, -⟩ := h.cwd hp.1
  refine All.bind (h.all_parsePathL hp) fun ⟨n, fs₁⟩ hparse => ?_
  refine all_ite (fun _ => all_pure _) fun hn => ?_
  have hnum := h.valid_of_parsePath hp.2.2 hparse hn
  refine All.bind (all_tell.2 hnum) fun _ _ => all_ite (fun _ => all_pure _) fun _ => ?_
  rw [← cwdInum_of_parsePathL hparse] at hvalid
  refine All.bind (all_tell.2 hvalid) fun _ _ => All.bind (all_of _) fun ⟨scan, b, fs₂⟩ _ => ?_
  dsimp only
  refine all_ite (fun _ => ?_) fun _ => ?_
  · exact All.bind (all_tell.2 hnum) fun _ _ => all_pure _
  · exact All.bind (all_of _) fun _ _ => All.bind (all_of _) fun _ _ => all_pure _

lemma Numbered.all_rmdir (h : Numbered s t) (hp : PathInUse s path) (hleads : LeadsSomewhere s path) :
    (s.fs.doRmdirL path.1).All ValidInode := by
  obtain ⟨hvalid, -⟩ := h.cwd hp.1
  refine All.bind (h.all_parsePathL hp) fun ⟨n, fs₁⟩ hparse => ?_
  have hnum := h.valid_of_parsePath hp.2.2 hparse (h.ne_zero hleads hparse)
  refine All.bind (all_tell.2 hvalid) fun _ _ => All.bind (all_tell.2 hnum) fun _ _ => ?_
  refine all_ite (fun _ => all_pure _) fun _ => All.bind (all_of _) fun ⟨scan, b, fs₂⟩ _ => ?_
  cases scan with
  | stop j => exact all_pure _
  | hit j | past =>
    dsimp only
    exact All.bind (all_of _) fun _ _ => All.bind (all_of _) fun _ _ => all_pure _

lemma Numbered.all_ln {dst : Path} (h : Numbered s t)
    (hC : path.1 = dst.1 ∨ PathInUse s path ∧ LeadsSomewhere s path ∧ dst.1.length ≤ 27) :
    (s.fs.doLnL path.1 dst.1).All ValidInode := by
  refine all_ite (fun _ => all_pure _) fun hne => ?_
  obtain ⟨hp, hleads, -⟩ := hC.resolve_left hne
  obtain ⟨hvalid, -⟩ := h.cwd hp.1
  refine All.bind (h.all_parsePathL hp) fun ⟨n, fs₁⟩ hparse => ?_
  have hnum := h.valid_of_parsePath hp.2.2 hparse (h.ne_zero hleads hparse)
  rw [← cwdInum_of_parsePathL hparse] at hvalid
  refine All.bind (all_tell.2 hnum) fun _ _ => All.bind (all_tell.2 hvalid) fun _ _ => ?_
  refine All.bind (all_of _) fun ⟨_, b, fs₂⟩ _ => All.bind (all_of _) fun _ _ => ?_
  exact All.bind (all_tell.2 hnum) fun _ _ => all_pure _

lemma Numbered.all_fopen (h : Numbered s t) (hp : PathInUse s path) (mode : ℤ) :
    (s.fs.doFopenL path.1 mode).All ValidInode := by
  refine All.bind (h.all_parsePathL hp) fun ⟨n, fs'⟩ hparse => ?_
  refine all_ite (fun _ => all_pure _) fun _ => ?_
  cases (List.range numFdescs).find? fun i => (fs'.fdescArray i).inum = 0 <;> exact all_pure _

/-- A descriptor of the table. -/
lemma Numbered.fdesc (h : Numbered s t) {fd : ℤ} {d : Fdesc} (hfd : s.fs.fdesc fd = some d) :
    d.Numbered := by
  obtain ⟨h0, hlt, rfl⟩ := fdesc_eq h.tracks.stores hfd
  exact h.fdescs _ (by omega)

lemma Numbered.all_fread (h : Numbered s t) (fd : ℤ) (buff : Bytes) (length : ℤ) :
    (s.fs.doFreadL fd buff length).All ValidInode := by
  refine All.bind (all_of _) fun d hd => all_ite (fun _ => all_pure _) fun hread => ?_
  have hnum := (h.fdesc hd).valid fun h0 => by
    rw [((h.fdesc hd).closed h0).1] at hread
    exact hread rfl
  exact All.bind (all_tell.2 hnum) fun _ _ => All.bind (all_of _) fun ⟨_, _, _⟩ _ => all_pure _

/-- The loop of `do_fwrite` writes the inode of the file. -/
lemma all_fwriteLoopL {fuel offset : ℕ} {fs : Fs} {inode : Inode} {inum : ℤ} {buff : Bytes}
    {length : ℤ} (hnum : ValidInode inum) :
    (fwriteLoopL fuel fs inode inum offset buff length).All ValidInode := by
  induction fuel generalizing fs inode offset length with
  | zero => exact all_pure _
  | succ fuel ih =>
    rw [fwriteLoopL]
    refine all_ite (fun _ => all_pure _) fun _ => ?_
    rcases fs.offsetToBlk offset inode with ⟨blkNum, fs₁⟩
    dsimp only
    refine all_ite (fun _ => ?_) fun _ => ?_
    · rcases fs₁.allocBlock with ⟨b, fs₂⟩
      dsimp only
      refine All.bind ?_ fun r _ => All.bind (all_pure _) fun r' _ => ?_
      · rw [setInodeBlkNumL]
        exact all_ite (fun _ => All.bind (all_tell.2 hnum) fun _ _ => all_pure _) fun _ => all_of _
      · exact all_ite (fun _ => all_of _) fun _ => ih
    · exact All.bind (all_pure _) fun _ _ => all_ite (fun _ => all_of _) fun _ => ih

lemma Numbered.all_fwrite (h : Numbered s t) (fd : ℤ) (buff : Bytes) (length : ℤ) :
    (s.fs.doFwriteL fd buff length).All ValidInode := by
  refine All.bind (all_of _) fun d hd => all_ite (fun _ => all_pure _) fun hwrite => ?_
  have hnum := (h.fdesc hd).valid fun h0 => by
    rw [((h.fdesc hd).closed h0).2] at hwrite
    exact hwrite rfl
  refine All.bind (all_tell.2 hnum) fun _ _ => All.bind (all_fwriteLoopL hnum) fun ⟨_, _, _⟩ _ => ?_
  exact All.bind (all_tell.2 hnum) fun _ _ => all_pure _

lemma Numbered.all_lseek (h : Numbered s t) {fd : ℤ}
    (hopen : ∀ d, s.fs.fdesc fd = some d → d.inum ≠ 0) (offset whence : ℤ) :
    (s.fs.doLseekL fd offset whence).All ValidInode := by
  refine All.bind (all_of _) fun d hd => ?_
  refine All.bind (all_tell.2 ((h.fdesc hd).valid (hopen d hd))) fun _ _ => ?_
  exact All.bind (all_of _) fun _ _ => all_pure _

/-- Printing an entry reads the inode it leads to. -/
lemma IsDir.all_printDentryL {fs : Fs} (hd : IsDir fs.blockBuf es)
    (hes : ∀ e ∈ es, e.valid = true → e.inum ≤ ninodes) {j : ℕ}
    (hvalid : dentryValid fs.blockBuf j = some true) (option : ℤ) :
    (fs.printDentryL j option).All ValidInode := by
  refine All.bind (all_of _) fun name hname => ?_
  refine all_ite (fun _ => all_pure _) fun _ => all_ite (fun _ => all_pure _) fun _ => ?_
  refine all_ite (fun _ => All.bind (all_of _) fun inum hinum => ?_) fun _ => all_pure _
  refine All.bind (all_tell.2 ?_) fun _ _ => all_ite (fun _ => all_pure _) fun _ => all_of _
  have hj : j < maxEntries := by
    rw [result_of, dentryName] at hname
    split at hname
    · rename_i hin
      simp only [sizeofDentry, nbytesPerBlock, maxEntries] at hin ⊢
      omega
    · cases hname
  obtain ⟨hlt, hv, rfl⟩ := (hd.valid_iff hj inum).1 ⟨hvalid, hinum⟩
  have hle := hes _ (List.getElem_mem hlt) hv
  have hne := (hd.entry j hlt).inum_ne
  have hint : toInt32 (es[j].inum : ℤ) = es[j].inum := by
    simp only [ninodes] at hle
    rw [toInt32]
    exact Int.bmod_eq_of_le (by omega) (by omega)
  rw [hint]
  exact ⟨by omega, by omega⟩

lemma IsDir.all_lsEntriesL {fs : Fs} (hd : IsDir fs.blockBuf es)
    (hes : ∀ e ∈ es, e.valid = true → e.inum ≤ ninodes) (option : ℤ) (j n : ℕ) :
    (fs.lsEntriesL option j n).All ValidInode := by
  induction n generalizing j with
  | zero => exact all_pure _
  | succ n ih =>
    rw [lsEntriesL]
    refine All.bind (all_of _) fun valid hvalid => all_ite (fun htrue => ?_) fun _ => ?_
    · rw [htrue] at hvalid
      exact All.bind (hd.all_printDentryL hes hvalid option) fun _ _ =>
        All.bind (ih (j + 1)) fun _ _ => all_pure _
    · exact All.bind (all_of _) fun _ _ => all_ite (fun _ => all_pure _) fun _ => ih (j + 1)

/-- The blocks of a directory with one block. -/
lemma Opened.all_lsBlocksL {fs : Fs} {v : Volume} {d b : ℕ} {x : Inode} (o : fs.Opened v d es x b)
    (hone : x.direct 1 = 0) (hes : ∀ e ∈ es, e.valid = true → e.inum ≤ ninodes) (option : ℤ) :
    (fs.lsBlocksL x option 0 ndirectBlocks).All ValidInode := by
  have hrest : ∀ fs' : Fs, (fs'.lsBlocksL x option 1 9).All ValidInode := fun fs' => by
    rw [lsBlocksL, if_pos hone]
    exact all_pure _
  rw [ndirectBlocks, lsBlocksL, o.first, if_neg o.ne_zero]
  refine All.bind (o.buf.all_lsEntriesL hes option 0 ndentriesPerBlock) fun _ _ => ?_
  exact All.bind (hrest _) fun _ _ => all_pure _

lemma Numbered.all_ls (h : Numbered s t) (hp : PathInUse s path) (hleads : LeadsSomewhere s path)
    (option : ℤ) : (s.fs.doLsL path.1 option).All ValidInode := by
  refine All.bind (h.all_parsePathL hp) fun ⟨n, fs₁⟩ hparse => ?_
  have hn := h.ne_zero hleads hparse
  have hnum := h.valid_of_parsePath hp.2.2 hparse hn
  rw [result_parsePathL] at hparse
  refine All.bind (all_tell.2 hnum) fun x hx => all_ite (fun _ => all_pure _) fun hdir => ?_
  refine All.bind ?_ fun ⟨_, _⟩ _ => all_pure _
  obtain ⟨v, m, rfl, r, hnode⟩ := h.tracks.resolved hp.2.2 hparse
  obtain ⟨nd, hnode⟩ := hnode.resolve_left fun hm => hn (by rw [hm]; rfl)
  cases nd with
  | file ref =>
    obtain ⟨-, -, y, hy, hsame, -⟩ := r.node hnode
    obtain rfl := Option.some.inj (hx.symm.trans hy)
    exact absurd ((r.represents.type_eq_file hnode hsame).2 ⟨ref, rfl⟩) hdir
  | dir es =>
    obtain ⟨y, b, o⟩ := r.after.opened r.represents hnode
    obtain rfl := Option.some.inj (hx.symm.trans o.inode)
    have hat : DirAt v m es := r.represents.node m _ hnode
    have hes := h.entries m
    rw [Tree.entries_of_node hnode] at hes
    refine o.all_lsBlocksL ?_ hes option
    rw [o.same.direct 1 (by decide)]
    exact hat.rest 1 le_rfl (by decide)

lemma Numbered.all_cat (h : Numbered s t) (hp : PathInUse s path) (hleads : LeadsSomewhere s path) :
    (s.fs.doCatL path.1).All ValidInode := by
  refine All.bind (h.all_parsePathL hp) fun ⟨n, fs₁⟩ hparse => ?_
  have hnum := h.valid_of_parsePath hp.2.2 hparse (h.ne_zero hleads hparse)
  exact All.bind (all_tell.2 hnum) fun _ _ => all_ite (fun _ => all_pure _) fun _ => all_pure _

/-- The descriptors as they are in the file system. -/
lemma Numbered.fdescArray (h : Numbered s t) {i : ℕ} (hi : i < numFdescs) :
    (s.fs.fdescArray i).Numbered := by
  have hnum := h.fdescs i hi
  obtain ⟨v, hs, hr⟩ := h.tracks.stores
  rwa [← hr.fdescArray, ← hs.fdescArray] at hnum

/-- The root directory alone, on a card that is being formatted. -/
lemma numbered_root {fs : Fs} {fd : ℕ → Fdesc} (h : fs.Stores (rootTree fd))
    (hfd : ∀ i < numFdescs, (fd i).Numbered) : Numbered ⟨fs, [1]⟩ (rootTree fd) := by
  refine ⟨⟨h, fun n hn => ?_, fun n hn => ?_⟩, fun d e he _ => ?_, hfd⟩
  · obtain rfl := List.mem_singleton.1 hn
    exact ⟨le_rfl, by decide, by decide⟩
  · by_contra hn1
    rw [List.mem_singleton] at hn1
    exact hn (if_neg hn1)
  · by_cases hd : d = 1
    · subst hd
      rw [Tree.entries_of_node (show _ = some (Node.dir (freshEntries 1 1)) from rfl)] at he
      simp only [freshEntries, List.mem_cons, List.not_mem_nil, or_false] at he
      rcases he with rfl | rfl <;> exact by decide
    · rw [Tree.entries, show (rootTree _).node d = none from if_neg hd] at he
      cases he

/-- `init_bigfile` makes the big file with the second number. -/
lemma all_initBigfileL {fs : Fs} {fd : ℕ → Fdesc} (h : fs.Stores (rootTree fd))
    (hfd : ∀ i < numFdescs, (fd i).Numbered) : fs.initBigfileL.All ValidInode := by
  have hroot := numbered_root h hfd
  have htwo : Handed ninodes 2 := ⟨by decide, by decide, by decide⟩
  have htouch : WorksInUse ⟨fs, [1]⟩ (.touch ⟨bigfileName, by decide⟩) :=
    ⟨hroot.tracks.cwdInUse rfl, .inr (.inr (h.mapOpen_iff.2 ⟨2, htwo, rfl⟩))⟩
  have hbig : ValidInode testBigFileInum := by decide
  exact All.bind (hroot.all_touch htouch) fun _ _ =>
    All.bind (all_tell.2 hbig) fun _ _ => all_tell.2 hbig

/-- Formatting makes the root directory and the big file. -/
lemma Numbered.all_mkfs (h : Numbered s t) : s.fs.doMkfsL.All ValidInode := by
  have hs₀ := shows_maps (superblock_mkfsMaps s.fs) (firstBits_imap s.fs) (firstBits_bmap s.fs)
  have hone : Handed ninodes 1 := ⟨le_rfl, by decide, by decide⟩
  have hnew : ValidInode s.fs.mkfsMaps.allocInode.1 := by
    obtain ⟨n, f, halloc, ⟨h1, h2, -⟩, -⟩ :=
      hs₀.allocInode (hs₀.mapOpen_iff.2 ⟨1, hone, Set.notMem_empty 1⟩)
    rw [halloc]
    exact ⟨by omega, by omega⟩
  refine All.bind (all_initDirInodeL hnew) fun ⟨n, fs₁⟩ hinit => ?_
  obtain ⟨x, buf, f, hinit', -, -, hs₁, hr₁⟩ := initDirInode_image hs₀
  rw [result_initDirInodeL, hinit', Option.some.injEq, Prod.mk.injEq] at hinit
  obtain ⟨-, rfl⟩ := hinit
  refine All.bind (all_initBigfileL ⟨_, hs₁, hr₁⟩ fun i hi => ?_) fun _ _ => all_pure _
  rw [fdescArray_mkfsMaps]
  exact h.fdescArray hi

/-- Every number of an event is that of an inode. -/
lemma Numbered.valid (h : Numbered s t) {e : Event} (hC : Resolvable s e) :
    ∀ n ∈ s.fs.inodeCalls e, ValidInode n := by
  cases e with
  | ls path option => exact h.all_ls hC.1 hC.2 option
  | cat path => exact h.all_cat hC.1 hC.2
  | mkfs => exact h.all_mkfs
  | resume cwdInum => exact fun n hn => by cases hn
  | call call =>
    cases call with
    | mkdir path => exact h.all_mkdir hC
    | rmdir path => exact h.all_rmdir hC.1 hC.2
    | touch path => exact h.all_touch hC
    | rm path => exact h.all_rm hC
    | ln srcPath dstPath => exact h.all_ln hC
    | cd path => exact h.all_cd hC
    | fopen path mode => exact h.all_fopen hC mode
    | fread fd buff length => exact h.all_fread fd buff length
    | fwrite fd buff length => exact h.all_fwrite fd buff length
    | fclose fd => exact fun n hn => by cases hn
    | lseek fd offset whence => exact h.all_lseek hC offset whence

end Log

/-! ## The state after one event -/

/-- The tree after an event: a call edits it or changes a descriptor, and `do_mkfs` makes
it anew. -/
inductive Moves (fs : Fs) (t : Tree) : Event → Tree → Prop
  | same (e : Event) : Moves fs t e t
  | edits {call : Syscall} {t' : Tree} (h : fs.Edits t call t') : Moves fs t (.call call) t'
  | fdesc {call : Syscall} {i : ℕ} {d : Fdesc}
    (hd : d.inum = 0 ∨ d.inum = (t.fdescArray i).inum ∨ t.node d.inum.toNat ≠ none) :
    Moves fs t (.call call) (t.setFdesc i d)
  | resume (n : ℕ) : Moves fs t (.resume n) { t with cwd := n }
  | mkfs : Moves fs t .mkfs (imageTree fs.fdescArray)

/-- `do_ls` and `do_cat` change only the block buffer. -/
lemma lsBlocksL_readOnly {fs fs' : Fs} {inode : Inode} {option : ℤ} {i n : ℕ} {lines : List Line}
    (h : (fs.lsBlocksL inode option i n).result = some (lines, fs')) :
    fs' = { fs with blockBuf := fs'.blockBuf } := by
  induction n generalizing fs i lines with
  | zero =>
    rw [lsBlocksL, result_pure] at h
    cases h
    rfl
  | succ n ih =>
    rw [lsBlocksL] at h
    split at h
    · rw [result_pure] at h
      cases h
      rfl
    · rw [result_bind] at h
      obtain ⟨_, -, h⟩ := Option.bind_eq_some_iff.1 h
      rw [result_bind] at h
      obtain ⟨⟨rest, fs₁⟩, hrest, h⟩ := Option.bind_eq_some_iff.1 h
      cases h
      have hread : fs' = { fs.readBlock (inode.direct i) with blockBuf := fs'.blockBuf } := ih hrest
      exact hread

lemma catBlocks_readOnly (fs : Fs) (inode : Inode) (i n : ℕ) :
    (fs.catBlocks inode i n).2 = { fs with blockBuf := (fs.catBlocks inode i n).2.blockBuf } := by
  induction n generalizing fs i with
  | zero => rfl
  | succ n ih =>
    rw [catBlocks]
    dsimp only
    split
    · rfl
    · have hread := ih (fs.readBlock (inode.direct i)) (i + 1)
      exact hread

section Step

variable {s s' : History} {t : Tree} {path : Path}

/-- A call that changes a descriptor, to one that holds the number of an inode. -/
lemma Formatted.setFdesc {fs' : Fs} {i : ℕ} {d : Fdesc} (h : Formatted s t)
    (hst : fs'.Stores (t.setFdesc i d)) (hd : i < numFdescs → d.Numbered) :
    Formatted ⟨fs', s.returned⟩ (t.setFdesc i d) := by
  refine ⟨⟨h.tracks.next hst fun _ => id, h.entries, fun k hk => ?_⟩, h.indexed⟩
  show (Function.update t.fdescArray i d k).Numbered
  by_cases hki : k = i
  · subst hki
    rw [Function.update_self]
    exact hd hk
  · rw [Function.update_of_ne hki]
    exact h.fdescs k hk

lemma Formatted.same {fs' : Fs} (h : Formatted s t) (hst : fs'.Stores t) :
    Formatted ⟨fs', s.returned⟩ t :=
  ⟨⟨h.tracks.next hst fun _ => id, h.entries, h.fdescs⟩, h.indexed⟩

/-- Another process comes to run. -/
lemma Formatted.setCwd (h : Formatted s t) (n : ℕ) :
    Formatted { s with fs := { s.fs with cwdInum := n } } { t with cwd := n } := by
  obtain ⟨v, hs, hr⟩ := h.tracks.stores
  have hst : ({ s.fs with cwdInum := n } : Fs).Stores { t with cwd := n } :=
    ⟨_, hs.setCwdInum n, hr.setCwd n⟩
  exact ⟨⟨h.tracks.next hst fun _ => id, h.entries, h.fdescs⟩, h.indexed⟩

/-- A call that changes at most the offset of a descriptor. -/
lemma Formatted.setOffset {call : Syscall} {fs' : Fs} {fd : ℤ} {d : Fdesc} (h : Formatted s t)
    (hfd : s.fs.fdesc fd = some d)
    (hst : fs'.Stores t ∨ ∃ offset, fs'.Stores (t.setFdesc fd.toNat { d with offset := offset })) :
    ∃ t', Formatted ⟨fs', s.returned⟩ t' ∧ s.fs.Moves t (.call call) t' := by
  rcases hst with hst | ⟨offset, hst⟩
  · exact ⟨t, h.same hst, .same _⟩
  · have hd := h.fdesc hfd
    obtain ⟨-, -, harray⟩ := fdesc_eq h.tracks.stores hfd
    exact ⟨_, h.setFdesc hst fun _ => ⟨hd.nonneg, hd.le, hd.closed⟩,
      .fdesc (.inr (.inl (by rw [harray])))⟩

/-- The descriptor of a file in use, on the card. -/
lemma Numbered.openFile {d : Fdesc} {x : Inode} (h : Numbered s t) (hnum : 0 ≤ d.inum)
    (hall : s.Allocated d.inum.toNat) (hx : s.fs.readInode d.inum = some x)
    (htype : x.type = typeFile) :
    ((d.inum.toNat : ℕ) : ℤ) = d.inum ∧ ∃ ref, t.node d.inum.toNat = some (.file ref) := by
  have hcast : ((d.inum.toNat : ℕ) : ℤ) = d.inum := Int.toNat_of_nonneg hnum
  rw [← hcast] at hx
  exact ⟨hcast, h.tracks.file hall hx htype⟩

/-- A write within the direct blocks of a file in use. -/
lemma Formatted.doFwrite {fs' : Fs} {fd length r : ℤ} {d : Fdesc} {buff : Bytes} (h : Formatted s t)
    (hfd : s.fs.fdesc fd = some d) (hC : d.write = true → WritesDirect s d length)
    (hwrite : s.fs.doFwrite fd buff length = some (r, fs')) :
    fs'.Stores t ∨ ∃ offset, fs'.Stores (t.setFdesc fd.toNat { d with offset := offset }) := by
  by_cases hd : d.write = true
  · obtain ⟨x, hall, hx, htype, hlen⟩ := hC hd
    obtain ⟨hcast, ref, hnode⟩ := h.openFile (h.fdesc hfd).nonneg hall hx htype
    obtain ⟨r', fs'', hcall, hst⟩ :=
      h.tracks.stores.doFwrite h.indexed hfd hd hcast.symm hnode hlen buff
    obtain ⟨-, rfl⟩ := Prod.mk.inj (Option.some.inj (hcall.symm.trans hwrite))
    exact .inr ⟨_, hst⟩
  · have hdenied := (@doFwriteA_denied _ _ _ length (fun _ => True) hfd hd buff).result
    rw [result_doFwriteA] at hdenied
    obtain ⟨-, rfl⟩ := Prod.mk.inj (Option.some.inj (hdenied.symm.trans hwrite))
    exact .inl h.tracks.stores

/-- A directory call. -/
lemma Formatted.edits {call : Syscall} (h : Formatted s t) (hC : WorksInUse s call)
    (hstep : s.step call = some s') : ∃ t', Formatted s' t' ∧ s.fs.Moves t (.call call) t' := by
  obtain ⟨t', htracks, hedits⟩ := h.tracks.step hC hstep
  refine ⟨t', ⟨⟨htracks, h.entries.edits hedits fun k hk => (h.tracks.stores.handed hk).2.1, ?_⟩,
    hedits.indexed.trans h.indexed⟩, .edits hedits⟩
  rw [hedits.fdescArray]
  exact h.fdescs

/-- A call that returns no number. -/
lemma History.of_step_old {call : Syscall} (hret : s.fs.returnedBy call = [])
    (hstep : s.step call = some s') :
    ∃ fs', s.fs.syscall call = some fs' ∧ s' = ⟨fs', s.returned⟩ := by
  obtain ⟨fs', hcall, h⟩ := Option.bind_eq_some_iff.1 hstep
  rw [hret] at h
  cases h
  exact ⟨fs', hcall, rfl⟩

lemma Formatted.fopen {mode : ℤ} (h : Formatted s t) (hp : PathInUse s path)
    (hstep : s.step (.fopen path mode) = some s') :
    ∃ t', Formatted s' t' ∧ s.fs.Moves t (.call (.fopen path mode)) t' := by
  obtain ⟨fs', hcall, rfl⟩ := History.of_step_old rfl hstep
  obtain ⟨⟨r, _⟩, hopen, rfl⟩ := Option.map_eq_some_iff.1 hcall
  obtain ⟨⟨_, _⟩, hparse, -⟩ := Option.bind_eq_some_iff.1 hopen
  obtain ⟨v, m, -, r, hnode⟩ := h.tracks.resolved hp.2.2 hparse
  rcases r.doFopen hopen with hst | ⟨hm, i, hi, hst⟩
  · exact ⟨t, h.same hst, .same _⟩
  obtain ⟨nd, hnode⟩ := hnode.resolve_left hm
  obtain ⟨⟨h1, h2, -⟩, -⟩ := r.node hnode
  have hinum : (openAs (t.fdescArray i) m mode).inum = m := by
    rw [openAs]
    split_ifs <;> rfl
  refine ⟨_, h.setFdesc hst fun _ => ⟨?_, ?_, fun h0 => ?_⟩, .fdesc (.inr (.inr ?_))⟩
  · omega
  · omega
  · omega
  · rw [hinum, Int.toNat_natCast, hnode]
    exact Option.some_ne_none _

/-- A card that has been formatted. -/
lemma numbered_image {fs : Fs} {fd : ℕ → Fdesc} (h : fs.Stores (imageTree fd))
    (hfd : ∀ i < numFdescs, (fd i).Numbered) : Numbered ⟨fs, [1, 2]⟩ (imageTree fd) := by
  refine ⟨(exact_image _ h).tracks, fun d e he _ => ?_, hfd⟩
  rw [imageTree_entries] at he
  split at he
  · simp only [freshEntries, List.cons_append, List.nil_append, List.mem_cons, List.not_mem_nil,
      or_false] at he
    rcases he with rfl | rfl | rfl <;> exact by decide
  · cases he

/-- An event keeps the numbers. -/
lemma Formatted.step {e : Event} (h : Formatted s t) (hC : Resolvable s e)
    (hstep : s.next e = some s') : ∃ t', Formatted s' t' ∧ s.fs.Moves t e t' := by
  cases e with
  | ls path option =>
    obtain ⟨⟨r, lines, fs'⟩, hls, rfl⟩ := Option.map_eq_some_iff.1 hstep
    rw [doLsL, result_bind] at hls
    obtain ⟨⟨n, fs₁⟩, hparse, hls⟩ := Option.bind_eq_some_iff.1 hls
    rw [result_parsePathL] at hparse
    have hst₁ := h.tracks.stores.of_blockBuf (parsePathLoop_readOnly hparse)
    rw [result_bind] at hls
    obtain ⟨x, -, hls⟩ := Option.bind_eq_some_iff.1 hls
    split at hls
    · cases hls
      exact ⟨t, h.same hst₁, .same _⟩
    · rw [result_bind] at hls
      obtain ⟨⟨lines', fs₂⟩, hblocks, hls⟩ := Option.bind_eq_some_iff.1 hls
      cases hls
      exact ⟨t, h.same (hst₁.of_blockBuf (lsBlocksL_readOnly hblocks)), .same _⟩
  | cat path =>
    obtain ⟨⟨r, text, fs'⟩, hcat, rfl⟩ := Option.map_eq_some_iff.1 hstep
    rw [doCatL, result_bind] at hcat
    obtain ⟨⟨n, fs₁⟩, hparse, hcat⟩ := Option.bind_eq_some_iff.1 hcat
    rw [result_parsePathL] at hparse
    have hst₁ := h.tracks.stores.of_blockBuf (parsePathLoop_readOnly hparse)
    rw [result_bind] at hcat
    obtain ⟨x, -, hcat⟩ := Option.bind_eq_some_iff.1 hcat
    split at hcat
    · cases hcat
      exact ⟨t, h.same hst₁, .same _⟩
    · have hread := catBlocks_readOnly fs₁ x 0 ndirectBlocks
      rcases fs₁.catBlocks x 0 ndirectBlocks with ⟨text', fs₂⟩
      cases hcat
      exact ⟨t, h.same (hst₁.of_blockBuf hread), .same _⟩
  | mkfs =>
    obtain ⟨fs', hmkfs, hst⟩ := doMkfs_stores s.fs
    rw [History.next, hmkfs, Option.map_some, Option.some.injEq] at hstep
    subst hstep
    exact ⟨_, ⟨numbered_image hst fun i hi => h.fdescArray hi, rfl⟩, .mkfs⟩
  | resume cwdInum =>
    cases hstep
    exact ⟨_, h.setCwd cwdInum, .resume cwdInum⟩
  | call call =>
    cases call with
    | mkdir path =>
      have hworks : WorksInUse s (.mkdir path) := hC
      exact h.edits hworks hstep
    | touch path =>
      have hworks : WorksInUse s (.touch path) := hC
      exact h.edits hworks hstep
    | rmdir path =>
      have hworks : WorksInUse s (.rmdir path) := ⟨hC.1.1, hC.1.2.2⟩
      exact h.edits hworks hstep
    | rm path =>
      have hworks : WorksInUse s (.rm path) := ⟨hC.1, hC.2.2⟩
      exact h.edits hworks hstep
    | cd path =>
      have hworks : WorksInUse s (.cd path) := ⟨hC.1, hC.2.2⟩
      exact h.edits hworks hstep
    | ln srcPath dstPath =>
      have hworks : WorksInUse s (.ln srcPath dstPath) :=
        hC.imp_right fun ⟨hp, _, hlen⟩ => ⟨hp.1, hp.2.2, hlen⟩
      exact h.edits hworks hstep
    | fopen path mode => exact h.fopen hC hstep
    | fread fd buff length =>
      obtain ⟨fs', hcall, rfl⟩ := History.of_step_old rfl hstep
      obtain ⟨⟨r, buff', _⟩, hread, rfl⟩ := Option.map_eq_some_iff.1 hcall
      obtain ⟨d, hfd, -⟩ := Option.bind_eq_some_iff.1 hread
      exact h.setOffset hfd (h.tracks.stores.doFread hfd hread)
    | fwrite fd buff length =>
      obtain ⟨fs', hcall, rfl⟩ := History.of_step_old rfl hstep
      obtain ⟨⟨r, _⟩, hwrite, rfl⟩ := Option.map_eq_some_iff.1 hcall
      obtain ⟨d, hfd, -⟩ := Option.bind_eq_some_iff.1 hwrite
      exact h.setOffset hfd (h.doFwrite hfd (hC d hfd) hwrite)
    | fclose fd =>
      obtain ⟨fs', hcall, rfl⟩ := History.of_step_old rfl hstep
      obtain ⟨⟨r, _⟩, hclose, rfl⟩ := Option.map_eq_some_iff.1 hcall
      exact ⟨_, h.setFdesc (h.tracks.stores.doFclose hclose) fun _ => Fdesc.numbered_zero,
        .fdesc (.inl rfl)⟩
    | lseek fd offset whence =>
      obtain ⟨fs', hcall, rfl⟩ := History.of_step_old rfl hstep
      obtain ⟨⟨r, _⟩, hseek, rfl⟩ := Option.map_eq_some_iff.1 hcall
      obtain ⟨d, hfd, -⟩ := Option.bind_eq_some_iff.1 hseek
      exact h.setOffset hfd (.inr (h.tracks.stores.doLseek hfd hseek))

end Step

/-! ## Runs -/

/-- Formatting with closed descriptors. -/
lemma formatted_mkfs (fs₀ : Fs) (hclosed : ∀ i < numFdescs, fs₀.fdescArray i = Fdesc.zero) :
    ∃ fs, fs₀.doMkfs = some (0, fs) ∧ Formatted ⟨fs, [1, 2]⟩ (imageTree fs₀.fdescArray) := by
  obtain ⟨fs, hmkfs, hstores⟩ := doMkfs_stores fs₀
  refine ⟨fs, hmkfs, numbered_image hstores fun i hi => ?_, rfl⟩
  rw [hclosed i hi]
  exact Fdesc.numbered_zero

end Fs
end UcasKernel
