/-
What `do_touch`, `do_mkdir` and `do_ln` leave.

They refuse without a change of the card, or enter one name in the working
directory.  The name is found again when `parse_path` can hold it and it is not
empty; everything that was found before is found as before, and the bytes that
change are those of the entry, of the inode, of the maps and of the new directory.
-/
import UcasKernel.Fs.Frame
import UcasKernel.Fs.InodeRuns
import UcasKernel.Fs.Parents

namespace UcasKernel
namespace Fs

/-! ## The calls -/

inductive CreateCall
  | touch (path : Path)
  | mkdir (path : Path)
  | ln (srcPath dstPath : Path)

/-- The name that is entered. -/
def CreateCall.name : CreateCall → Path
  | .touch path | .mkdir path | .ln _ path => path

def create (fs : Fs) : CreateCall → Option (ℤ × Fs)
  | .touch path => fs.doTouch path.1
  | .mkdir path => fs.doMkdir path.1
  | .ln srcPath dstPath => fs.doLn srcPath.1 dstPath.1

/-- The path leads from the working directory to a file in use. -/
def ExistingFile (s : History) (path : Path) (m : ℕ) : Prop :=
  s.Allocated m ∧ (∃ inode, s.fs.readInode m = some inode ∧ inode.type = typeFile) ∧
    ∃ fs', s.fs.parsePath path.1 s.fs.cwdInum = some ((m : ℤ), fs')

/-- The inode the name is for: a new one, or the source of the link. -/
def Target (s : History) : CreateCall → ℕ → Prop
  | .touch _, n | .mkdir _, n => s.fs.allocInode.1 = n ∧ ¬ s.Allocated n
  | .ln srcPath _, n => ExistingFile s srcPath n

/-- The block of a new directory. -/
def ownBlock (fs : Fs) (n : ℕ) : Set ℕ :=
  {x | ∃ inode, fs.readInode n = some inode ∧ x ∈ blockBytes (inode.direct 0)}

/-- What a call for inode `n` may change apart from the entry: the slot of the inode,
and for a new one the maps, and for a directory its block. -/
def CreateCall.affected (call : CreateCall) (n : ℕ) (fs' : Fs) : Set ℕ :=
  match call with
  | .touch _ => imapBytes ∪ slotBytes n
  | .mkdir _ => imapBytes ∪ bmapBytes ∪ slotBytes n ∪ fs'.ownBlock n
  | .ln _ _ => slotBytes n

/-- The card after a call that returned 0. -/
structure EntersName (s : History) (call : CreateCall) (n : ℕ) (fs' : Fs) : Prop where
  cwdInum : fs'.cwdInum = s.fs.cwdInum
  found : ∃ fs'', fs'.parsePath call.name.1 fs'.cwdInum = some ((n : ℤ), fs'')
  others : ∀ (d m : ℕ) (path : Path), s.Allocated d → s.fs.IsDirectory d → 47 ∉ path.1 → m ≠ 0 →
    s.fs.LeadsTo path.1 d m → fs'.LeadsTo path.1 d m
  frame : ∃ (cwd : Inode) (j : ℕ), s.fs.readInode s.fs.cwdInum = some cwd ∧
    dentryValid (s.fs.readBlock (cwd.direct 0)).blockBuf j = some false ∧
    dentryInum (s.fs.readBlock (cwd.direct 0)).blockBuf j = some 0 ∧
    s.fs.ChangesIn (entryBytes (cwd.direct 0) j ∪ call.affected n fs') fs'

/-- The call refuses and leaves the card, or it creates its name. -/
def CreationLaw (s : History) (call : CreateCall) : Prop :=
  ∃ (r : ℤ) (fs' : Fs), s.fs.create call = some (r, fs') ∧
    (r ≠ 0 ∧ fs'.disk = s.fs.disk ∨ r = 0 ∧ ∃ n, Target s call n ∧ EntersName s call n fs')

/-- The working directory has an unused entry. -/
def HasFreeEntry (fs : Fs) : Prop := ∃ j < maxEntries, dentryInum fs.cwdBlock j = some 0

/-- A call that is refused, or that enters a name of 1 to 14 characters in a directory
with an unused entry: with a free inode number, or for an existing file under a name
that is free or leads to the file already. -/
def Creatable (s : History) : CreateCall → Prop
  | .touch path | .mkdir path => CwdInUse s ∧ (dentryNameLen < path.1.length ∨
    s.fs.NameTaken path.1 ∨ Name path.1 ∧ s.fs.HasFreeEntry ∧ s.fs.MapOpen imapSector 1)
  | .ln srcPath dstPath => srcPath.1 = dstPath.1 ∨ CwdInUse s ∧ Name dstPath.1 ∧
    s.fs.HasFreeEntry ∧ ∃ m, ExistingFile s srcPath m ∧ (s.fs.NameTaken dstPath.1 →
      ∃ fs', s.fs.parsePath dstPath.1 s.fs.cwdInum = some ((m : ℤ), fs'))

/-! ## What a name leads to -/

/-- The directories of one tree are those of another with further entries behind
theirs. -/
def Tree.Extends (t t' : Tree) : Prop :=
  ∀ d es, t.node d = some (.dir es) → ∃ es', t'.node d = some (.dir es') ∧ es <+: es'

section LeadsTo

variable {fs fs' : Fs} {t t' : Tree} {d m : ℕ} {es es' : List Entry} {path : List UInt8}

/-- An entry is found under its name. -/
lemma Stores.leadsTo (h : fs.Stores t) (hnode : t.node d = some (.dir es)) (hpath : 0 ∉ path)
    (hname : Name path) {j : ℕ} (hj : j < es.length) (hfirst : firstNamed es path = some j)
    (hlt : es[j].inum < 2 ^ 31) : fs.LeadsTo path d es[j].inum := by
  obtain ⟨h1, h14, hslash⟩ := hname
  have hne : path ≠ [] := List.ne_nil_of_length_pos h1
  obtain ⟨v, hs, hr⟩ := h
  obtain ⟨x, b, o⟩ := hs.opened hr hnode
  exact ⟨_, ((o.parsePath hpath hne (by omega)).1 j hj hfirst hslash hlt).trans
    (if_pos (by omega))⟩

/-- What is found is an entry. -/
lemma Stores.entry_of_leadsTo (h : fs.Stores t) (hnode : t.node d = some (.dir es))
    (hle : ∀ e ∈ es, e.valid = true → e.inum ≤ ninodes) (hpath : 0 ∉ path) (hslash : 47 ∉ path)
    (hne : path ≠ []) (hm : m ≠ 0) (hleads : fs.LeadsTo path d m) :
    ∃ (j : ℕ) (hj : j < es.length), firstNamed es path = some j ∧ es[j].inum = m ∧
      m < 2 ^ 31 ∧ Name path := by
  obtain ⟨v, hs, hr⟩ := h
  obtain ⟨x, b, o⟩ := hs.opened hr hnode
  obtain ⟨fs', hparse⟩ := hleads
  obtain ⟨j, hfirst⟩ := o.named_of_parsePath hpath hne hparse (by exact_mod_cast hm)
  obtain ⟨hj, hvalid, -⟩ := firstNamed_valid hfirst
  have hlen : path.length < 16 := by
    by_contra hlong
    rw [parsePath_long (not_lt.1 hlong)] at hparse
    cases hparse
  have hbound : es[j].inum < 2 ^ 31 := by
    have := hle _ (List.getElem_mem hj) hvalid
    simp only [ninodes] at this
    omega
  rw [(o.parsePath hpath hne hlen).1 j hj hfirst hslash hbound] at hparse
  split at hparse
  · simp only [Option.some.injEq, Prod.mk.injEq, Nat.cast_inj] at hparse
    have hpos := List.length_pos_iff.2 hne
    exact ⟨j, hj, hfirst, hparse.1, hparse.1 ▸ hbound, by omega, by omega, hslash⟩
  · cases hparse

lemma firstNamed_mono (hpre : es <+: es') {j : ℕ} (hfirst : firstNamed es path = some j) :
    firstNamed es' path = some j := by
  obtain ⟨tail, rfl⟩ := hpre
  rw [firstNamed, List.findIdx?_append, ← firstNamed, hfirst]
  rfl

/-- The name of a new entry behind entries with other names. -/
lemma firstNamed_append (hnone : firstNamed es path = none) (n : ℕ) :
    firstNamed (es ++ [⟨true, n, path⟩]) path = some es.length := by
  rw [firstNamed, List.findIdx?_append, ← firstNamed, hnone]
  simp [Entry.named, List.findIdx?_cons]

/-- A new entry is found under its name. -/
lemma Stores.leadsTo_new {n : ℕ} (h : fs.Stores t)
    (hnode : t.node d = some (.dir (es ++ [⟨true, n, path⟩]))) (hpath : 0 ∉ path) (hname : Name path)
    (hnone : firstNamed es path = none) (hn : Handed ninodes n) : fs.LeadsTo path d n := by
  have hlt : n < 2 ^ 31 := by
    have := hn.2.1
    simp only [ninodes] at this
    omega
  have hlast : es.length < (es ++ [(⟨true, n, path⟩ : Entry)]).length := by simp
  have hfound := h.leadsTo hnode hpath hname hlast (firstNamed_append hnone n) (by simpa using hlt)
  simpa using hfound

/-- Further entries hide no entry. -/
lemma Stores.leadsTo_extends (h : fs.Stores t) (h' : fs'.Stores t') (hext : t.Extends t')
    (hnode : t.node d = some (.dir es)) (hle : ∀ e ∈ es, e.valid = true → e.inum ≤ ninodes)
    (hpath : 0 ∉ path) (hslash : 47 ∉ path) (hm : m ≠ 0) (hleads : fs.LeadsTo path d m) :
    fs'.LeadsTo path d m := by
  by_cases hnil : path = []
  · subst hnil
    obtain ⟨fs₁, hparse⟩ := hleads
    rw [parsePath_nil, Option.some.injEq, Prod.mk.injEq] at hparse
    exact ⟨fs', by rw [parsePath_nil, hparse.1]⟩
  obtain ⟨j, hj, hfirst, hinum, hlt, hname⟩ :=
    h.entry_of_leadsTo hnode hle hpath hslash hnil hm hleads
  obtain ⟨es', hnode', hpre⟩ := hext d es hnode
  have hj' : j < es'.length := hj.trans_le hpre.length_le
  have heq : es'[j] = es[j] := (hpre.getElem hj).symm
  have hfound := h'.leadsTo hnode' hpath hname hj' (firstNamed_mono hpre hfirst)
    (by rw [heq, hinum]; exact hlt)
  rwa [heq, hinum] at hfound

end LeadsTo

/-- The working directory after a new entry for a new inode. -/
lemma Tree.node_create {t : Tree} {n : ℕ} {nd : Node} {es : List Entry} {name : List UInt8}
    (hc : t.node t.cwd = some (.dir es)) (hn : t.node n = none) :
    ((t.set n (some nd)).enter name n).node t.cwd = some (.dir (es ++ [⟨true, n, name⟩])) := by
  have hcn : t.cwd ≠ n := by
    rintro heq
    rw [heq, hn] at hc
    cases hc
  rw [Tree.enter, Tree.cwd_set, Tree.entries_set_of_ne _ hcn, Tree.entries_of_node hc]
  exact Tree.node_set_self _ _ _

/-- The same after a further entry for a file. -/
lemma Tree.node_link {t : Tree} {m ref ref' : ℕ} {es : List Entry} {name : List UInt8}
    (hc : t.node t.cwd = some (.dir es)) (hm : t.node m = some (.file ref)) :
    ((t.enter name m).set m (some (.file ref'))).node t.cwd =
      some (.dir (es ++ [⟨true, m, name⟩])) := by
  have hmc : t.cwd ≠ m := by
    rintro heq
    rw [heq, hm] at hc
    cases hc
  rw [Tree.node_set_of_ne _ _ hmc, Tree.enter, Tree.entries_of_node hc]
  exact Tree.node_set_self _ _ _

/-- A new inode and its entry. -/
lemma Tree.extends_create {t : Tree} {n : ℕ} {nd : Node} {es : List Entry} {name : List UInt8}
    (hc : t.node t.cwd = some (.dir es)) (hn : t.node n = none) :
    t.Extends ((t.set n (some nd)).enter name n) := by
  intro d es' hd
  by_cases hdc : d = t.cwd
  · subst hdc
    obtain rfl := Node.dir.inj (Option.some.inj (hc.symm.trans hd))
    exact ⟨_, Tree.node_create hc hn, List.prefix_append _ _⟩
  · have hdn : d ≠ n := by
      rintro rfl
      rw [hn] at hd
      cases hd
    refine ⟨es', ?_, List.prefix_rfl⟩
    rw [Tree.enter, Tree.cwd_set, Tree.node_set_of_ne _ _ hdc, Tree.node_set_of_ne _ _ hdn, hd]

/-- A further entry for a file. -/
lemma Tree.extends_link {t : Tree} {m ref ref' : ℕ} {es : List Entry} {name : List UInt8}
    (hc : t.node t.cwd = some (.dir es)) (hm : t.node m = some (.file ref)) :
    t.Extends ((t.enter name m).set m (some (.file ref'))) := by
  intro d es' hd
  by_cases hdc : d = t.cwd
  · subst hdc
    obtain rfl := Node.dir.inj (Option.some.inj (hc.symm.trans hd))
    exact ⟨_, Tree.node_link hc hm, List.prefix_append _ _⟩
  · have hdm : d ≠ m := by
      rintro rfl
      rw [hm] at hd
      cases hd
    refine ⟨es', ?_, List.prefix_rfl⟩
    rw [Tree.node_set_of_ne _ _ hdm, Tree.enter, Tree.node_set_of_ne _ _ hdc, hd]

/-! ## What the calls change -/

section Refused

variable {fs fs' : Fs} {path : List UInt8}

/-- A call that refuses has only read. -/
lemma disk_of_doTouch_refused (h : fs.doTouch path = some (1, fs')) : fs'.disk = fs.disk := by
  simp only [Fs.doTouch, Option.bind_eq_bind] at h
  obtain ⟨x, -, h⟩ := Option.bind_eq_some_iff.1 h
  split at h
  · cases h
    rfl
  obtain ⟨⟨scan, b, fs₁⟩, hscan, h⟩ := Option.bind_eq_some_iff.1 h
  cases scan with
  | hit j =>
    cases h
    rw [scanBlocks_readOnly hscan]
  | stop j | past =>
    obtain ⟨fs₂, -, h⟩ := Option.bind_eq_some_iff.1 h
    obtain ⟨fs₃, -, h⟩ := Option.bind_eq_some_iff.1 h
    cases h

lemma disk_of_doMkdir_refused (h : fs.doMkdir path = some (1, fs')) : fs'.disk = fs.disk := by
  simp only [Fs.doMkdir, Option.bind_eq_bind] at h
  obtain ⟨x, -, h⟩ := Option.bind_eq_some_iff.1 h
  split at h
  · cases h
    rfl
  obtain ⟨⟨scan, b, fs₁⟩, hscan, h⟩ := Option.bind_eq_some_iff.1 h
  cases scan with
  | hit j =>
    cases h
    rw [scanBlocks_readOnly hscan]
  | stop j | past =>
    obtain ⟨⟨n, fs₂⟩, -, h⟩ := Option.bind_eq_some_iff.1 h
    obtain ⟨fs₃, -, h⟩ := Option.bind_eq_some_iff.1 h
    cases h

end Refused

section Changes

variable {fs fs' : Fs} {v : Volume} {t : Tree} {es : List Entry} {path : List UInt8} {x : Inode}
  {b n : ℕ} (hsb : fs.superblock = mkfsSuperblock) (o : fs.Opened v t.cwd es x b)
  (hx : fs.readInode fs.cwdInum = some x)
include hsb o hx

/-- `do_touch` takes an inode, writes it and enters the name. -/
lemma Opened.touch_steps (hpath : 0 ∉ path) (hlen : path.length ≤ dentryNameLen)
    (hnone : firstNamed es path = none) (hlt : es.length < maxEntries) (hn : fs.allocInode.1 = n)
    (htouch : fs.doTouch path = some (0, fs')) :
    ∃ fs₁ fs₂, (fs.readBlock b).Writes (nbytesPerSector * imapSector)
        (nbytesPerSector * inodeSector) fs₁ ∧
      fs₁.getTicks.2.writeInode n (newFile fs₁.getTicks.1) = some fs₂ ∧
      (fs₂.readBlock b).appendDentry b n path = some fs' := by
  rw [Fs.doTouch, hx] at htouch
  simp only [Option.bind_eq_bind, Option.bind_some] at htouch
  rw [if_neg (by omega), o.scan_unnamed hpath hnone, if_pos hlt, Option.bind_some] at htouch
  have halloc := @writes_allocInode (fs.readBlock b) hsb
  rw [← allocInode_readBlock _ b] at hn
  generalize (fs.readBlock b).allocInode = p at halloc hn htouch
  obtain ⟨m, fs₁⟩ := p
  obtain rfl : m = n := hn
  obtain ⟨fs₂, hwrite, htouch⟩ := Option.bind_eq_some_iff.1 htouch
  obtain ⟨fs₃, happend, htouch⟩ := Option.bind_eq_some_iff.1 htouch
  cases htouch
  exact ⟨fs₁, fs₂, halloc, hwrite, happend⟩

/-- `do_touch`: the inode map, the inode, and the entry. -/
lemma Opened.touch_changes (hpath : 0 ∉ path) (hlen : path.length ≤ dentryNameLen)
    (hnone : firstNamed es path = none) (hlt : es.length < maxEntries) (hn : fs.allocInode.1 = n)
    (hhanded : Handed ninodes n) (htouch : fs.doTouch path = some (0, fs')) :
    fs.ChangesIn (entryBytes b es.length ∪ (imapBytes ∪ slotBytes n)) fs' := by
  obtain ⟨h1, h2, -⟩ := hhanded
  obtain ⟨fs₁, fs₂, halloc, hwrite, happend⟩ := o.touch_steps hsb hx hpath hlen hnone hlt hn htouch
  have hsb₁ : fs₁.getTicks.2.superblock = mkfsSuperblock := halloc.superblock.trans hsb
  have hslot : fs₁.ChangesIn (slotBytes n) fs₂ :=
    @changesIn_writeInode fs₁.getTicks.2 fs₂ n _ hsb₁ ⟨h1, h2⟩ hwrite
  have hsb₂ := superblock_writeInode hsb₁ ⟨h1, h2⟩ hwrite
  refine o.append_changes hsb hsb₂ (halloc.changesIn.trans hslot) ?_ (hlen.trans (by decide)) happend
  rw [Set.disjoint_union_left]
  exact ⟨(disjoint_maps_block o.data).mono_left Set.subset_union_left,
    disjoint_slot_block h2 o.data⟩

/-- The inode of a new file has no blocks. -/
lemma Opened.touch_inode (hpath : 0 ∉ path) (hlen : path.length ≤ dentryNameLen)
    (hnone : firstNamed es path = none) (hlt : es.length < maxEntries) (hn : fs.allocInode.1 = n)
    (hhanded : Handed ninodes n) (htouch : fs.doTouch path = some (0, fs')) :
    ∃ y, fs'.readInode n = some y ∧ y.type = typeFile ∧ y.size = 0 ∧ y.indirect = 0 ∧
      ∀ i < ndirectBlocks, y.direct i = 0 := by
  obtain ⟨h1, h2, -⟩ := hhanded
  obtain ⟨fs₁, fs₂, halloc, hwrite, happend⟩ := o.touch_steps hsb hx hpath hlen hnone hlt hn htouch
  have hsb₁ : fs₁.getTicks.2.superblock = mkfsSuperblock := halloc.superblock.trans hsb
  have hsb₂ := superblock_writeInode hsb₁ ⟨h1, h2⟩ hwrite
  have hsb₃ : (fs₂.readBlock b).superblock = mkfsSuperblock := hsb₂
  have hw := appendDentry_writes hsb₃ o.data.2 happend
  obtain ⟨buf, a, hput⟩ := agree_inode_put hsb₁ ⟨h1, h2⟩ hwrite
  have hagree := (hw.changesIn.inode h2 (disjoint_slot_block h2 o.data).symm).trans hput
  refine ⟨_, readInode_inode (hw.superblock.trans hsb₂) ⟨h1, h2⟩, ?_, ?_, ?_, fun i hi => ?_⟩
  · rw [hagree.type, Inode.get_put_type]
    rfl
  · rw [hagree.size, Inode.get_put_size]
    rfl
  · rw [hagree.indirect, Inode.get_put_indirect]
    rfl
  · rw [hagree.direct i hi, Inode.get_put_direct _ _ _ hi]
    rfl

/-- `do_ln`: the entry, and the inode of the file. -/
lemma Opened.ln_changes {fs₁ : Fs} {dst : List UInt8}
    (hparse : fs.parsePath path fs.cwdInum = some ((n : ℤ), fs₁)) (hne : path ≠ dst)
    (hdst : dst.length ≤ 27) (hlt : es.length < maxEntries) (hhanded : Handed ninodes n)
    (hln : fs.doLn path dst = some (0, fs')) :
    fs.ChangesIn (entryBytes b es.length ∪ slotBytes n) fs' := by
  obtain ⟨h1, h2, -⟩ := hhanded
  rw [Fs.doLn, if_neg hne, hparse] at hln
  obtain ⟨buf, rfl⟩ : ∃ buf, fs₁ = { fs with blockBuf := buf } := ⟨_, parsePathLoop_readOnly hparse⟩
  have o₁ := o.setBlockBuf hsb buf
  have hx₁ : ({ fs with blockBuf := buf } : Fs).readInode fs.cwdInum = some x := hx
  simp only [Option.bind_eq_bind, Option.bind_some] at hln
  obtain ⟨y, -, hln⟩ := Option.bind_eq_some_iff.1 hln
  rw [hx₁, Option.bind_some, o₁.scan_unused, if_pos hlt, Option.bind_some] at hln
  obtain ⟨fs₂, happend, hln⟩ := Option.bind_eq_some_iff.1 hln
  obtain ⟨fs₃, hwrite, hln⟩ := Option.bind_eq_some_iff.1 hln
  cases hln
  have hsb₁ : ({ fs with blockBuf := buf } : Fs).superblock = mkfsSuperblock := hsb
  have hsb₂ : (({ fs with blockBuf := buf } : Fs).readBlock b).superblock = mkfsSuperblock := hsb
  have hw := appendDentry_writes hsb₂ o.data.2 happend
  have hentry := o₁.append_changes hsb₁ hsb₁ (ChangesIn.of_disk rfl) (Set.empty_disjoint _) hdst happend
  rw [Set.union_empty] at hentry
  exact hentry.trans (changesIn_writeInode (hw.superblock.trans hsb₂) ⟨h1, h2⟩ hwrite)

end Changes

/-- `init_dir_inode`: the maps, the inode, and the block of the new directory, which is
none that is in use. -/
lemma Shows.initDirInode_changes {fs fs' : Fs} {v : Volume} {n : ℕ} {p m : ℤ} (hs : fs.Shows v)
    (hopen : fs.MapOpen imapSector 1) (hbopen : ∃ b, Handed nblocks b ∧ b ∉ v.bmap)
    (hmeta : ∀ b ≤ 70, Handed nblocks b → b ∈ v.bmap) (hn : fs.allocInode.1 = n)
    (hinit : fs.initDirInode p = some (m, fs')) :
    m = n ∧ fs'.superblock = mkfsSuperblock ∧ ∃ c, DataBlock c ∧ c ∉ v.bmap ∧
      (fs'.inode n).direct 0 = c ∧
      fs.ChangesIn (imapBytes ∪ bmapBytes ∪ slotBytes n ∪ blockBytes c) fs' := by
  obtain ⟨n', fs₁, halloc, ⟨h1, h2, -⟩, -, -, hs₁⟩ := hs.allocInode hopen
  obtain ⟨c, fs₂, hallocB, hhandedB, hnewB, -, hs₂⟩ := hs₁.allocBlock hbopen
  obtain rfl : n' = n := by
    rw [halloc] at hn
    exact Int.ofNat_inj.1 hn
  have hdata : DataBlock c := by
    refine ⟨?_, hhandedB.lt⟩
    by_contra hlt
    exact hnewB (hmeta c (by omega) hhandedB)
  have himap : fs.ChangesIn imapBytes fs₁ := by
    have hw := (writes_allocInode hs.superblock).changesIn
    rwa [halloc] at hw
  have hbmap : fs₁.ChangesIn bmapBytes fs₂ := by
    have hw := (writes_allocBlock hs₁.superblock).changesIn
    rwa [hallocB] at hw
  rw [Fs.initDirInode, halloc] at hinit
  simp only [hallocB] at hinit
  obtain ⟨fs₃, hwrite, hinit⟩ := Option.bind_eq_some_iff.1 hinit
  cases hinit
  -- the inode
  have hsb₂ : fs₂.getTicks.2.superblock = mkfsSuperblock := hs₂.superblock
  have hslot : fs₂.ChangesIn (slotBytes n') fs₃ :=
    @changesIn_writeInode fs₂.getTicks.2 fs₃ n' _ hsb₂ ⟨h1, h2⟩ hwrite
  obtain ⟨fs₃', hwrite', hwrites, -, -, hdirect, -⟩ :=
    writeInode_spec hsb₂ ⟨h1, h2⟩ (newDir fs₂.getTicks.1 c)
  obtain rfl := Option.some.inj (hwrite.symm.trans hwrite')
  have hsb₃ : fs₃.superblock = mkfsSuperblock := hwrites.superblock.trans hsb₂
  -- the block
  have hblock := @writeBlock_writes { fs₃ with blockBuf := freshBlock n' p } c hsb₃ hdata.2
  refine ⟨rfl, hblock.superblock.trans hsb₃, c, hdata, hnewB, ?_,
    ((himap.trans hbmap).trans hslot).trans hblock.changesIn⟩
  have hinode := congrArg (·.direct 0) (hblock.inode h2 (.inr (dataBlock_behind hdata)))
  refine hinode.trans ((hdirect 0 (by decide)).trans ?_)
  rw [newDir_direct, if_pos rfl, Nat.mod_eq_of_lt]
  have := hdata.2
  simp only [nblocks] at this
  omega


/-- `do_mkdir`: the maps, the inode, the block of the new directory, and the entry. -/
lemma Opened.mkdir_changes {fs fs' : Fs} {v : Volume} {t : Tree} {es : List Entry}
    {path : List UInt8} {x : Inode} {b n : ℕ} (hs : fs.Shows v) (hr : Represents v t)
    (o : fs.Opened v t.cwd es x b) (hx : fs.readInode fs.cwdInum = some x)
    (hc : t.node t.cwd = some (.dir es)) (hpath : 0 ∉ path) (hlen : path.length ≤ dentryNameLen)
    (hnone : firstNamed es path = none) (hopen : fs.MapOpen imapSector 1)
    (hlt : es.length < maxEntries) (hn : fs.allocInode.1 = n) (hhanded : Handed ninodes n)
    (hmkdir : fs.doMkdir path = some (0, fs')) :
    fs.ChangesIn
      (entryBytes b es.length ∪ (imapBytes ∪ bmapBytes ∪ slotBytes n ∪ fs'.ownBlock n)) fs' := by
  obtain ⟨h1, h2, -⟩ := hhanded
  rw [Fs.doMkdir, hx] at hmkdir
  simp only [Option.bind_eq_bind, Option.bind_some] at hmkdir
  rw [if_neg (by omega), o.scan_unnamed hpath hnone, if_pos hlt, Option.bind_some] at hmkdir
  obtain ⟨⟨m, fs₁⟩, hinit, hmkdir⟩ := Option.bind_eq_some_iff.1 hmkdir
  obtain ⟨fs₂, happend, hmkdir⟩ := Option.bind_eq_some_iff.1 hmkdir
  cases hmkdir
  rw [← allocInode_readBlock _ b] at hn
  have hbopen := hr.bmapOpen fun m hm => (hs.imap_handed m hm).2.1
  obtain ⟨rfl, hsb₁, c, hdata, hnew, hdirect, hchange⟩ :=
    o.shows.initDirInode_changes hopen hbopen hr.metadata hn hinit
  -- the block of the working directory is in use
  have hcb : c ≠ b := by
    rintro rfl
    exact hnew (o.block ▸ (hr.dirBlock hc).1)
  have hdisjoint : Disjoint (imapBytes ∪ bmapBytes ∪ slotBytes n ∪ blockBytes c) (blockBytes b) := by
    rw [Set.disjoint_union_left, Set.disjoint_union_left]
    exact ⟨⟨disjoint_maps_block o.data, disjoint_slot_block h2 o.data⟩, disjoint_block_block hcb⟩
  have hall := o.append_changes hs.superblock hsb₁ hchange hdisjoint (hlen.trans (by decide)) happend
  have hsb₂ : (fs₁.readBlock b).superblock = mkfsSuperblock := hsb₁
  have hw := appendDentry_writes hsb₂ o.data.2 happend
  have hinode := congrArg (·.direct 0) (hw.inode h2 (.inr (dataBlock_behind o.data)))
  refine hall.mono (Set.union_subset_union_right _ (Set.union_subset_union_right _ fun y hy => ?_))
  refine ⟨fs'.inode n, readInode_inode (hw.superblock.trans hsb₂) ⟨h1, h2⟩, ?_⟩
  rw [hinode.trans hdirect]
  exact hy

/-! ## The law -/

section Law

variable {s : History} {t t' : Tree} {es : List Entry} {fs' : Fs} {call : CreateCall} {n b : ℕ}

/-- A call has entered its name. -/
lemma Numbered.entersName (h : Numbered s t) (hst' : fs'.Stores t') (hcwd : t'.cwd = t.cwd)
    (hext : t.Extends t')
    (hfound : fs'.LeadsTo call.name.1 t.cwd n) {v : Volume} {x : Inode}
    (o : s.fs.Opened v t.cwd es x b) (hx : s.fs.readInode s.fs.cwdInum = some x)
    (hlt : es.length < maxEntries)
    (hframe : s.fs.ChangesIn (entryBytes b es.length ∪ call.affected n fs') fs') :
    EntersName s call n fs' := by
  have hcwdInum : s.fs.cwdInum = t.cwd := by
    obtain ⟨v₀, hs₀, hr₀⟩ := h.tracks.stores
    exact hs₀.cwdInum.trans hr₀.cwd
  have hcwdInum' : fs'.cwdInum = t.cwd := by
    obtain ⟨v₀, hs₀, hr₀⟩ := hst'
    rw [← hcwd]
    exact hs₀.cwdInum.trans hr₀.cwd
  refine ⟨hcwdInum'.trans hcwdInum.symm, ?_, fun d m path hall hdir hslash hm hleads => ?_,
    x, es.length, hx, (o.unused hlt).1, (o.unused hlt).2, ?_⟩
  · rw [hcwdInum']
    exact hfound
  · obtain ⟨y, hy, htype⟩ := hdir
    obtain ⟨es₀, hnode⟩ := h.tracks.dir hall hy htype
    have hle := h.entries d
    rw [Tree.entries_of_node hnode] at hle
    exact h.tracks.stores.leadsTo_extends hst' hext hnode hle path.2 hslash hm hleads
  · rw [o.first]
    exact hframe

/-- A name of at most 14 characters fits into every unused entry. -/
lemma Name.hasRoom {name : List UInt8} (hname : Name name) (hlt : es.length < maxEntries) :
    HasRoom es name := by
  obtain ⟨-, h14, -⟩ := hname
  refine ⟨hlt, ?_⟩
  simp only [sizeofDentry, maxEntries, nbytesPerBlock] at *
  omega

/-- What a call that makes a name needs. -/
lemma Numbered.creatable_new (h : Numbered s t) (hc : t.node t.cwd = some (.dir es)) {path : Path}
    (hC : dentryNameLen < path.1.length ∨ s.fs.NameTaken path.1 ∨
      Name path.1 ∧ s.fs.HasFreeEntry ∧ s.fs.MapOpen imapSector 1) :
    (path.1.length > dentryNameLen ∨ ∃ j, firstNamed es path.1 = some j) ∨
      path.1.length ≤ dentryNameLen ∧ firstNamed es path.1 = none ∧ Name path.1 ∧
        es.length < maxEntries ∧ s.fs.MapOpen imapSector 1 := by
  have hst := h.tracks.stores
  rcases h.tracks.mapOpen hc (hC.imp_right (Or.imp_right fun hroom => hroom.2.2)) with
    href | ⟨hlen, hnone, hopen⟩
  · exact .inl href
  rw [hst.nameTaken_iff hc path.2, hnone] at hC
  rcases hC with hlong | ⟨j, hj⟩ | ⟨hname, hfree, -⟩
  · exact absurd hlong (not_lt.2 hlen)
  · cases hj
  · exact .inr ⟨hlen, hnone, hname, (hst.hasUnused_iff hc le_rfl).1 hfree, hopen⟩

lemma Numbered.touch_law (h : Numbered s t) {path : Path} (hC : Creatable s (.touch path)) :
    CreationLaw s (.touch path) := by
  obtain ⟨hcwd, hC⟩ := hC
  obtain ⟨es, hc⟩ := h.tracks.cwd hcwd
  have hst := h.tracks.stores
  rcases h.creatable_new hc hC with href | ⟨hlen, hnone, hname, hlt, hopen⟩
  · obtain ⟨fs', htouch, -⟩ := hst.doTouch_refused hc path.2 href
    exact ⟨1, fs', htouch, .inl ⟨one_ne_zero, disk_of_doTouch_refused htouch⟩⟩
  obtain ⟨n, fs', htouch, hn, hfresh, hhanded, hst'⟩ :=
    hst.doTouch hc path.2 hlen hnone hopen (hname.hasRoom hlt)
  have hnew : ¬ s.Allocated n := fun hall => (h.tracks.allocated_iff n).1 hall hfresh
  obtain ⟨v, hs, hr⟩ := hst
  obtain ⟨x, b, o, hx⟩ := hs.openedCwd hr hc
  refine ⟨0, fs', htouch, .inr ⟨rfl, n, ⟨hn, hnew⟩, ?_⟩⟩
  exact h.entersName hst' rfl (Tree.extends_create hc hfresh)
    (hst'.leadsTo_new (Tree.node_create hc hfresh) path.2 hname hnone hhanded) o hx hlt
    (o.touch_changes hs.superblock hx path.2 hlen hnone hlt hn hhanded htouch)

lemma Numbered.mkdir_law (h : Numbered s t) {path : Path} (hC : Creatable s (.mkdir path)) :
    CreationLaw s (.mkdir path) := by
  obtain ⟨hcwd, hC⟩ := hC
  obtain ⟨es, hc⟩ := h.tracks.cwd hcwd
  have hst := h.tracks.stores
  rcases h.creatable_new hc hC with href | ⟨hlen, hnone, hname, hlt, hopen⟩
  · obtain ⟨fs', hmkdir, -⟩ := hst.doMkdir_refused hc path.2 href
    exact ⟨1, fs', hmkdir, .inl ⟨one_ne_zero, disk_of_doMkdir_refused hmkdir⟩⟩
  obtain ⟨n, fs', hmkdir, hn, hfresh, hhanded, hst'⟩ :=
    hst.doMkdir hc path.2 hlen hnone hopen (hname.hasRoom hlt)
  have hnew : ¬ s.Allocated n := fun hall => (h.tracks.allocated_iff n).1 hall hfresh
  obtain ⟨v, hs, hr⟩ := hst
  obtain ⟨x, b, o, hx⟩ := hs.openedCwd hr hc
  refine ⟨0, fs', hmkdir, .inr ⟨rfl, n, ⟨hn, hnew⟩, ?_⟩⟩
  exact h.entersName hst' rfl (Tree.extends_create hc hfresh)
    (hst'.leadsTo_new (Tree.node_create hc hfresh) path.2 hname hnone hhanded) o hx hlt
    (o.mkdir_changes hs hr hx hc path.2 hlen hnone hopen hlt hn hhanded hmkdir)

lemma Numbered.ln_law (h : Numbered s t) {src dst : Path} (hC : Creatable s (.ln src dst)) :
    CreationLaw s (.ln src dst) := by
  by_cases hsame : src.1 = dst.1
  · exact ⟨1, s.fs, by rw [create, hsame, doLn_same], .inl ⟨one_ne_zero, rfl⟩⟩
  obtain ⟨hcwd, hname, hfree, m, ⟨hall, ⟨y, hy, htype⟩, fs₁, hparse⟩, htaken⟩ := hC.resolve_left hsame
  obtain ⟨es, hc⟩ := h.tracks.cwd hcwd
  have hst := h.tracks.stores
  have hlt := (hst.hasUnused_iff hc le_rfl).1 hfree
  obtain ⟨ref, hnode⟩ := h.tracks.file hall hy htype
  have hhanded := hst.handed (by rw [hnode]; exact Option.some_ne_none _)
  obtain ⟨-, h14, -⟩ := id hname
  obtain ⟨v, r⟩ := hst.resolved_of_parsePath hparse
  obtain ⟨fs', hln, hst'⟩ :=
    r.doLn_file hsame hc hnode rfl dst.2 (by omega) (hname.hasRoom hlt)
  have hs := r.before
  obtain ⟨x, b, o, hx⟩ := hs.openedCwd r.represents hc
  refine ⟨0, fs', hln, .inr ⟨rfl, m, ⟨hall, ⟨y, hy, htype⟩, fs₁, hparse⟩, ?_⟩⟩
  refine h.entersName hst' rfl (Tree.extends_link hc hnode) ?_ o hx hlt
    (o.ln_changes hs.superblock hx hparse hsame (by omega) hlt hhanded hln)
  -- the name leads to the file already, or it is new
  cases hfirst : firstNamed es dst.1 with
  | none => exact hst'.leadsTo_new (Tree.node_link hc hnode) dst.2 hname hfirst hhanded
  | some j =>
    obtain ⟨fs₂, hdst⟩ := htaken ((hst.nameTaken_iff hc dst.2).2 ⟨j, hfirst⟩)
    rw [hs.cwdInum, r.represents.cwd] at hdst
    have hle := h.entries t.cwd
    rw [Tree.entries_of_node hc] at hle
    have hm : m ≠ 0 := by
      have := hhanded.1
      omega
    exact hst.leadsTo_extends hst' (Tree.extends_link hc hnode) hc hle dst.2 hname.2.2 hm ⟨fs₂, hdst⟩

/-- Every call of the kind allowed. -/
lemma Numbered.law (h : Numbered s t) (hC : Creatable s call) : CreationLaw s call := by
  cases call with
  | touch path => exact h.touch_law hC
  | mkdir path => exact h.mkdir_law hC
  | ln srcPath dstPath => exact h.ln_law hC

end Law

/-! ## Runs -/

end Fs
end UcasKernel
