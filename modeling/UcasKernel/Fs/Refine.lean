/-
What the directory calls do to the tree.

For each call there is one lemma a way it can end: what it returns, and the tree
the card then holds.  A call that runs out of the entries of a block, or out of
the 16 bytes of its copy of the path, does not return.
-/
import UcasKernel.Fs.Walk

namespace UcasKernel
namespace Fs

/-- The card holds a tree. -/
def Stores (fs : Fs) (t : Tree) : Prop := ∃ v, fs.Shows v ∧ Represents v t

/-! ## The operations on the tree -/

/-- The inode number `parse_path` finds for a path: 0 when the directory has no
entry for it. -/
def lookup (es : List Entry) (n : ℕ) (path : List UInt8) : Option ℕ :=
  if path = [] then some n
  else if path.length ≥ 16 then none
  else
    match firstNamed es path with
    | some j => if path.length + 1 < 16 then es[j]?.map (·.inum) else none
    | none => if es.length < maxEntries then some 0 else none

namespace Tree

/-- A new entry of the working directory. -/
def enter (t : Tree) (name : List UInt8) (inum : ℕ) : Tree :=
  t.set t.cwd (some (.dir (t.entries t.cwd ++ [⟨true, inum, name⟩])))

/-- Entry `j` of the working directory is removed. -/
def unlink (t : Tree) (j : ℕ) : Tree :=
  t.set t.cwd (some (.dir ((t.entries t.cwd).modify j Entry.cleared)))

/-- One more link to a file. -/
def bump (t : Tree) (n : ℕ) : Tree :=
  match t.node n with
  | some (.file ref) => t.set n (some (.file (ref + 1)))
  | _ => t

/-- One link less to a file; without links it is freed. -/
def drop (t : Tree) (n : ℕ) : Tree :=
  match t.node n with
  | some (.file ref) => t.set n (if ref ≤ 1 then none else some (.file (ref - 1)))
  | _ => t

end Tree

/-- The path has no separator, or the directory has no entry for it. -/
def Plain (es : List Entry) (path : List UInt8) : Prop := 47 ∉ path ∨ firstNamed es path = none

/-- The valid entries of a directory lead to inodes in use. -/
def Tree.Closed (t : Tree) (es : List Entry) : Prop := ∀ e ∈ es, e.valid = true → t.node e.inum ≠ none

lemma firstNamed_valid {es : List Entry} {path : List UInt8} {j : ℕ}
    (h : firstNamed es path = some j) :
    ∃ hj : j < es.length, es[j].valid = true ∧ es[j].name = path := by
  obtain ⟨hj, hnamed, -⟩ := firstNamed_eq_some.1 h
  simp only [Entry.named, Bool.and_eq_true, decide_eq_true_eq] at hnamed
  exact ⟨hj, hnamed⟩

section Calls

variable {fs : Fs} {v : Volume} {t : Tree} {n : ℕ} {es : List Entry} {path : List UInt8}

lemma Shows.parsePath (h : fs.Shows v) (hr : Represents v t) (hn : t.node n = some (.dir es))
    (hpath : 0 ∉ path) (hplain : Plain es path) (hclosed : t.Closed es) :
    ∃ fs', fs'.Shows v ∧
      fs.parsePath path n = (lookup es n path).map fun m : ℕ => ((m : ℤ), fs') := by
  by_cases hnil : path = []
  · subst hnil
    exact ⟨fs, h, rfl⟩
  obtain ⟨x, b, o⟩ := h.opened hr hn
  refine ⟨fs.readBlock b, o.shows, ?_⟩
  unfold lookup
  by_cases hlong : path.length ≥ 16
  · rw [if_neg hnil, if_pos hlong, parsePath_long hlong]
    rfl
  rw [if_neg hnil, if_neg hlong]
  obtain ⟨hhit, hmiss⟩ := o.parsePath hpath hnil (by omega)
  cases hfirst : firstNamed es path with
  | none =>
    rw [hmiss hfirst]
    dsimp only
    split <;> rfl
  | some j =>
    obtain ⟨hj, hvalid, -⟩ := firstNamed_valid hfirst
    have hslash : 47 ∉ path := hplain.resolve_right fun hnone => by rw [hfirst] at hnone; cases hnone
    obtain ⟨nd, hnd⟩ := Option.ne_none_iff_exists'.1 (hclosed _ (List.getElem_mem hj) hvalid)
    have hlt : es[j].inum < 2 ^ 31 := by
      have := (h.nodeBounds hr hnd).2.1
      simp only [ninodes] at this
      omega
    rw [hhit j hj hfirst hslash hlt]
    dsimp only
    rw [List.getElem?_eq_getElem hj]
    split <;> rfl

/-- The number found is that of the first entry with the name. -/
lemma lookup_pos {m : ℕ} (h : lookup es n path = some m) (hm : m ≠ 0) :
    (path = [] ∧ m = n) ∨
      ∃ j, ∃ hj : j < es.length, firstNamed es path = some j ∧ es[j].inum = m := by
  unfold lookup at h
  split at h
  · rename_i hnil
    exact .inl ⟨hnil, (Option.some.inj h).symm⟩
  split at h
  · cases h
  right
  cases hfirst : firstNamed es path with
  | none =>
    rw [hfirst] at h
    dsimp only at h
    split at h
    · exact absurd (Option.some.inj h).symm hm
    · cases h
  | some j =>
    obtain ⟨hj, -, -⟩ := firstNamed_valid hfirst
    rw [hfirst] at h
    dsimp only at h
    rw [List.getElem?_eq_getElem hj] at h
    split at h
    · exact ⟨j, hj, rfl, Option.some.inj h⟩
    · cases h

/-- A change of the working directory. -/
lemma Represents.setCwd (hr : Represents v t) (m : ℕ) :
    Represents { v with cwdInum := m } { t with cwd := m } :=
  ⟨hr.imap, fun k nd hk => (hr.node k nd hk).congr rfl rfl (fun _ _ => rfl) fun _ _ => rfl,
    hr.owned, hr.unique, hr.full, hr.metadata, fun hi => (hr.index hi).setState _ _, rfl,
    hr.fdescArray⟩

/-- The type of an inode tells files from directories. -/
lemma Represents.type_eq_file (hr : Represents v t) {x : Inode} {nd : Node}
    (hn : t.node n = some nd) (hx : Inode.Same x (v.inode n)) :
    x.type = typeFile ↔ ∃ ref, nd = .file ref := by
  have hnode := hr.node n nd hn
  rw [hx.type]
  cases nd with
  | file ref => exact iff_of_true hnode.1 ⟨ref, rfl⟩
  | dir entries =>
    rw [DirAt.type hnode]
    refine iff_of_false (by decide) ?_
    rintro ⟨ref, heq⟩
    cases heq

/-- A path has been resolved to inode `m`; only the block buffer has changed. -/
structure Resolved (fs fs' : Fs) (v : Volume) (t : Tree) (path : List UInt8) (m : ℕ) : Prop where
  before : fs.Shows v
  after : fs'.Shows v
  represents : Represents v t
  parse : fs.parsePath path fs.cwdInum = some ((m : ℤ), fs')

lemma Stores.resolved_of_parsePath {fs' : Fs} {m : ℕ} (h : fs.Stores t)
    (hparse : fs.parsePath path fs.cwdInum = some ((m : ℤ), fs')) :
    ∃ v, Resolved fs fs' v t path m := by
  obtain ⟨v, hs, hr⟩ := h
  exact ⟨v, hs, hs.of_parsePath hparse, hr, hparse⟩

section Resolved

variable {fs' : Fs} {m : ℕ} (r : Resolved fs fs' v t path m)
include r

lemma Resolved.stores : fs'.Stores t := ⟨v, r.after, r.represents⟩

/-- The working directory as it is read after the path. -/
lemma Resolved.cwd (hc : t.node t.cwd = some (.dir es)) :
    ∃ x b, fs'.Opened v t.cwd es x b ∧ fs'.readInode fs'.cwdInum = some x ∧
      fs'.readInode fs.cwdInum = some x := by
  obtain ⟨x, b, o⟩ := r.after.opened r.represents hc
  refine ⟨x, b, o, ?_, ?_⟩
  · rw [r.after.cwdInum, r.represents.cwd]
    exact o.inode
  · rw [r.before.cwdInum, r.represents.cwd]
    exact o.inode

/-- The inode the path leads to. -/
lemma Resolved.node {nd : Node} (hnode : t.node m = some nd) :
    Handed ninodes m ∧ (m : ℤ) ≠ 0 ∧
      ∃ y, fs'.readInode m = some y ∧ Inode.Same y (v.inode m) ∧ y.Fits := by
  have hhanded := r.after.nodeBounds r.represents hnode
  have := hhanded.1
  exact ⟨hhanded, by omega, r.after.readInode hhanded.1 hhanded.2.1⟩

/-- The walk for the entry the path begins with. -/
lemma Resolved.named (hc : t.node t.cwd = some (.dir es)) (hpath : 0 ∉ path) (hm : m ≠ 0)
    (hne : path ≠ []) : ∃ j, firstNamed es path = some j := by
  obtain ⟨x, b, o⟩ := r.before.opened r.represents hc
  have hparse := r.parse
  rw [r.before.cwdInum, r.represents.cwd] at hparse
  exact o.named_of_parsePath hpath hne hparse (by exact_mod_cast hm)

lemma Resolved.eq_cwd (hnil : path = []) : m = t.cwd := by
  have hparse := r.parse
  rw [hnil, parsePath_nil, r.before.cwdInum, r.represents.cwd, Option.some.injEq,
    Prod.mk.injEq] at hparse
  exact (Int.ofNat_inj.1 hparse.1).symm

end Resolved

/-! ## `do_cd` -/

section Resolved

variable {fs' : Fs} {m : ℕ} (r : Resolved fs fs' v t path m)
include r

lemma Resolved.doCd_refused (hnode : m = 0 ∨ ∃ ref, t.node m = some (.file ref)) :
    fs.doCd path = some (1, fs') := by
  rw [Fs.doCd, r.parse]
  simp only [Option.bind_eq_bind, Option.bind_some]
  rcases hnode with rfl | ⟨ref, hnode⟩
  · rfl
  · obtain ⟨-, hm, y, hy, hsame, -⟩ := r.node hnode
    rw [if_neg hm, hy, Option.bind_some,
      if_pos ((r.represents.type_eq_file hnode hsame).2 ⟨ref, rfl⟩)]

lemma Resolved.doCd {es' : List Entry} (hnode : t.node m = some (.dir es')) :
    ∃ fs'', fs.doCd path = some (0, fs'') ∧ fs''.Stores { t with cwd := m } := by
  obtain ⟨-, hm, y, hy, hsame, -⟩ := r.node hnode
  refine ⟨_, ?_, _, r.after.setCwdInum m, r.represents.setCwd m⟩
  rw [Fs.doCd, r.parse]
  simp only [Option.bind_eq_bind, Option.bind_some]
  rw [if_neg hm, hy, Option.bind_some, if_neg]
  rw [r.represents.type_eq_file hnode hsame]
  rintro ⟨ref, heq⟩
  cases heq

end Resolved

section Cwd

variable (h : fs.Stores t) (hc : t.node t.cwd = some (.dir es))
  (hpath : 0 ∉ path) (hplain : Plain es path) (hclosed : t.Closed es)
include h hc hpath hplain hclosed

/-- Resolving a path from the working directory. -/
lemma Stores.parsePath :
    ∃ v fs', fs.Shows v ∧ fs'.Shows v ∧ Represents v t ∧
      fs.parsePath path fs.cwdInum = (lookup es t.cwd path).map fun m : ℕ => ((m : ℤ), fs') := by
  obtain ⟨v, hs, hr⟩ := h
  obtain ⟨fs', hs', hparse⟩ := hs.parsePath hr hc hpath hplain hclosed
  exact ⟨v, fs', hs, hs', hr, by rw [hs.cwdInum, hr.cwd]; exact hparse⟩

/-- The same for a path that leads somewhere or nowhere. -/
lemma Stores.resolved {m : ℕ} (hm : lookup es t.cwd path = some m) :
    ∃ v fs', Resolved fs fs' v t path m := by
  obtain ⟨v, fs', hs, hs', hr, hparse⟩ := h.parsePath hc hpath hplain hclosed
  exact ⟨v, fs', hs, hs', hr, by rw [hparse, hm]; rfl⟩

lemma Stores.parsePath_none (hm : lookup es t.cwd path = none) :
    fs.parsePath path fs.cwdInum = none := by
  obtain ⟨v, fs', -, -, -, hparse⟩ := h.parsePath hc hpath hplain hclosed
  rw [hparse, hm]
  rfl

lemma Stores.doCd_none (hm : lookup es t.cwd path = none) : fs.doCd path = none := by
  rw [Fs.doCd, h.parsePath_none hc hpath hplain hclosed hm]
  rfl

lemma Stores.doCd_refused {m : ℕ} (hm : lookup es t.cwd path = some m)
    (hnode : m = 0 ∨ ∃ ref, t.node m = some (.file ref)) :
    ∃ fs', fs.doCd path = some (1, fs') ∧ fs'.Stores t := by
  obtain ⟨v, fs', r⟩ := h.resolved hc hpath hplain hclosed hm
  exact ⟨fs', r.doCd_refused hnode, r.stores⟩

lemma Stores.doCd {m : ℕ} {es' : List Entry} (hm : lookup es t.cwd path = some m)
    (hnode : t.node m = some (.dir es')) :
    ∃ fs', fs.doCd path = some (0, fs') ∧ fs'.Stores { t with cwd := m } := by
  obtain ⟨v, fs', r⟩ := h.resolved hc hpath hplain hclosed hm
  exact r.doCd hnode

end Cwd

/-! ## `do_touch` and `do_mkdir` -/

section New

variable (h : fs.Stores t) (hc : t.node t.cwd = some (.dir es)) (hpath : 0 ∉ path)
include h hc hpath

/-- A name that is too long or in use. -/
lemma Stores.doTouch_refused
    (href : path.length > dentryNameLen ∨ ∃ j, firstNamed es path = some j) :
    ∃ fs', fs.doTouch path = some (1, fs') ∧ fs'.Stores t := by
  obtain ⟨v, hs, hr⟩ := h
  obtain ⟨x, b, o, hx⟩ := hs.openedCwd hr hc
  rw [Fs.doTouch, hx]
  simp only [Option.bind_eq_bind, Option.bind_some]
  by_cases hlong : path.length > dentryNameLen
  · exact ⟨fs, if_pos hlong, v, hs, hr⟩
  · obtain ⟨j, hj⟩ := href.resolve_left hlong
    rw [if_neg hlong, o.scan_named hpath hj]
    exact ⟨fs.readBlock b, rfl, v, o.shows, hr⟩

end New

/-- A call has made inode `n` and is about to enter its name. -/
structure Created (fs : Fs) (v : Volume) (t : Tree) (es : List Entry) (n b : ℕ) (nd : Node) :
    Prop where
  shows : fs.Shows v
  represents : Represents v (t.set n (some nd))
  cwd : t.node t.cwd = some (.dir es)
  fresh : t.node n = none
  handed : Handed ninodes n
  block : (v.inode t.cwd).direct 0 = b
  data : DataBlock b
  buf : IsDir fs.blockBuf es

lemma Created.cwd_ne {b : ℕ} {nd : Node} (c : fs.Created v t es n b nd) : t.cwd ≠ n := by
  rintro heq
  have := c.cwd
  rw [heq, c.fresh] at this
  cases this

/-- The name is entered. -/
lemma Created.enter {b : ℕ} {nd : Node} (c : fs.Created v t es n b nd) (hpath : 0 ∉ path)
    (hlen : path.length ≤ 27) (hroom : HasRoom es path) :
    ∃ buf fs', fs.appendDentry b n path = some fs' ∧
      fs'.Shows { v with block := Function.update v.block b buf } ∧
      Represents { v with block := Function.update v.block b buf }
        ((t.set n (some nd)).enter path n) := by
  obtain ⟨buf, fs', happend, hbuf, hshows⟩ :=
    c.shows.appendDentry c.data c.buf c.handed hpath hlen hroom
  have hcwd : (t.set n (some nd)).node t.cwd = some (.dir es) := by
    rw [Tree.node_set_of_ne _ _ c.cwd_ne]
    exact c.cwd
  have hr := c.represents.setEntries hcwd hbuf
  rw [c.block] at hr
  refine ⟨buf, fs', happend, hshows, ?_⟩
  rw [Tree.enter, Tree.cwd_set, Tree.entries_of_node hcwd]
  exact hr

/-- An inode is taken and written. -/
lemma Shows.writeNewInode (h : fs.Shows v) (hopen : fs.MapOpen imapSector 1) (x : ℕ → Inode)
    (hx : ∀ ticks, (x ticks).Fits) :
    ∃ (n : ℕ) (fs₁ fs₂ : Fs), fs.allocInode = ((n : ℤ), fs₁) ∧ Handed ninodes n ∧ n ∉ v.imap ∧
      fs₁.getTicks.2.writeInode n (x fs₁.getTicks.1) = some fs₂ ∧
      fs₂.Shows { v with
        imap := insert n v.imap
        inode := Function.update v.inode n (x fs₁.getTicks.1) } := by
  obtain ⟨n, fs₁, halloc, hhanded, hnew, -, hshows⟩ := h.allocInode hopen
  have hticks : fs₁.getTicks.2.Shows { v with imap := insert n v.imap } :=
    hshows.of_disk rfl rfl rfl rfl
  obtain ⟨fs₂, hwrite, hshows₂⟩ := hticks.writeInode hhanded.1 hhanded.2.1 (hx fs₁.getTicks.1)
  exact ⟨n, fs₁, fs₂, halloc, hhanded, hnew, hwrite, hshows₂⟩

/-- Reading a block does not change which inode is next. -/
lemma allocInode_readBlock (fs : Fs) (b : ℕ) : (fs.readBlock b).allocInode.1 = fs.allocInode.1 := by
  simp only [Fs.allocInode, Fs.sdread, disk_readBlock, superblock_readBlock]

lemma fits_newFile (ticks : ℕ) : (newFile ticks).Fits :=
  ⟨show 1 < 2 ^ 16 by decide, show 1 < 2 ^ 32 by decide, fun _ _ => show 0 < 2 ^ 32 by decide⟩

/-- `do_touch` up to the new entry. -/
lemma Shows.doTouch_created (hs : fs.Shows v) (hr : Represents v t)
    (hc : t.node t.cwd = some (.dir es)) (hpath : 0 ∉ path) (hlen : path.length ≤ dentryNameLen)
    (hnone : firstNamed es path = none) (hopen : fs.MapOpen imapSector 1)
    (hlt : es.length < maxEntries) :
    ∃ (n b ticks : ℕ) (fs' : Fs),
      Created fs' { v with
        imap := insert n v.imap
        inode := Function.update v.inode n (newFile ticks) } t es n b (.file 1) ∧
      fs.allocInode.1 = n ∧
      fs.doTouch path = (fs'.appendDentry b n path).map fun f => ((0 : ℤ), f) := by
  obtain ⟨x, b, o, hx⟩ := hs.openedCwd hr hc
  obtain ⟨n, fs₁, fs₂, halloc, hhanded, hnew, hwrite, hshows⟩ :=
    o.shows.writeNewInode hopen newFile fits_newFile
  have hbuf := hshows.readBlock o.data
  refine ⟨n, b, fs₁.getTicks.1, fs₂.readBlock b,
    ⟨hbuf.1, ?_, hc, hr.node_none hnew, hhanded, ?_, o.data, ?_⟩, ?_, ?_⟩
  · have hcreate := hr.create (.file 1) (newFile fs₁.getTicks.1) ∅ v.block hnew
      (fun c => ?_) (fun _ hmem => absurd hmem (Set.notMem_empty _))
      (fun i _ i' _ h0 => absurd rfl h0) (fun _ _ => rfl) (.inl ⟨rfl, rfl⟩) ?_
    · rwa [Set.union_empty] at hcreate
    · refine iff_of_false (Set.notMem_empty _) ?_
      rintro ⟨i, -, h0, -⟩
      exact h0 rfl
    · simp only [NodeAt, Function.update_self]
      exact ⟨rfl, rfl⟩
  · have hne : t.cwd ≠ n := fun heq => hnew (heq ▸ hr.mem_imap hc)
    simp only [Function.update_of_ne hne]
    exact o.block
  · refine o.buf.congr fun y hy => ?_
    rw [hbuf.2 y hy, (hs.readBlock o.data).2 y hy]
  · rw [← allocInode_readBlock, halloc]
  · rw [Fs.doTouch, hx]
    simp only [Option.bind_eq_bind, Option.bind_some]
    rw [if_neg (by omega), o.scan_unnamed hpath hnone, if_pos hlt]
    simp only [Option.bind_some, halloc, hwrite]
    cases (fs₂.readBlock b).appendDentry b n path <;> rfl

section New

variable (h : fs.Stores t) (hc : t.node t.cwd = some (.dir es)) (hpath : 0 ∉ path)
include h hc hpath

/-- A new name and an entry for it. -/
lemma Stores.doTouch (hlen : path.length ≤ dentryNameLen) (hnone : firstNamed es path = none)
    (hopen : fs.MapOpen imapSector 1) (hroom : HasRoom es path) :
    ∃ (n : ℕ) (fs' : Fs), fs.doTouch path = some (0, fs') ∧ fs.allocInode.1 = n ∧
      t.node n = none ∧ Handed ninodes n ∧
      fs'.Stores ((t.set n (some (.file 1))).enter path n) := by
  obtain ⟨v, hs, hr⟩ := h
  obtain ⟨n, b, ticks, fs₁, c, halloc, htouch⟩ :=
    hs.doTouch_created hr hc hpath hlen hnone hopen hroom.1
  obtain ⟨buf, fs', happend, hshows, hr'⟩ := c.enter hpath (hlen.trans (by decide)) hroom
  exact ⟨n, fs', by rw [htouch, happend]; rfl, halloc, c.fresh, c.handed, _, hshows, hr'⟩

lemma Stores.doTouch_full (hlen : path.length ≤ dentryNameLen) (hnone : firstNamed es path = none)
    (hopen : fs.MapOpen imapSector 1) (hroom : ¬ HasRoom es path) : fs.doTouch path = none := by
  obtain ⟨v, hs, hr⟩ := h
  by_cases hlt : es.length < maxEntries
  · obtain ⟨n, b, ticks, fs₁, c, -, htouch⟩ :=
      hs.doTouch_created hr hc hpath hlen hnone hopen hlt
    rw [htouch, appendDentry_full c.buf hroom]
    rfl
  · obtain ⟨x, b, o, hx⟩ := hs.openedCwd hr hc
    rw [Fs.doTouch, hx]
    simp only [Option.bind_eq_bind, Option.bind_some]
    rw [if_neg (by omega), o.scan_unnamed hpath hnone, if_neg hlt]
    rfl

end New

/-- The inode `init_dir_inode` gives a new directory. -/
def newDir (ticks blockNum : ℕ) : Inode :=
  Inode.setDirect { Inode.zero with
    type := typeDirectory
    permission := 0b1111101101
    timeCreated := ticks
    ref := 1 } 0 blockNum

lemma newDir_direct (ticks b i : ℕ) : (newDir ticks b).direct i = if i = 0 then b else 0 := by
  show Function.update (fun _ => 0) 0 b i = _
  rw [Function.update_apply]

/-- A new directory: its inode, and a block with the first two entries. -/
lemma Shows.initDirInode (h : fs.Shows v) (hopen : fs.MapOpen imapSector 1)
    (hbopen : ∃ b, Handed nblocks b ∧ b ∉ v.bmap) (hmeta : ∀ b ≤ 70, Handed nblocks b → b ∈ v.bmap)
    {p : ℕ} (hp : Handed ninodes p) :
    ∃ (n b : ℕ) (x : Inode) (buf : Bytes) (fs' : Fs),
      fs.initDirInode p = some ((n : ℤ), fs') ∧ fs.allocInode.1 = n ∧ Handed ninodes n ∧
      n ∉ v.imap ∧ (∀ m < n, Handed ninodes m → m ∈ v.imap) ∧ DataBlock b ∧ 71 ≤ b ∧ b ∉ v.bmap ∧
      (∀ c < b, Handed nblocks c → c ∈ v.bmap) ∧ x.type = typeDirectory ∧
      (∀ i, x.direct i = if i = 0 then b else 0) ∧ x.IndexAt ∧ IsDir buf (freshEntries n p) ∧
      fs'.Shows { v with
        imap := insert n v.imap
        bmap := insert b v.bmap
        inode := Function.update v.inode n x
        block := Function.update v.block b buf } := by
  obtain ⟨n, fs₁, halloc, hhanded, hnew, hmin, hs₁⟩ := h.allocInode hopen
  obtain ⟨b, fs₂, hallocB, hhandedB, hnewB, hminB, hs₂⟩ := hs₁.allocBlock hbopen
  have hge : 71 ≤ b := by
    by_contra hlt
    exact hnewB (hmeta b (by omega) hhandedB)
  have hdata : DataBlock b := ⟨by omega, hhandedB.lt⟩
  have hb32 : b < 2 ^ 32 := by
    have := hdata.2
    simp only [nblocks] at this
    omega
  have hfits : (newDir fs₂.getTicks.1 b).Fits := by
    refine ⟨show 2 < 2 ^ 16 by decide, show 1 < 2 ^ 32 by decide, fun i _ => ?_⟩
    rw [newDir_direct]
    split
    · exact hb32
    · decide
  have hticks : fs₂.getTicks.2.Shows _ := hs₂.of_disk rfl rfl rfl rfl
  obtain ⟨fs₃, hwrite, hs₃⟩ := hticks.writeInode hhanded.1 hhanded.2.1 hfits
  have hs₄ := (hs₃.setBlockBuf (freshBlock n p)).writeBlock hdata
  refine ⟨n, b, newDir fs₂.getTicks.1 b, freshBlock n p,
    ({ fs₃ with blockBuf := freshBlock n p } : Fs).writeBlock b, ?_, by rw [halloc], hhanded, hnew,
    hmin, hdata, hge, hnewB, hminB, rfl, newDir_direct _ _, .inl ⟨rfl, rfl⟩, ?_, hs₄⟩
  · rw [Fs.initDirInode, halloc]
    simp only [hallocB]
    exact congrArg (Option.bind · _) hwrite
  · have hle : ∀ m, Handed ninodes m → m ≠ 0 ∧ m < 2 ^ 32 := by
      rintro m ⟨h1, h2, -⟩
      simp only [ninodes] at h2
      omega
    exact isDir_freshBlock (hle n hhanded) (hle p hp)

/-- The new directory is part of the tree. -/
lemma Represents.createDir {b : ℕ} {x : Inode} {buf : Bytes} (hr : Represents v t) (hn : n ∉ v.imap)
    (hge : 71 ≤ b) (hb : b ∉ v.bmap) (htype : x.type = typeDirectory)
    (hdirect : ∀ i, x.direct i = if i = 0 then b else 0) (hindex : x.IndexAt)
    (hbuf : IsDir buf es) :
    Represents { v with
      imap := insert n v.imap
      bmap := insert b v.bmap
      inode := Function.update v.inode n x
      block := Function.update v.block b buf } (t.set n (some (.dir es))) := by
  have h0 : x.direct 0 = b := (hdirect 0).trans (if_pos rfl)
  have hcreate := hr.create (.dir es) x {b} (Function.update v.block b buf) hn
    (fun c => ?_) (fun c hc => ?_)
    (fun i _ i' _ h0 heq => ?_) (fun c hc => ?_) hindex ?_
  · rwa [Set.union_singleton] at hcreate
  · rw [Set.mem_singleton_iff]
    constructor
    · rintro rfl
      exact ⟨0, by decide, by rw [hdirect, if_pos rfl]; omega, by rw [hdirect, if_pos rfl]⟩
    · rintro ⟨i, -, h0, rfl⟩
      rw [hdirect] at h0 ⊢
      split at h0
      · rename_i hi
        rw [if_pos hi]
      · exact absurd rfl h0
  · rw [Set.mem_singleton_iff] at hc
    exact hc ▸ ⟨hb, hge⟩
  · rw [hdirect] at h0 heq
    rw [hdirect] at heq
    split at h0
    · rename_i hi
      rw [if_pos hi] at heq
      split at heq
      · rename_i hi'
        exact hi.trans hi'.symm
      · omega
    · exact absurd rfl h0
  · have hcb : c ≠ b := by
      rintro rfl
      exact hb hc
    exact Function.update_of_ne hcb _ _
  · refine ⟨?_, ?_, fun i hi _ => ?_, ?_⟩ <;> simp only [Function.update_self]
    · exact htype
    · rw [h0]
      omega
    · rw [hdirect, if_neg (by omega)]
    · rw [h0, Function.update_self]
      exact hbuf

section New

variable (h : fs.Stores t) (hc : t.node t.cwd = some (.dir es)) (hpath : 0 ∉ path)
include h hc hpath

/-- A name that is too long or in use. -/
lemma Stores.doMkdir_refused
    (href : path.length > dentryNameLen ∨ ∃ j, firstNamed es path = some j) :
    ∃ fs', fs.doMkdir path = some (1, fs') ∧ fs'.Stores t := by
  obtain ⟨v, hs, hr⟩ := h
  obtain ⟨x, b, o, hx⟩ := hs.openedCwd hr hc
  rw [Fs.doMkdir, hx]
  simp only [Option.bind_eq_bind, Option.bind_some]
  by_cases hlong : path.length > dentryNameLen
  · exact ⟨fs, if_pos hlong, v, hs, hr⟩
  · obtain ⟨j, hj⟩ := href.resolve_left hlong
    rw [if_neg hlong, o.scan_named hpath hj]
    exact ⟨fs.readBlock b, rfl, v, o.shows, hr⟩

lemma Stores.doMkdir_created (hlen : path.length ≤ dentryNameLen)
    (hnone : firstNamed es path = none) (hopen : fs.MapOpen imapSector 1)
    (hlt : es.length < maxEntries) :
    ∃ (v : Volume) (n b : ℕ) (fs' : Fs), Created fs' v t es n b (.dir (freshEntries n t.cwd)) ∧
      fs.allocInode.1 = n ∧
      fs.doMkdir path = (fs'.appendDentry b n path).map fun f => ((0 : ℤ), f) := by
  obtain ⟨v, hs, hr⟩ := h
  obtain ⟨x, b, o⟩ := hs.opened hr hc
  have hcwd : fs.cwdInum = t.cwd := hs.cwdInum.trans hr.cwd
  have hx : fs.readInode fs.cwdInum = some x := by
    rw [hcwd]
    exact o.inode
  have hbopen := hr.bmapOpen fun m hm => (hs.imap_handed m hm).2.1
  obtain ⟨n, c, y, buf, fs₁, hinit, halloc, hhanded, hnew, -, hdata, hge, hcnew, -, htype, hdirect,
    hindex, hbuf, hshows⟩ := o.shows.initDirInode hopen hbopen hr.metadata (hs.nodeBounds hr hc)
  have hne : t.cwd ≠ n := fun heq => hnew (heq ▸ hr.mem_imap hc)
  have hbc : b ≠ c := fun heq => hcnew (heq ▸ o.block ▸ (hr.dirBlock hc).1)
  have hread := hshows.readBlock o.data
  refine ⟨_, n, b, fs₁.readBlock b, ⟨hread.1, hr.createDir hnew hge hcnew htype hdirect hindex hbuf, hc,
    hr.node_none hnew, hhanded, ?_, o.data, ?_⟩, ?_, ?_⟩
  · simp only [Function.update_of_ne hne]
    exact o.block
  · refine o.buf.congr fun z hz => ?_
    rw [hread.2 z hz, (hs.readBlock o.data).2 z hz]
    exact congrFun (Function.update_of_ne hbc _ _) z
  · rw [← allocInode_readBlock, halloc]
  · rw [Fs.doMkdir, hx]
    simp only [Option.bind_eq_bind, Option.bind_some]
    rw [if_neg (by omega), o.scan_unnamed hpath hnone, if_pos hlt, hcwd]
    simp only [Option.bind_some, hinit]
    cases (fs₁.readBlock b).appendDentry b n path <;> rfl

/-- A new name and an entry for it. -/
lemma Stores.doMkdir (hlen : path.length ≤ dentryNameLen) (hnone : firstNamed es path = none)
    (hopen : fs.MapOpen imapSector 1) (hroom : HasRoom es path) :
    ∃ (n : ℕ) (fs' : Fs), fs.doMkdir path = some (0, fs') ∧ fs.allocInode.1 = n ∧
      t.node n = none ∧ Handed ninodes n ∧
      fs'.Stores ((t.set n (some (.dir (freshEntries n t.cwd)))).enter path n) := by
  obtain ⟨v, n, b, fs₁, c, halloc, hmkdir⟩ := h.doMkdir_created hc hpath hlen hnone hopen hroom.1
  obtain ⟨buf, fs', happend, hshows, hr'⟩ := c.enter hpath (hlen.trans (by decide)) hroom
  exact ⟨n, fs', by rw [hmkdir, happend]; rfl, halloc, c.fresh, c.handed, _, hshows, hr'⟩

lemma Stores.doMkdir_full (hlen : path.length ≤ dentryNameLen) (hnone : firstNamed es path = none)
    (hopen : fs.MapOpen imapSector 1) (hroom : ¬ HasRoom es path) : fs.doMkdir path = none := by
  by_cases hlt : es.length < maxEntries
  · obtain ⟨v, n, b, fs₁, c, -, hmkdir⟩ := h.doMkdir_created hc hpath hlen hnone hopen hlt
    rw [hmkdir, appendDentry_full c.buf hroom]
    rfl
  · obtain ⟨v, hs, hr⟩ := h
    obtain ⟨x, b, o, hx⟩ := hs.openedCwd hr hc
    rw [Fs.doMkdir, hx]
    simp only [Option.bind_eq_bind, Option.bind_some]
    rw [if_neg (by omega), o.scan_unnamed hpath hnone, if_neg hlt]
    rfl

end New

/-! ## `do_ln` -/

/-- There is no inode 0. -/
lemma readInode_zero (h : fs.superblock = mkfsSuperblock) : fs.readInode 0 = none := by
  rw [readInode, inodeSlot, h]
  rfl

lemma doLn_same (fs : Fs) (path : List UInt8) : fs.doLn path path = some (1, fs) := if_pos rfl

section Resolved

variable {fs' : Fs} {m : ℕ} {dstPath : List UInt8} (r : Resolved fs fs' v t path m)
  (hne : path ≠ dstPath)
include r hne

/-- Without a source the call does not return. -/
lemma Resolved.doLn_none (hm : m = 0) : fs.doLn path dstPath = none := by
  subst hm
  rw [Fs.doLn, if_neg hne, r.parse]
  simp only [Option.bind_eq_bind, Option.bind_some, Nat.cast_zero,
    readInode_zero r.after.superblock, Option.bind_none]

variable (hc : t.node t.cwd = some (.dir es)) {nd : Node} (hnode : t.node m = some nd)
include hc hnode

lemma Resolved.doLn_full (hroom : ¬ HasRoom es dstPath) : fs.doLn path dstPath = none := by
  obtain ⟨-, -, y, hy, -, -⟩ := r.node hnode
  obtain ⟨x, b, o, hx, -⟩ := r.cwd hc
  rw [Fs.doLn, if_neg hne, r.parse]
  simp only [Option.bind_eq_bind, Option.bind_some, hy, hx, o.scan_unused]
  by_cases hlt : es.length < maxEntries
  · rw [if_pos hlt]
    simp only [Option.bind_some, appendDentry_full o.buf hroom, Option.bind_none]
  · rw [if_neg hlt]
    rfl

/-- The new entry, and the inode of the source written with one more link. -/
lemma Resolved.doLn_written (hdst : 0 ∉ dstPath) (hlen : dstPath.length ≤ 27)
    (hroom : HasRoom es dstPath) :
    ∃ (fs'' : Fs) (v' : Volume) (y : Inode), fs.doLn path dstPath = some (0, fs'') ∧
      fs''.Shows { v' with
        inode := Function.update v'.inode m { y with ref := (y.ref + 1) % 2 ^ 32 } } ∧
      Represents v' (t.enter dstPath m) ∧ Inode.Same y (v'.inode m) ∧
      Inode.SameIndex y (v'.inode m) := by
  obtain ⟨hhanded, -, y, hy, hsame, hfits⟩ := r.node hnode
  obtain ⟨x, b, o, hx, -⟩ := r.cwd hc
  obtain ⟨buf, fs₂, happend, hbuf, hs₂⟩ :=
    o.shows.appendDentry o.data o.buf hhanded hdst hlen hroom
  have hr₂ := r.represents.setEntries hc hbuf
  rw [o.block] at hr₂
  have hfits' : Inode.Fits { y with ref := (y.ref + 1) % 2 ^ 32 } :=
    ⟨hfits.type, Nat.mod_lt _ (by decide), hfits.direct⟩
  obtain ⟨fs'', hwrite, hs'⟩ := hs₂.writeInode hhanded.1 hhanded.2.1 hfits'
  refine ⟨fs'', _, y, ?_, hs', ?_, hsame, r.after.readInode_index hhanded.1 hhanded.2.1 hy⟩
  · rw [Fs.doLn, if_neg hne, r.parse]
    simp only [Option.bind_eq_bind, Option.bind_some, hy, hx, o.scan_unused, if_pos hroom.1,
      happend, hwrite]
  · rw [Tree.enter, Tree.entries_of_node hc]
    exact hr₂

/-- One more entry for a file; its link count is a 32-bit number. -/
lemma Resolved.doLn_file {ref : ℕ} (hfile : nd = .file ref) (hdst : 0 ∉ dstPath)
    (hlen : dstPath.length ≤ 27) (hroom : HasRoom es dstPath) :
    ∃ fs'', fs.doLn path dstPath = some (0, fs'') ∧
      fs''.Stores ((t.enter dstPath m).set m (some (.file ((ref + 1) % 2 ^ 32)))) := by
  obtain ⟨fs'', v', y, hln, hs', hr', hsame, hindex⟩ :=
    r.doLn_written hne hc hnode hdst hlen hroom
  subst hfile
  have hmc : m ≠ t.cwd := by
    rintro rfl
    rw [hc] at hnode
    cases hnode
  have hnode₂ : (t.enter dstPath m).node m = some (.file ref) := by
    rw [Tree.enter, Tree.node_set_of_ne _ _ hmc]
    exact hnode
  have hold : (v'.inode m).type = typeFile ∧ (v'.inode m).ref = ref := hr'.node m _ hnode₂
  refine ⟨fs'', hln, _, hs', hr'.setInode _ hnode₂ hsame.direct
    (fun h => h.same ⟨hindex.indirect, hindex.doubleIndirect⟩) ⟨?_, ?_⟩⟩
  · simp only [Function.update_self]
    exact hsame.type.trans hold.1
  · simp only [Function.update_self, hsame.ref, hold.2]

/-- One more entry for a directory. -/
lemma Resolved.doLn_dir {es' : List Entry} (hdir : nd = .dir es') (hdst : 0 ∉ dstPath)
    (hlen : dstPath.length ≤ 27) (hroom : HasRoom es dstPath) :
    ∃ fs'', fs.doLn path dstPath = some (0, fs'') ∧ fs''.Stores (t.enter dstPath m) := by
  obtain ⟨fs'', v', y, hln, hs', hr', hsame, hindex⟩ :=
    r.doLn_written hne hc hnode hdst hlen hroom
  subst hdir
  obtain ⟨es'', hnode₂⟩ : ∃ es'', (t.enter dstPath m).node m = some (.dir es'') := by
    by_cases hmc : m = t.cwd
    · subst hmc
      exact ⟨_, Tree.node_set_self _ _ _⟩
    · exact ⟨es', by rw [Tree.enter, Tree.node_set_of_ne _ _ hmc]; exact hnode⟩
  have hold : DirAt v' m es'' := hr'.node m _ hnode₂
  have hset := hr'.setInode (.dir es'') hnode₂ (x := { y with ref := (y.ref + 1) % 2 ^ 32 })
    hsame.direct (fun h => h.same ⟨hindex.indirect, hindex.doubleIndirect⟩) ?_
  · rw [Tree.set, ← hnode₂, Function.update_eq_self] at hset
    exact ⟨fs'', hln, _, hs', hset⟩
  · refine hold.congr ?_ (fun i hi => ?_) rfl
    · simp only [Function.update_self]
      exact hsame.type
    · simp only [Function.update_self]
      exact hsame.direct i hi

end Resolved

section Ln

variable {dstPath : List UInt8} (h : fs.Stores t) (hc : t.node t.cwd = some (.dir es))
  (hpath : 0 ∉ path) (hplain : Plain es path) (hclosed : t.Closed es)
include h hc hpath hplain hclosed

lemma Stores.doLn_none (hne : path ≠ dstPath)
    (hm : lookup es t.cwd path = none ∨ lookup es t.cwd path = some 0) :
    fs.doLn path dstPath = none := by
  rcases hm with hm | hm
  · rw [Fs.doLn, if_neg hne, h.parsePath_none hc hpath hplain hclosed hm]
    rfl
  · obtain ⟨v, fs', r⟩ := h.resolved hc hpath hplain hclosed hm
    exact r.doLn_none hne rfl

lemma Stores.doLn_full {m : ℕ} {nd : Node} (hne : path ≠ dstPath)
    (hm : lookup es t.cwd path = some m) (hnode : t.node m = some nd)
    (hroom : ¬ HasRoom es dstPath) : fs.doLn path dstPath = none := by
  obtain ⟨v, fs', r⟩ := h.resolved hc hpath hplain hclosed hm
  exact r.doLn_full hne hc hnode hroom

/-- One more entry for the source, and one more link when it is a file. -/
lemma Stores.doLn {m : ℕ} {nd : Node} (hne : path ≠ dstPath) (hm : lookup es t.cwd path = some m)
    (hnode : t.node m = some nd) (href : ∀ ref, nd = .file ref → ref + 1 < 2 ^ 32)
    (hdst : 0 ∉ dstPath) (hlen : dstPath.length ≤ 27) (hroom : HasRoom es dstPath) :
    ∃ fs', fs.doLn path dstPath = some (0, fs') ∧ fs'.Stores ((t.enter dstPath m).bump m) := by
  obtain ⟨v, fs', r⟩ := h.resolved hc hpath hplain hclosed hm
  cases nd with
  | file ref =>
    obtain ⟨fs'', hln, hst⟩ := r.doLn_file hne hc hnode rfl hdst hlen hroom
    have hmc : m ≠ t.cwd := by
      rintro rfl
      rw [hc] at hnode
      cases hnode
    have hnode₂ : (t.enter dstPath m).node m = some (.file ref) := by
      rw [Tree.enter, Tree.node_set_of_ne _ _ hmc]
      exact hnode
    rw [Nat.mod_eq_of_lt (href ref rfl)] at hst
    rw [Tree.bump, hnode₂]
    exact ⟨fs'', hln, hst⟩
  | dir es' =>
    obtain ⟨fs'', hln, hst⟩ := r.doLn_dir hne hc hnode rfl hdst hlen hroom
    obtain ⟨es'', hnode₂⟩ : ∃ es'', (t.enter dstPath m).node m = some (.dir es'') := by
      by_cases hmc : m = t.cwd
      · subst hmc
        exact ⟨_, Tree.node_set_self _ _ _⟩
      · exact ⟨es', by rw [Tree.enter, Tree.node_set_of_ne _ _ hmc]; exact hnode⟩
    rw [Tree.bump, hnode₂]
    exact ⟨fs'', hln, hst⟩

end Ln

/-! ## `do_rm` and `do_rmdir` -/

/-- A call that ends with 0 when its last step returns. -/
lemma bind_success (r : Option Fs) :
    (r.bind fun f => some ((0 : ℤ), f)) = r.map fun f => ((0 : ℤ), f) := by
  cases r <;> rfl

/-- What is left of `do_rm` behind the walk for the entry. -/
lemma doRm_found {fs₁ fs₂ : Fs} {m : ℤ} {x y : Inode} {b j ref : ℕ}
    (hparse : fs.parsePath path fs.cwdInum = some (m, fs₁)) (hm : m ≠ 0)
    (hy : fs₁.readInode m = some y) (hfile : y.type = typeFile)
    (hx : fs₁.readInode fs₁.cwdInum = some x)
    (hscan : fs₁.scanBlocks x (isNamed path) never 0 0 ndirectBlocks = some (.hit j, b, fs₂))
    (href : ref = (y.ref + (2 ^ 32 - 1)) % 2 ^ 32) :
    fs.doRm path =
      if ref > 0 then
        (((fs₂.clearValid j).writeBlock b).writeInode m { y with ref := ref }).map
          fun f => ((0 : ℤ), f)
      else
        (((((fs₂.clearValid j).writeBlock b).freeInode m).bind fun f =>
          f.freeDirect { y with ref := ref } 0 ndirectBlocks)).map fun f => ((0 : ℤ), f) := by
  unfold Fs.doRm
  rw [hparse]
  simp only [Option.bind_eq_bind, Option.bind_some, hy]
  rw [← href, if_neg hm, if_neg (not_not.2 hfile)]
  simp only [Option.bind_some, hx, hscan]
  clear href
  by_cases hpos : ref > 0
  · rw [if_pos hpos, if_pos hpos]
    exact bind_success _
  · rw [if_neg hpos, if_neg hpos, ← bind_success, Option.bind_assoc]

section Rm

/-- The entry found is cleared and its block written. -/
lemma Opened.unlink {x : Inode} {b j : ℕ} (o : fs.Opened v t.cwd es x b) (hr : Represents v t)
    (hc : t.node t.cwd = some (.dir es)) (hj : j < es.length) :
    ∃ v', (((fs.readBlock b).clearValid j).writeBlock b).Shows v' ∧ Represents v' (t.unlink j) ∧
      v'.inode = v.inode := by
  have hbuf := o.buf.clear hj
  have hs := (o.shows.setBlockBuf
    (Function.update (fs.readBlock b).blockBuf (sizeofDentry * j) 0)).writeBlock o.data
  refine ⟨_, hs, ?_, rfl⟩
  have hr' := hr.setEntries hc hbuf
  rw [o.block] at hr'
  rw [Tree.unlink, Tree.entries_of_node hc]
  exact hr'

/-- An inode is freed with its blocks. -/
lemma Shows.freeNode {m : ℕ} {nd : Node} {y : Inode} (hs : fs.Shows v) (hr : Represents v t)
    (hnode : t.node m = some nd)
    (hy : ∀ i < ndirectBlocks, y.direct i = (v.inode m).direct i) :
    ∃ f fs', fs.freeInode m = some f ∧ f.freeDirect y 0 ndirectBlocks = some fs' ∧
      fs'.Stores (t.set m none) := by
  have hmem := hr.mem_imap hnode
  obtain ⟨f, hfree, hsf⟩ := hs.freeInode (hs.nodeBounds hr hnode)
  have hdirect : ∀ i, 0 ≤ i → i < 0 + ndirectBlocks →
      y.direct i = 0 ∨ Handed nblocks (y.direct i) := by
    intro i _ hi
    rw [Nat.zero_add] at hi
    rw [hy i hi]
    by_cases h0 : (v.inode m).direct i = 0
    · exact .inl h0
    · exact .inr (hs.bmap_handed _ (hr.owned m hmem i hi h0).1)
  obtain ⟨fs', hfs', hs'⟩ := hsf.freeDirect hdirect
  have hblocks : directBlocks y 0 ndirectBlocks = directBlocks (v.inode m) 0 ndirectBlocks := by
    ext c
    refine exists_congr fun i => and_congr_right fun _ => and_congr_right fun hi => ?_
    rw [hy i (by omega)]
  rw [hblocks] at hs'
  exact ⟨f, fs', hfree, hfs', _, hs', hr.erase hmem⟩

end Rm

section Resolved

variable {fs' : Fs} {m : ℕ} (r : Resolved fs fs' v t path m)
include r

lemma Resolved.doRm_refused (hnode : m = 0 ∨ ∃ es', t.node m = some (.dir es')) :
    fs.doRm path = some (1, fs') := by
  rw [Fs.doRm, r.parse]
  simp only [Option.bind_eq_bind, Option.bind_some]
  rcases hnode with rfl | ⟨es', hnode⟩
  · rfl
  · obtain ⟨-, hm, y, hy, hsame, -⟩ := r.node hnode
    rw [if_neg hm, hy, Option.bind_some, if_pos]
    rw [ne_eq, r.represents.type_eq_file hnode hsame]
    rintro ⟨ref, heq⟩
    cases heq

/-- The first entry with the name goes, and one link of the file, by a 32-bit number. -/
lemma Resolved.doRm {j ref : ℕ} (hc : t.node t.cwd = some (.dir es)) (hpath : 0 ∉ path)
    (hnode : t.node m = some (.file ref)) (hfirst : firstNamed es path = some j) :
    ∃ fs'', fs.doRm path = some (0, fs'') ∧ ref < 2 ^ 32 ∧
      fs''.Stores ((t.unlink j).set m
        (if ref = 1 then none else some (.file ((ref + (2 ^ 32 - 1)) % 2 ^ 32)))) := by
  obtain ⟨hhanded, hm, y, hy, hsame, hfits⟩ := r.node hnode
  obtain ⟨x, b, o, hx, -⟩ := r.cwd hc
  obtain ⟨hj, -, -⟩ := firstNamed_eq_some.1 hfirst
  have hold : (v.inode m).type = typeFile ∧ (v.inode m).ref = ref := r.represents.node m _ hnode
  have hscan := o.scan_hit never hpath hfirst fun _ _ => rfl
  have hyref : y.ref = ref := hsame.ref.trans hold.2
  have hlt : ref < 2 ^ 32 := hyref ▸ hfits.ref
  obtain ⟨k, hk⟩ : ∃ k, k = (ref + (2 ^ 32 - 1)) % 2 ^ 32 := ⟨_, rfl⟩
  have hrm := doRm_found r.parse hm hy (hsame.type.trans hold.1) hx hscan (hyref.symm ▸ hk)
  obtain ⟨v₂, hs₂, hr₂, hinode⟩ := o.unlink r.represents hc hj
  have hmc : m ≠ t.cwd := by
    rintro rfl
    rw [hc] at hnode
    cases hnode
  have hnode₂ : (t.unlink j).node m = some (.file ref) := by
    rw [Tree.unlink, Tree.node_set_of_ne _ _ hmc]
    exact hnode
  rw [hrm, ← hk]
  split
  · rename_i hpos
    have hfits' : Inode.Fits { y with ref := k } :=
      ⟨hfits.type, by show k < 2 ^ 32; omega, hfits.direct⟩
    obtain ⟨fs'', hwrite, hs'⟩ := hs₂.writeInode hhanded.1 hhanded.2.1 hfits'
    refine ⟨fs'', by rw [hwrite]; rfl, hlt, _, hs', ?_⟩
    rw [if_neg (by omega)]
    have hindex := r.after.readInode_index hhanded.1 hhanded.2.1 hy
    refine hr₂.setInode (.file k) hnode₂ (by rw [hinode]; exact hsame.direct)
      (fun h => ?_) ⟨?_, ?_⟩
    · rw [hinode] at h
      exact h.same ⟨hindex.indirect, hindex.doubleIndirect⟩
    · simp only [Function.update_self]
      exact hsame.type.trans hold.1
    · simp only [Function.update_self]
  · rename_i hzero
    obtain ⟨f, fs'', hfree, hdirect, hstores⟩ := hs₂.freeNode hr₂ hnode₂
      (y := { y with ref := k }) (by rw [hinode]; exact hsame.direct)
    refine ⟨fs'', by rw [hfree, Option.bind_some, hdirect]; rfl, hlt, ?_⟩
    rw [if_pos (by omega)]
    exact hstores

/-- A path that leads nowhere. -/
lemma Resolved.doRmdir_none (hc : t.node t.cwd = some (.dir es)) (hm : m = 0) :
    fs.doRmdir path = none := by
  subst hm
  obtain ⟨x, b, -, -, hx⟩ := r.cwd hc
  rw [Fs.doRmdir, r.parse]
  simp only [Option.bind_eq_bind, Option.bind_some, hx, Nat.cast_zero,
    readInode_zero r.after.superblock, Option.bind_none]

lemma Resolved.doRmdir_refused {ref : ℕ} (hc : t.node t.cwd = some (.dir es))
    (hnode : t.node m = some (.file ref)) : fs.doRmdir path = some (1, fs') := by
  obtain ⟨-, -, y, hy, hsame, -⟩ := r.node hnode
  obtain ⟨x, b, -, -, hx⟩ := r.cwd hc
  rw [Fs.doRmdir, r.parse]
  simp only [Option.bind_eq_bind, Option.bind_some, hx, hy]
  rw [if_pos ((r.represents.type_eq_file hnode hsame).2 ⟨ref, rfl⟩)]

/-- The first entry with the name goes, and the inode the path leads to is freed. -/
lemma Resolved.doRmdir {j : ℕ} {es' : List Entry} (hc : t.node t.cwd = some (.dir es))
    (hpath : 0 ∉ path) (hnode : t.node m = some (.dir es')) (hfirst : firstNamed es path = some j) :
    ∃ fs'', fs.doRmdir path = some (0, fs'') ∧ fs''.Stores ((t.unlink j).set m none) := by
  obtain ⟨-, -, y, hy, hsame, -⟩ := r.node hnode
  obtain ⟨x, b, o, -, hx⟩ := r.cwd hc
  obtain ⟨hj, -, -⟩ := firstNamed_eq_some.1 hfirst
  have hscan := o.scan_hit (fun buf i _ => isUnused buf i i) hpath hfirst fun i hi =>
    o.isUnused_of_lt (Nat.zero_lt_of_lt hj) 0
  have hdir : ¬ y.type = typeFile := by
    rw [r.represents.type_eq_file hnode hsame]
    rintro ⟨ref, heq⟩
    cases heq
  obtain ⟨v₂, hs₂, hr₂, hinode⟩ := o.unlink r.represents hc hj
  obtain ⟨nd, hnode₂⟩ : ∃ nd, (t.unlink j).node m = some nd := by
    by_cases hmc : m = t.cwd
    · subst hmc
      exact ⟨_, Tree.node_set_self _ _ _⟩
    · exact ⟨_, (Tree.node_set_of_ne _ _ hmc).trans hnode⟩
  obtain ⟨f, fs'', hfree, hdirect, hstores⟩ := hs₂.freeNode hr₂ hnode₂
    (y := y) (by rw [hinode]; exact hsame.direct)
  refine ⟨fs'', ?_, hstores⟩
  rw [Fs.doRmdir, r.parse]
  simp only [Option.bind_eq_bind, Option.bind_some, hx, hy, if_neg hdir, hscan]
  rw [hfree, Option.bind_some, hdirect]
  rfl

/-- The walk for a name that the directory has not. -/
lemma Resolved.doRmdir_unnamed {es' : List Entry} (hc : t.node t.cwd = some (.dir es))
    (hpath : 0 ∉ path) (hnode : t.node m = some (.dir es')) (hnone : firstNamed es path = none) :
    fs.doRmdir path = none ∨ ∃ fs'', fs.doRmdir path = some (1, fs'') ∧ fs''.Stores t := by
  obtain ⟨-, -, y, hy, hsame, -⟩ := r.node hnode
  obtain ⟨x, b, o, -, hx⟩ := r.cwd hc
  have hscan := o.scan_endless hpath hnone
  have hdir : ¬ y.type = typeFile := by
    rw [r.represents.type_eq_file hnode hsame]
    rintro ⟨ref, heq⟩
    cases heq
  by_cases hnil : es = []
  · refine .inr ⟨fs'.readBlock b, ?_, v, o.shows, r.represents⟩
    rw [if_pos hnil] at hscan
    rw [Fs.doRmdir, r.parse]
    simp only [Option.bind_eq_bind, Option.bind_some, hx, hy, if_neg hdir, hscan]
  · refine .inl ?_
    rw [if_neg hnil] at hscan
    rw [Fs.doRmdir, r.parse]
    simp only [Option.bind_eq_bind, Option.bind_some, hx, hy, if_neg hdir, hscan, Option.bind_none]

end Resolved

section Rm

variable (h : fs.Stores t) (hc : t.node t.cwd = some (.dir es))
  (hpath : 0 ∉ path) (hplain : Plain es path) (hclosed : t.Closed es)
include h hc hpath hplain hclosed

lemma Stores.doRm_none (hm : lookup es t.cwd path = none) : fs.doRm path = none := by
  rw [Fs.doRm, h.parsePath_none hc hpath hplain hclosed hm]
  rfl

lemma Stores.doRm_refused {m : ℕ} (hm : lookup es t.cwd path = some m)
    (hnode : m = 0 ∨ ∃ es', t.node m = some (.dir es')) :
    ∃ fs', fs.doRm path = some (1, fs') ∧ fs'.Stores t := by
  obtain ⟨v, fs', r⟩ := h.resolved hc hpath hplain hclosed hm
  exact ⟨fs', r.doRm_refused hnode, r.stores⟩

/-- The first entry with the name goes, and one link of the file. -/
lemma Stores.doRm {m j ref : ℕ} (hm : lookup es t.cwd path = some m)
    (hnode : t.node m = some (.file ref)) (href : 1 ≤ ref) (hfirst : firstNamed es path = some j) :
    ∃ fs', fs.doRm path = some (0, fs') ∧ fs'.Stores ((t.unlink j).drop m) := by
  obtain ⟨v, fs', r⟩ := h.resolved hc hpath hplain hclosed hm
  obtain ⟨fs'', hrm, hlt, hst⟩ := r.doRm hc hpath hnode hfirst
  have hmc : m ≠ t.cwd := by
    rintro rfl
    rw [hc] at hnode
    cases hnode
  have hnode₂ : (t.unlink j).node m = some (.file ref) := by
    rw [Tree.unlink, Tree.node_set_of_ne _ _ hmc]
    exact hnode
  refine ⟨fs'', hrm, ?_⟩
  rw [Tree.drop, hnode₂]
  dsimp only
  by_cases hone : ref = 1
  · rw [if_pos hone] at hst
    rw [if_pos (by omega)]
    exact hst
  · rw [if_neg hone, show (ref + (2 ^ 32 - 1)) % 2 ^ 32 = ref - 1 by omega] at hst
    rw [if_neg (by omega)]
    exact hst

/-- A path that leads nowhere. -/
lemma Stores.doRmdir_none
    (hm : lookup es t.cwd path = none ∨ lookup es t.cwd path = some 0) :
    fs.doRmdir path = none := by
  rcases hm with hm | hm
  · rw [Fs.doRmdir, h.parsePath_none hc hpath hplain hclosed hm]
    rfl
  · obtain ⟨v, fs', r⟩ := h.resolved hc hpath hplain hclosed hm
    exact r.doRmdir_none hc rfl

lemma Stores.doRmdir_refused {m ref : ℕ} (hm : lookup es t.cwd path = some m)
    (hnode : t.node m = some (.file ref)) :
    ∃ fs', fs.doRmdir path = some (1, fs') ∧ fs'.Stores t := by
  obtain ⟨v, fs', r⟩ := h.resolved hc hpath hplain hclosed hm
  exact ⟨fs', r.doRmdir_refused hc hnode, r.stores⟩

/-- The first entry with the name goes, and the inode it leads to is freed. -/
lemma Stores.doRmdir {m j : ℕ} {es' : List Entry} (hm : lookup es t.cwd path = some m)
    (hnode : t.node m = some (.dir es')) (hfirst : firstNamed es path = some j) :
    ∃ fs', fs.doRmdir path = some (0, fs') ∧ fs'.Stores ((t.unlink j).set m none) := by
  obtain ⟨v, fs', r⟩ := h.resolved hc hpath hplain hclosed hm
  exact r.doRmdir hc hpath hnode hfirst

end Rm

end Calls

end Fs
end UcasKernel
