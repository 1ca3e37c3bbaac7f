/-
Where file data lands.

`offset_to_blk` and `set_inode_blk_num` follow the index blocks of a file without a look at
whether they are there, and an index block 0 is block 0 of the card, the one with the
superblock.  As long as every write stays in cells whose index blocks are there, and in none
that has the block of a directory, `do_fwrite` writes sectors of the block map, the sector of
the inode and blocks of the file only, and block 0 is no index block.
-/
import UcasKernel.Fs.Creation

namespace UcasKernel
namespace Fs

open Logged

/-! ## Blocks of files and of directories -/

/-- Block `b` is that of a directory in use. -/
def DirBlock (s : History) (b : ℕ) : Prop :=
  ∃ m x, s.Allocated m ∧ s.fs.readInode m = some x ∧ x.type = typeDirectory ∧ x.direct 0 = b

/-- The sectors of the block map, the sector of inode `n`, and those of the blocks of its
file. -/
def FileSector (s : History) (n i : ℕ) : Prop :=
  bmapSector ≤ i ∧ i < imapSector ∨ i = inodeSector + (n - 1) / 8 ∨
    ∃ b slot, DataBlock b ∧ s.fs.Owns n slot b ∧ ¬ DirBlock s b ∧
      0x100000 + 8 * b ≤ i ∧ i < 0x100000 + 8 * b + nsectorsPerBlock

/-- What `do_fwrite` may do on the card, where `s` is the state after it. -/
def Confined (s : History) (n : ℕ) : Access → Prop
  | .readIndex b | .writeIndex b => b ≠ 0
  | .write k sector => ∀ i, sector ≤ i → i < sector + k → FileSector s n i

/-- A call of `do_fwrite` on a file returns, and what it does is confined to the file. -/
def WriteConfined (s : History) : Event → Prop
  | .call (.fwrite fd buff length) =>
    ∀ d x, s.fs.fdesc fd = some d → s.Allocated d.inum.toNat → s.fs.readInode d.inum = some x →
      x.type = typeFile → ∃ r fs', s.fs.doFwrite fd buff length = some (r, fs') ∧
        (s.fs.doFwriteA fd buff length).All (Confined ⟨fs', s.returned⟩ d.inum.toNat)
  | _ => True

/-- The index blocks on the way to a cell are there, and its block is not that of a
directory. -/
def Cell.Usable (s : History) (x : Inode) (c : Cell) : Prop :=
  (∀ p ∈ c.path, p.block s.fs x ≠ 0) ∧ ¬ DirBlock s (c.value s.fs x)

/-- The descriptor is of a file in use, and every cell of the request can be used. -/
def WritesInFile (s : History) (d : Fdesc) (length : ℤ) : Prop :=
  ∃ x, s.Allocated d.inum.toNat ∧ s.fs.readInode d.inum = some x ∧ x.type = typeFile ∧
    ∀ c ∈ requestCells (d.offset % 2 ^ 32) length, c.Usable s x

/-- A write in cells that can be used, or another event whose inode numbers come from inodes
in use. -/
def InFile (s : History) : Event → Prop
  | .call (.fwrite fd _ length) =>
    ∀ d, s.fs.fdesc fd = some d → d.write = true → WritesInFile s d length
  | e => Resolvable s e

/-! ## On the card -/

section Card

variable {s : History} {t : Tree} {v : Volume} {x : Inode} {c : Cell} {b n : ℕ}

/-- The blocks of the directories of the tree. -/
lemma Tracks.spares_iff (h : Tracks s t) (hs : s.fs.Shows v) (hr : Represents v t) :
    t.Spares v b ↔ ¬ DirBlock s b := by
  constructor
  · rintro hspares ⟨m, y, hall, hy, htype, rfl⟩
    obtain ⟨es, hm⟩ := h.dir hall hy htype
    obtain ⟨h1, h2, -⟩ := hs.nodeBounds hr hm
    obtain ⟨y', hy', hsame, -⟩ := hs.readInode h1 h2
    obtain rfl := Option.some.inj (hy.symm.trans hy')
    exact hspares m es hm (hsame.direct 0 (by decide)).symm
  · rintro hnot m es hm rfl
    obtain ⟨h1, h2, -⟩ := hs.nodeBounds hr hm
    obtain ⟨y, hy, hsame, -⟩ := hs.readInode h1 h2
    have hat : DirAt v m es := hr.node m _ hm
    refine hnot ⟨m, y, (h.allocated_iff m).2 ?_, hy, hsame.type.trans hat.type,
      hsame.direct 0 (by decide)⟩
    rw [hm]
    exact Option.some_ne_none _

/-- A cell whose index blocks are there is covered. -/
lemma Shows.covered {fs : Fs} (hs : fs.Shows v) (hix : Indexes v) (hat : x.IndexAt)
    (hc : ∀ p ∈ c.path, p.block fs x ≠ 0) : c.Covered x := by
  cases c with
  | direct i => trivial
  | indirect i => exact hc .indirect rfl
  | double i j =>
    have hdouble : x.doubleIndirect ≠ 0 := hc .double (.inl rfl)
    have hsecond : Bytes.get32 (fs.block x.doubleIndirect) (4 * i) ≠ 0 := hc _ (.inr rfl)
    rw [hat.doubleIndirect_eq hdouble, hs.second hix i.2] at hsecond
    exact ⟨hdouble, of_not_not fun hi => hsecond (if_neg hi)⟩

/-- The block in a covered cell. -/
lemma Shows.cell_value {fs : Fs} (hs : fs.Shows v) (hix : Indexes v) (hat : x.IndexAt)
    (hc : c.Covered x) : c.value fs x = v.cell x c := by
  cases c with
  | direct i => rfl
  | indirect i =>
    show Bytes.get32 (fs.block x.indirect) (4 * i) = v.entry 82 i
    rw [hat.indirect_eq hc]
    exact hs.entry (dataBlock_index (by decide)) i.2
  | double i j =>
    obtain ⟨hdouble, hi⟩ := hc
    show Bytes.get32 (fs.block (Bytes.get32 (fs.block x.doubleIndirect) (4 * i))) (4 * j) =
      v.entry 1108 j
    rw [hat.doubleIndirect_eq hdouble, hs.second hix i.2, if_pos hi]
    exact hs.entry (dataBlock_index (by decide)) j.2

/-- An entry of an index block of the image. -/
lemma Shows.blockEntry {fs : Fs} (hs : fs.Shows v) (hb : b ∈ imageIndex) {k : ℕ}
    (hk : k < nindirectBlocks) : fs.blockEntry b k = v.entry b k := by
  have hdata := dataBlock_index hb
  have hne : b ≠ 0 := by
    have := hdata.1
    omega
  rw [Fs.blockEntry, if_neg hne, readBlock_block hs.superblock hdata.2]
  exact hs.entry hdata hk

/-- A block of the file is owned by its inode. -/
lemma HasBlock.owns {fs : Fs} (hb : HasBlock v t x b) (hs : fs.Shows v) (hix : Indexes v)
    (hat : x.IndexAt) (hall : fs.inodeAllocated n) (hx : fs.readInode n = some x) :
    ∃ slot, fs.Owns n slot b := by
  have hfirst : fs.blockEntry 1107 0 = 1108 :=
    (hs.blockEntry (by decide) (by decide)).trans ((hix.double 0 (by decide)).trans (if_pos rfl))
  rcases hb with ⟨c, hc, rfl, hfile, -⟩ | ⟨rfl, hdouble⟩
  · have hne : v.cell x c ≠ 0 := by
      have := hfile.1.1
      omega
    cases c with
    | direct i => exact ⟨.direct i, hall, hne, x, hx, rfl⟩
    | indirect i =>
      refine ⟨.indirectEntry i, hall, hne, x, hx, ?_⟩
      rw [slotBlock, hat.indirect_eq hc]
      exact hs.blockEntry (by decide) i.2
    | double i j =>
      obtain ⟨hdouble, hi⟩ := hc
      refine ⟨.secondEntry i j, hall, hne, x, hx, ?_⟩
      rw [slotBlock, hat.doubleIndirect_eq hdouble, hi, hfirst]
      exact hs.blockEntry (by decide) j.2
  · refine ⟨.doubleEntry ⟨0, by decide⟩, hall, by decide, x, hx, ?_⟩
    rw [slotBlock, hat.doubleIndirect_eq hdouble]
    exact hfirst

/-- What lands in the file is confined to it. -/
lemma Lands.confined (h : Tracks s t) (hs : s.fs.Shows v) (hr : Represents v t) (hix : Indexes v)
    (hat : x.IndexAt) (hall : s.Allocated n) (hx : s.fs.readInode n = some x) {a : Access}
    (ha : Lands v t n x a) : Confined s n a := by
  have hindex : ∀ c ∈ imageIndex, c ≠ 0 := by decide
  cases a with
  | readIndex c | writeIndex c => exact hindex c ha
  | write k sector =>
    intro i hle hlt
    rcases ha with ⟨rfl, hsector⟩ | ⟨rfl, b, rfl, hb⟩
    · obtain rfl : i = sector := by omega
      exact hsector.imp_right .inl
    · obtain ⟨slot, howns⟩ := hb.owns hs hix hat hall.2 hx
      refine .inr (.inr ⟨b, slot, ?_, howns, ?_, hle, hlt⟩)
      · rcases hb with ⟨-, -, -, hfile, -⟩ | ⟨rfl, -⟩
        · exact hfile.1
        · exact dataBlock_index (by decide)
      · refine (h.spares_iff hs hr).1 ?_
        rcases hb with ⟨-, -, -, -, hspares⟩ | ⟨rfl, -⟩
        · exact hspares
        · intro m es hm heq
          have happart := hix.apart m (hr.mem_imap hm) 0 (by decide)
          rw [heq] at happart
          exact happart (by decide)

/-- The copy of the inode that is read from the card. -/
lemma Writing.reread {fs : Fs} {C : Set Cell} (w : Writing fs v t n x C) :
    ∃ y, fs.readInode n = some y ∧ y.IndexAt ∧ Kept n v x v y := by
  obtain ⟨y, hy, hsame, -⟩ := w.shows.readInode w.handed.1 w.handed.2
  have hindex := w.shows.readInode_index w.handed.1 w.handed.2 hy
  have hindirect : y.indirect = x.indirect := hindex.indirect.trans w.sameIndex.indirect.symm
  have hdouble : y.doubleIndirect = x.doubleIndirect :=
    hindex.doubleIndirect.trans w.sameIndex.doubleIndirect.symm
  refine ⟨y, hy, (w.indexes.inode n w.mem_imap).same hindex, fun c _ => ?_, fun _ _ => rfl,
    hindirect, hdouble⟩
  cases c with
  | direct i => exact (hsame.direct i i.2).trans (w.same.direct i i.2).symm
  | indirect i | double i j => rfl

end Card

/-! ## One write -/

section Write

variable {s s' : History} {t : Tree} {d : Fdesc} {fd length : ℤ} {x : Inode}

/-- A write in cells that can be used: it is confined, and the tree gets only a new offset. -/
lemma Formatted.fwrite (h : Formatted s t) (hfd : s.fs.fdesc fd = some d) (hwrite : d.write = true)
    (hall : s.Allocated d.inum.toNat) (hx : s.fs.readInode d.inum = some x)
    (htype : x.type = typeFile)
    (hC : ∀ c ∈ requestCells (d.offset % 2 ^ 32) length, c.Usable s x) (buff : Bytes) :
    ∃ r fs' y, s.fs.doFwrite fd buff length = some (r, fs') ∧
      (s.fs.doFwriteA fd buff length).All (Confined ⟨fs', s.returned⟩ d.inum.toNat) ∧
      Formatted ⟨fs', s.returned⟩ (t.setFdesc fd.toNat (d.advance length)) ∧
      fs'.readInode d.inum = some y ∧ y.indirect = x.indirect := by
  have hnum := h.fdesc hfd
  obtain ⟨hcast, ref, hnode⟩ := h.openFile hnum.nonneg hall hx htype
  obtain ⟨v, hs, hr⟩ := h.tracks.stores
  have hix := hr.index h.indexed
  obtain ⟨h1, h2, -⟩ := hs.nodeBounds hr hnode
  have hx' : s.fs.readInode (d.inum.toNat : ℕ) = some x := by rw [hcast, hx]
  have hat := (hix.inode _ (hr.mem_imap hnode)).same (hs.readInode_index h1 h2 hx')
  have hcov : ∀ c ∈ requestCells (d.offset % 2 ^ 32) length, c.Covered x := fun c hc =>
    hs.covered hix hat (hC c hc).1
  obtain ⟨r, fs', v', y, hret, w, hkept⟩ := doFwriteA_returns hs hr h.indexed hfd hwrite hcast.symm
    hnode hx' buff hcov fun c hc => by
      rw [← hs.cell_value hix hat (hcov c hc)]
      exact (h.tracks.spares_iff hs hr).2 (hC c hc).2
  obtain ⟨z, hz, hzat, hkept'⟩ := w.reread
  have h' : Formatted ⟨fs', s.returned⟩ (t.setFdesc fd.toNat (d.advance length)) :=
    h.setFdesc ⟨v', w.shows, w.represents⟩ fun _ => ⟨hnum.nonneg, hnum.le, hnum.closed⟩
  have hall' : History.Allocated ⟨fs', s.returned⟩ d.inum.toNat :=
    (h'.tracks.allocated_iff _).2 ((h.tracks.allocated_iff _).1 hall)
  refine ⟨r, fs', z, ?_, fun a ha => ?_, h', ?_, hkept'.indirect.trans hkept.indirect⟩
  · rw [← result_doFwriteA]
    exact hret.result
  · exact Lands.confined h'.tracks w.shows w.represents w.indexes hzat hall' hz
      (hkept'.lands w.file a (hret.all a ha))
  · rw [← hcast]
    exact hz

/-- Every write is confined. -/
lemma Formatted.writeConfined {e : Event} (h : Formatted s t) (hC : InFile s e) :
    WriteConfined s e := by
  cases e with
  | ls | cat | mkfs | resume => trivial
  | call call =>
    cases call with
    | fwrite fd buff length =>
      intro d x hfd hall hx htype
      by_cases hwrite : d.write = true
      · obtain ⟨y, -, hy, -, hcells⟩ := hC d hfd hwrite
        obtain rfl := Option.some.inj (hx.symm.trans hy)
        obtain ⟨r, fs', -, hcall, hlog, -⟩ := h.fwrite hfd hwrite hall hx htype hcells buff
        exact ⟨r, fs', hcall, hlog⟩
      · have hdenied := @doFwriteA_denied _ _ _ length
          (Confined ⟨s.fs, s.returned⟩ d.inum.toNat) hfd hwrite buff
        refine ⟨-1, s.fs, ?_, hdenied.all⟩
        rw [← result_doFwriteA]
        exact hdenied.result
    | mkdir | rmdir | touch | rm | ln | cd | fopen | fread | fclose | lseek => trivial

/-- An event keeps the card formatted. -/
lemma Formatted.next {e : Event} (h : Formatted s t) (hC : InFile s e)
    (hstep : s.next e = some s') : ∃ t', Formatted s' t' ∧ s.fs.Moves t e t' := by
  cases e with
  | ls | cat | mkfs | resume =>
    refine h.step ?_ hstep
    exact hC
  | call call =>
    cases call with
    | fwrite fd buff length =>
      obtain ⟨fs', hcall, rfl⟩ := History.of_step_old rfl hstep
      obtain ⟨⟨r, _⟩, hdo, rfl⟩ := Option.map_eq_some_iff.1 hcall
      obtain ⟨d, hfd, -⟩ := Option.bind_eq_some_iff.1 hdo
      by_cases hwrite : d.write = true
      · obtain ⟨x, hall, hx, htype, hcells⟩ := hC d hfd hwrite
        obtain ⟨r', fs', -, hdo', -, h', -⟩ := h.fwrite hfd hwrite hall hx htype hcells buff
        obtain ⟨-, rfl⟩ := Prod.mk.inj (Option.some.inj (hdo'.symm.trans hdo))
        obtain ⟨-, -, harray⟩ := fdesc_eq h.tracks.stores hfd
        exact ⟨_, h', .fdesc (.inr (.inl (by rw [harray]; rfl)))⟩
      · have hdenied := (@doFwriteA_denied _ _ _ length (fun _ => True) hfd hwrite buff).result
        rw [result_doFwriteA] at hdenied
        obtain ⟨-, rfl⟩ := Prod.mk.inj (Option.some.inj (hdenied.symm.trans hdo))
        exact ⟨t, h, .same _⟩
    | mkdir | rmdir | touch | rm | ln | cd | fopen | fread | fclose | lseek =>
      refine h.step ?_ hstep
      exact hC

end Write

/-! ## Runs -/

/-- From the state `do_mkfs` leaves, in every run whose writes stay in cells that can be
used, what `do_fwrite` does on a file is confined to it. -/
theorem file_writes_confined (fs₀ : Fs)
    (hclosed : ∀ i < numFdescs, fs₀.fdescArray i = Fdesc.zero) :
    ∃ fs, fs₀.doMkfs = some (0, fs) ∧
      ∀ events, Trace.StepsMeet History.next InFile ⟨fs, [1, 2]⟩ events →
        Trace.StepsMeet History.next WriteConfined ⟨fs, [1, 2]⟩ events := by
  obtain ⟨fs, hmkfs, hformatted⟩ := formatted_mkfs fs₀ hclosed
  refine ⟨fs, hmkfs, fun events hC => ?_⟩
  have hall : Trace.Always History.next (fun s => ∃ t, Formatted s t) ⟨fs, [1, 2]⟩ events := by
    refine Trace.always_of_invariant ?_ ⟨_, hformatted⟩ hC
    rintro s e s' ⟨t, h⟩ he hstep
    exact (h.next he hstep).imp fun _ h' => h'.1
  intro pre e post heq s hrun
  obtain ⟨t, h⟩ := hall pre (e :: post) heq s hrun
  exact h.writeConfined (hC pre e post heq s hrun)

/-! ## A new file -/

section NewFile

variable {fs : Fs} {s s' : History} {t : Tree} {es : List Entry} {path : Path} {n : ℕ} {x : Inode}

/-- The first descriptor is open for writing, at the beginning of a file without blocks. -/
structure NewFile (s : History) (n : ℕ) (x : Inode) : Prop where
  fdesc : s.fs.fdesc 0 = some ⟨n, false, true, 0⟩
  allocated : s.Allocated n
  inode : s.fs.readInode n = some x
  type : x.type = typeFile
  indirect : x.indirect = 0
  direct : ∀ i < ndirectBlocks, x.direct i = 0

/-- A file is made. -/
lemma Formatted.touch (h : Formatted s t) (hc : t.node t.cwd = some (.dir es)) (hname : Name path.1)
    (hlt : es.length < maxEntries) (hnone : firstNamed es path.1 = none)
    (hopen : s.fs.MapOpen imapSector 1) :
    ∃ n s' x, s.next (.call (.touch path)) = some s' ∧
      Formatted s' ((t.set n (some (.file 1))).enter path.1 n) ∧ PathInUse s' path ∧
      s'.fs.LeadsTo path.1 t.cwd n ∧ s'.Allocated n ∧ s'.fs.readInode n = some x ∧
      x.type = typeFile ∧ x.indirect = 0 ∧ ∀ i < ndirectBlocks, x.direct i = 0 := by
  have hlen : path.1.length ≤ dentryNameLen := hname.2.1.trans (by decide)
  obtain ⟨n, fs', htouch, hn, hfresh, hhanded, hst'⟩ :=
    h.tracks.stores.doTouch hc path.2 hlen hnone hopen (hname.hasRoom hlt)
  have hstep : s.next (.call (.touch path)) = some ⟨fs', n :: s.returned⟩ := by
    rw [History.next, History.step_touch htouch, if_pos rfl, hn]
    rfl
  have hedits : s.fs.Edits t (.touch path) _ := .touch hc hnone hfresh hhanded
  have hcreate : ((t.set n (some (.file 1))).enter path.1 n).node t.cwd =
      some (.dir (es ++ [⟨true, n, path.1⟩])) := Tree.node_create hc hfresh
  have hleads := hst'.leadsTo_new hcreate path.2 hname hnone hhanded
  have hentries := h.entries.edits hedits fun k hk => (h.tracks.stores.handed hk).2.1
  have htracks := h.tracks.created ⟨es, hc⟩ hfresh hhanded hst'
  have hall : History.Allocated ⟨fs', n :: s.returned⟩ n := by
    refine (htracks.allocated_iff n).2 ?_
    have hcn : t.cwd ≠ n := by
      rintro rfl
      rw [hc] at hfresh
      cases hfresh
    rw [ne_eq, node_enter_eq_none ((Tree.node_set_of_ne _ _ hcn).trans hc), Tree.node_set_self]
    exact Option.some_ne_none _
  have hpath : PathInUse ⟨fs', n :: s.returned⟩ path := by
    refine ⟨htracks.cwdInUse hcreate, .inl hname.2.2, fun m fs'' hparse => .inr ?_⟩
    obtain ⟨fs₁, hparse'⟩ := hleads
    obtain ⟨v, hs, hr⟩ := hst'
    have hcwd : fs'.cwdInum = t.cwd := hs.cwdInum.trans hr.cwd
    rw [hcwd] at hparse
    obtain ⟨rfl, -⟩ := Prod.mk.inj (Option.some.inj (hparse'.symm.trans hparse))
    exact hall
  obtain ⟨v, hs, hr⟩ := h.tracks.stores
  obtain ⟨x₀, b, o, hx₀⟩ := hs.openedCwd hr hc
  obtain ⟨x, hx, htype, -, hindirect, hdirect⟩ :=
    o.touch_inode hs.superblock hx₀ path.2 hlen hnone hlt hn hhanded htouch
  exact ⟨n, _, x, hstep, ⟨⟨htracks, hentries, h.fdescs⟩, h.indexed⟩, hpath, hleads, hall, hx, htype,
    hindirect, hdirect⟩

/-- A file is opened for writing with the first descriptor. -/
lemma Formatted.open_first (h : Formatted s t) (hfree : t.fdescArray 0 = Fdesc.zero)
    (hleads : s.fs.LeadsTo path.1 t.cwd n) (hall : s.Allocated n) :
    ∃ buf, s.next (.call (.fopen path 2)) =
        some ⟨({ s.fs with blockBuf := buf } : Fs).setFdesc 0 ⟨n, false, true, 0⟩, s.returned⟩ ∧
      Formatted ⟨({ s.fs with blockBuf := buf } : Fs).setFdesc 0 ⟨n, false, true, 0⟩, s.returned⟩
        (t.setFdesc 0 ⟨n, false, true, 0⟩) := by
  obtain ⟨h1, h2, -⟩ := h.tracks.handed n hall.1
  obtain ⟨fs', hparse⟩ := hleads
  obtain ⟨v, hs, hr⟩ := h.tracks.stores
  have hcwd : s.fs.cwdInum = t.cwd := hs.cwdInum.trans hr.cwd
  rw [← hcwd] at hparse
  obtain ⟨buf, rfl⟩ : ∃ buf, fs' = { s.fs with blockBuf := buf } := ⟨_, parsePathLoop_readOnly hparse⟩
  have harray : s.fs.fdescArray 0 = Fdesc.zero := by
    rw [hs.fdescArray, hr.fdescArray]
    exact hfree
  have hfind : ((List.range numFdescs).find? fun i => (s.fs.fdescArray i).inum = 0) = some 0 := by
    rw [numFdescs, List.range_succ_eq_map, List.find?_cons_of_pos]
    rw [harray]
    decide
  have hst := Stores.setFdesc ⟨v, hs.setBlockBuf buf, hr⟩ 0 ⟨n, false, true, 0⟩
  refine ⟨buf, ?_, h.setFdesc hst fun _ => ?_⟩
  · rw [History.next]
    refine History.step_old ?_ rfl
    rw [syscall, doFopen, hparse]
    simp only [Option.bind_eq_bind, Option.bind_some]
    rw [if_neg (by omega), hfind]
    dsimp only
    rw [harray]
    rfl
  · exact ⟨by dsimp only; omega, by dsimp only; omega, fun h0 => by dsimp only at h0; omega⟩

/-- A file called `a` is made and opened for writing. -/
def openNew : List Event :=
  [.call (.touch ⟨[97], by decide⟩), .call (.fopen ⟨[97], by decide⟩ 2)]

/-- The calls on a freshly formatted empty card. -/
lemma newFile_openNew :
    ∃ fs s t n x, emptyCard.doMkfs = some (0, fs) ∧
      Trace.StepsMeet History.next InFile ⟨fs, [1, 2]⟩ openNew ∧
      Trace.run History.next ⟨fs, [1, 2]⟩ openNew = some s ∧ Formatted s t ∧ NewFile s n x := by
  obtain ⟨fs, hmkfs, h⟩ := formatted_mkfs emptyCard fun _ _ => rfl
  have hroot : (imageTree emptyCard.fdescArray).node (imageTree emptyCard.fdescArray).cwd =
    some (.dir (freshEntries 1 1 ++ [⟨true, 2, bigfileName⟩])) := rfl
  have hopen := h.tracks.stores.mapOpen_iff.2 ⟨3, ⟨by decide, by decide, by decide⟩, rfl⟩
  obtain ⟨path, hpath⟩ : ∃ path : Path, path = ⟨[97], by decide⟩ := ⟨_, rfl⟩
  have hname : Name path.1 := by
    rw [hpath]
    exact ⟨by decide, by decide, by decide⟩
  have hnone : firstNamed (freshEntries 1 1 ++ [(⟨true, 2, bigfileName⟩ : Entry)]) path.1 = none := by
    rw [hpath]
    decide
  obtain ⟨n, s₁, x, hstep₁, h₁, hp, hleads, hall, hx, htype, hindirect, hdirect⟩ :=
    h.touch hroot hname (by decide) hnone hopen
  obtain ⟨buf, hstep₂, h₂⟩ := h₁.open_first rfl hleads hall
  have hC : Trace.StepsMeet History.next InFile ⟨fs, [1, 2]⟩ openNew := by
    have hworks : WorksInUse ⟨fs, [1, 2]⟩ (.touch path) :=
      ⟨h.tracks.cwdInUse hroot, .inr (.inr hopen)⟩
    rw [openNew, ← hpath]
    refine Trace.stepsMeet_cons hworks fun s hs => ?_
    obtain rfl := Option.some.inj (hstep₁.symm.trans hs)
    exact Trace.stepsMeet_cons hp fun _ _ => Trace.stepsMeet_nil _ _
  refine ⟨fs, _, _, n, x, hmkfs, hC, ?_, h₂, rfl, hall, hx, htype, hindirect, hdirect⟩
  rw [openNew, ← hpath, Trace.run_cons, hstep₁, Option.bind_some, Trace.run_singleton]
  exact hstep₂

/-- The first ten blocks of the new file can be used. -/
lemma NewFile.usable (f : NewFile s n x) (h : Formatted s t) {length : ℤ}
    (hlen : length ≤ ndirectBlocks * nbytesPerBlock) {c : Cell} (hc : c ∈ requestCells 0 length) :
    c.Usable s x := by
  obtain ⟨i, rfl⟩ := direct_of_requestCells (by simpa using hlen) hc
  obtain ⟨v, hs, hr⟩ := h.tracks.stores
  refine ⟨fun p hp => hp.elim, (h.tracks.spares_iff hs hr).1 fun m es hm heq => ?_⟩
  have hvalue : (Cell.direct i).value s.fs x = 0 := f.direct i i.2
  obtain ⟨-, hge⟩ := hr.dirBlock hm
  omega

/-- A call of `do_fwrite` behind the direct blocks reads the indirect block. -/
lemma reads_indirect {P : Access → Prop} {fd length : ℤ} {d : Fdesc} {buff : Bytes}
    (hall : (fs.doFwriteA fd buff length).All P) (hfd : fs.fdesc fd = some d)
    (hwrite : d.write = true) (hx : fs.readInode d.inum = some x)
    (hlow : ndirectBlocks * nbytesPerBlock ≤ d.offset % 2 ^ 32)
    (hhigh : d.offset % 2 ^ 32 < (ndirectBlocks + nindirectBlocks) * nbytesPerBlock)
    (hpos : 0 < length) : P (.readIndex x.indirect) := by
  have hge : ndirectBlocks ≤ d.offset % 2 ^ 32 / nbytesPerBlock :=
    (Nat.le_div_iff_mul_le (by decide)).2 hlow
  have hlt : d.offset % 2 ^ 32 / nbytesPerBlock < ndirectBlocks + nindirectBlocks :=
    (Nat.div_lt_iff_lt_mul (by decide)).2 hhigh
  rw [doFwriteA] at hall
  have hcall := (all_bind.1 hall).2 d hfd
  rw [if_neg (by rw [hwrite]; decide)] at hcall
  have hloop := (all_bind.1 ((all_bind.1 hcall).2 x hx)).1
  rw [fwriteLoopA, if_neg (not_le.2 hpos)] at hloop
  have hround := (all_bind.1 hloop).1
  rw [fwriteRoundA] at hround
  have hblock := (all_bind.1 hround).1
  rw [fwriteBlockA] at hblock
  have hoffset := (all_bind.1 hblock).1
  rw [offsetToBlkA] at hoffset
  dsimp only at hoffset
  rw [if_neg (not_lt.2 hge), if_pos hlt] at hoffset
  have hread := all_tell.1 (all_bind.1 hoffset).1
  split at hread <;> exact hread

/-- A byte in a new file on a freshly formatted empty card. -/
theorem file_writes_confined_new :
    ∃ fs s n x, emptyCard.doMkfs = some (0, fs) ∧
      Trace.run History.next ⟨fs, [1, 2]⟩ openNew = some s ∧ NewFile s n x ∧
      WriteConfined s (.call (.fwrite 0 Bytes.zero 1)) := by
  obtain ⟨fs, s, t, n, x, hmkfs, hC, hrun, h, f⟩ := newFile_openNew
  obtain ⟨fs', hmkfs', hruns⟩ := file_writes_confined emptyCard fun _ _ => rfl
  obtain ⟨-, rfl⟩ := Prod.mk.inj (Option.some.inj (hmkfs.symm.trans hmkfs'))
  have hwrite : InFile s (.call (.fwrite 0 Bytes.zero 1)) := by
    intro d hfd _
    obtain rfl := Option.some.inj (f.fdesc.symm.trans hfd)
    exact ⟨x, f.allocated, f.inode, f.type, fun c hc => f.usable h (by decide) hc⟩
  have hevents : Trace.StepsMeet History.next InFile ⟨fs, [1, 2]⟩
      (openNew ++ [.call (.fwrite 0 Bytes.zero 1)]) := by
    refine hC.append fun s' hs' => ?_
    obtain rfl := Option.some.inj (hrun.symm.trans hs')
    exact Trace.stepsMeet_cons hwrite fun _ _ => Trace.stepsMeet_nil _ _
  exact ⟨fs, s, n, x, hmkfs, hrun, f, ((hruns _ hevents).drop hrun).head⟩

/-- A new file of 40960 bytes gets one more: block 0 is read as an index block. -/
theorem file_writes_read_block_zero :
    ∃ fs s, emptyCard.doMkfs = some (0, fs) ∧
      Trace.run History.next ⟨fs, [1, 2]⟩
        (openNew ++ [.call (.fwrite 0 Bytes.zero 40960)]) = some s ∧
      .readIndex 0 ∈ (s.fs.doFwriteA 0 Bytes.zero 1).log ∧
      ¬ Trace.StepsMeet History.next WriteConfined ⟨fs, [1, 2]⟩
        (openNew ++ [.call (.fwrite 0 Bytes.zero 40960), .call (.fwrite 0 Bytes.zero 1)]) := by
  obtain ⟨fs, s, t, n, x, hmkfs, -, hrun, h, f⟩ := newFile_openNew
  have hcells : ∀ c ∈ requestCells (0 % 2 ^ 32) 40960, c.Usable s x := fun c hc =>
    f.usable h (by decide) hc
  obtain ⟨r, fs', y, hcall, -, h', hy, hindirect⟩ :=
    h.fwrite f.fdesc rfl f.allocated f.inode f.type hcells Bytes.zero
  have hstep : s.next (.call (.fwrite 0 Bytes.zero 40960)) = some ⟨fs', s.returned⟩ := by
    refine History.step_old ?_ rfl
    rw [syscall, hcall]
    rfl
  have hrun' : Trace.run History.next ⟨fs, [1, 2]⟩
      (openNew ++ [.call (.fwrite 0 Bytes.zero 40960)]) = some ⟨fs', s.returned⟩ :=
    Trace.run_append_eq_some.2 ⟨s, hrun, by rw [Trace.run_singleton, hstep]⟩
  have hfd : fs'.fdesc 0 = some ⟨n, false, true, 40960⟩ := by
    obtain ⟨v, hs, hr⟩ := h'.tracks.stores
    have hadvance : Fdesc.advance ⟨n, false, true, 0⟩ 40960 = ⟨n, false, true, 40960⟩ := by
      simp [Fdesc.advance]
    rw [fdesc, if_pos (by decide), hs.fdescArray, hr.fdescArray, hadvance]
    exact congrArg some (Function.update_self (Int.toNat 0) _ t.fdescArray)
  have hall : History.Allocated ⟨fs', s.returned⟩ n :=
    (h'.tracks.allocated_iff n).2 ((h.tracks.allocated_iff n).1 f.allocated)
  have htype : y.type = typeFile := by
    obtain ⟨ref, hnode⟩ := h.tracks.file f.allocated f.inode f.type
    obtain ⟨nd, z, hnd, hz, hiff⟩ := h'.tracks.node hall
    obtain rfl := Option.some.inj (hy.symm.trans hz)
    exact hiff.2 ⟨ref, Option.some.inj (hnd.symm.trans hnode)⟩
  have hreads : ∀ P : Access → Prop, (fs'.doFwriteA 0 Bytes.zero 1).All P → P (.readIndex 0) := by
    intro P hP
    have hlow : ndirectBlocks * nbytesPerBlock ≤ 40960 % 2 ^ 32 := by decide
    have hhigh : 40960 % 2 ^ 32 < (ndirectBlocks + nindirectBlocks) * nbytesPerBlock := by decide
    have hread := reads_indirect hP hfd rfl hy hlow hhigh one_pos
    rwa [hindirect, f.indirect] at hread
  refine ⟨fs, _, hmkfs, hrun', ?_, fun hmeet => ?_⟩
  · by_contra hnot
    exact hreads (· ≠ .readIndex 0) (fun a ha heq => hnot (heq ▸ ha)) rfl
  · rw [List.append_cons] at hmeet
    obtain ⟨-, fs'', -, hlog⟩ := (hmeet.drop hrun').head _ y hfd hall hy htype
    exact hreads _ hlog rfl

end NewFile

end Fs
end UcasKernel
