/-
Link counts over runs of calls.

From the state `do_mkfs` leaves, as long as every directory written to has a free
slot among its first 113 and the inode map is not exhausted, the calls `do_touch`,
`do_mkdir`, `do_cd`, `do_ln` of files and `do_rm` return, keep the link counts
exact, and free an inode with its last entry.
-/
import UcasKernel.Fs.Links

namespace UcasKernel
namespace Fs

/-! ## The calls of a run -/

/-- A name of 1 to 14 characters without a separator. -/
def Name (path : List UInt8) : Prop := 1 ≤ path.length ∧ path.length ≤ 14 ∧ 47 ∉ path

/-- The first block of the working directory. -/
def cwdBlock (fs : Fs) : Bytes :=
  match fs.readInode fs.cwdInum with
  | some inode => (fs.readBlock (inode.direct 0)).blockBuf
  | none => Bytes.zero

/-- The entries of a directory that the condition on free slots is about. -/
def nslots : ℕ := 113

/-- The working directory has a free slot among its first 113. -/
def HasFreeSlot (fs : Fs) : Prop := ∃ j < nslots, dentryInum fs.cwdBlock j = some 0

/-- The working directory has a valid entry with the name. -/
def NameTaken (fs : Fs) (path : List UInt8) : Prop :=
  ∃ j < maxEntries, dentryMatches fs.cwdBlock j path = some true

/-- The path resolves to an existing file. -/
def NamesFile (fs : Fs) (path : List UInt8) : Prop :=
  ∃ n fs' inode, fs.parsePath path fs.cwdInum = some (n, fs') ∧ n ≠ 0 ∧
    fs'.readInode n = some inode ∧ inode.type = typeFile

/-- A call of the kind the link counts are kept by.  A call that writes to the
directory needs a free slot there, and a new inode a free number. -/
def LinkCall (s : History) : Syscall → Prop
  | .touch path | .mkdir path =>
    Name path.1 ∧ (s.fs.NameTaken path.1 ∨ s.fs.HasFreeSlot ∧ s.fs.MapOpen imapSector 1)
  | .cd path | .rm path => Name path.1
  | .ln srcPath dstPath =>
    Name srcPath.1 ∧ Name dstPath.1 ∧ s.fs.NamesFile srcPath.1 ∧
      (srcPath.1 = dstPath.1 ∨ s.fs.HasFreeSlot)
  | _ => False

section Cwd

variable {fs : Fs} {t : Tree} {es : List Entry} {path : List UInt8} (h : fs.Stores t)
  (hc : t.node t.cwd = some (.dir es))
include h hc

lemma Stores.isDir_cwdBlock : IsDir fs.cwdBlock es := by
  obtain ⟨v, hs, hr⟩ := h
  obtain ⟨x, b, o, hx⟩ := hs.openedCwd hr hc
  rw [cwdBlock, hx]
  dsimp only
  rw [o.first]
  exact o.buf

/-- The unused entries of the working directory are behind the used ones. -/
lemma Stores.hasUnused_iff {m : ℕ} (hm : m ≤ maxEntries) :
    (∃ j < m, dentryInum fs.cwdBlock j = some 0) ↔ es.length < m := by
  have hd := h.isDir_cwdBlock hc
  constructor
  · rintro ⟨j, hj, h0⟩
    by_contra hlt
    have hentry := hd.entry j (by omega)
    rw [hentry.dentryInum, Option.some.injEq] at h0
    exact hentry.inum_ne h0
  · intro hlt
    exact ⟨es.length, hlt, hd.dentryInum_unused le_rfl (hlt.trans_le hm)⟩

lemma Stores.hasFreeSlot_iff : fs.HasFreeSlot ↔ es.length < nslots :=
  h.hasUnused_iff hc (by decide)

lemma Stores.nameTaken_iff (hpath : 0 ∉ path) :
    fs.NameTaken path ↔ ∃ j, firstNamed es path = some j := by
  have hd := h.isDir_cwdBlock hc
  rw [← Option.isSome_iff_exists, firstNamed, List.findIdx?_isSome, List.any_eq_true]
  constructor
  · rintro ⟨j, hj, hmatch⟩
    by_cases hlt : j < es.length
    · have hnamed := (hd.entry j hlt).isNamed hpath 0
      rw [isNamed, hmatch, Option.some.injEq] at hnamed
      exact ⟨es[j], List.getElem_mem hlt, hnamed.symm⟩
    · have hnamed : isNamed path fs.cwdBlock 0 j = some false :=
        hd.isNamed_unused (not_lt.1 hlt) hj 0
      rw [isNamed, hmatch, Option.some.injEq] at hnamed
      cases hnamed
  · rintro ⟨e, he, hnamed⟩
    obtain ⟨j, hj, rfl⟩ := List.mem_iff_getElem.1 he
    have hmatch := (hd.entry j hj).isNamed hpath 0
    rw [hnamed] at hmatch
    exact ⟨j, hj.trans_le hd.length, hmatch⟩

omit h hc in
lemma hasRoom_of_lt (hlt : es.length < nslots) (hlen : path.length ≤ 26) : HasRoom es path := by
  simp only [nslots] at hlt
  refine ⟨by simp only [maxEntries]; omega, ?_⟩
  simp only [sizeofDentry, nbytesPerBlock]
  omega

end Cwd

/-- A name is looked up in the working directory. -/
lemma lookup_name {es : List Entry} {n : ℕ} {path : List UInt8} (hname : Name path)
    (hlen : es.length ≤ nslots) :
    (∀ j (hj : j < es.length), firstNamed es path = some j →
      lookup es n path = some es[j].inum) ∧
    (firstNamed es path = none → lookup es n path = some 0) := by
  obtain ⟨h1, h14, -⟩ := hname
  have hne : path ≠ [] := by
    rintro rfl
    simp at h1
  simp only [nslots] at hlen
  refine ⟨fun j hj hfirst => ?_, fun hnone => ?_⟩
  · rw [lookup, if_neg hne, if_neg (by omega), hfirst]
    dsimp only
    rw [if_pos (by omega), List.getElem?_eq_getElem hj]
    rfl
  · rw [lookup, if_neg hne, if_neg (by omega), hnone]
    dsimp only
    rw [if_pos (by simp only [maxEntries]; omega)]

/-! ## One call -/

section Step

variable {s : History} {t : Tree} {fs' : Fs} {path : Path} {r : ℤ}

/-- A call that returned no new number. -/
lemma History.step_old {call : Syscall} (hcall : s.fs.syscall call = some fs')
    (hret : s.fs.returnedBy call = []) : s.step call = some ⟨fs', s.returned⟩ := by
  rw [step, hcall, hret]
  rfl

lemma History.step_touch (h : s.fs.doTouch path.1 = some (r, fs')) :
    s.step (.touch path) =
      some ⟨fs', (if r = 0 then [s.fs.allocInode.1.toNat] else []) ++ s.returned⟩ := by
  rw [step, syscall, returnedBy, h]
  simp only [Option.map_some, Option.some.injEq]
  rfl

lemma History.step_mkdir (h : s.fs.doMkdir path.1 = some (r, fs')) :
    s.step (.mkdir path) =
      some ⟨fs', (if r = 0 then [s.fs.allocInode.1.toNat] else []) ++ s.returned⟩ := by
  rw [step, syscall, returnedBy, h]
  simp only [Option.map_some, Option.some.injEq]
  rfl

/-- The tree after a call that made no inode. -/
lemma Tracks.next {t' : Tree} (h : Tracks s t) (hstores : fs'.Stores t')
    (hsub : ∀ n, t'.node n ≠ none → t.node n ≠ none) : Tracks ⟨fs', s.returned⟩ t' :=
  ⟨hstores, h.handed, fun n hn => h.returned n (hsub n hn)⟩

/-- The tree after a call that made inode `n`. -/
lemma Tracks.created {n : ℕ} {nd : Node} {name : List UInt8} (h : Tracks s t)
    (hc : ∃ es, t.node t.cwd = some (.dir es)) (hn : t.node n = none) (hhanded : Handed ninodes n)
    (hstores : fs'.Stores ((t.set n (some nd)).enter name n)) :
    Tracks ⟨fs', n :: s.returned⟩ ((t.set n (some nd)).enter name n) := by
  obtain ⟨es, hc⟩ := hc
  have hcn : t.cwd ≠ n := by
    rintro rfl
    rw [hn] at hc
    cases hc
  have hc' : (t.set n (some nd)).node t.cwd = some (.dir es) := by
    rw [Tree.node_set_of_ne _ _ hcn]
    exact hc
  refine ⟨hstores, fun k hk => ?_, fun k hk => ?_⟩
  · rcases List.mem_cons.1 hk with rfl | hk
    · exact hhanded
    · exact h.handed k hk
  · rw [ne_eq, node_enter_eq_none hc'] at hk
    by_cases hkn : k = n
    · exact hkn ▸ List.mem_cons_self
    · rw [Tree.node_set_of_ne _ _ hkn] at hk
      exact List.mem_cons_of_mem _ (h.returned k hk)

/-- The history has an exact tree, with room in its directories. -/
structure Exact (s : History) (t : Tree) : Prop where
  tracks : Tracks s t
  linked : Linked t
  small : ∀ d, (t.entries d).length ≤ nslots

/-- A new entry in a directory with a free slot. -/
lemma small_enter {es : List Entry} {m : ℕ} {name : List UInt8}
    (hc : t.node t.cwd = some (.dir es)) (hlt : es.length < nslots)
    (hsmall : ∀ d, (t.entries d).length ≤ nslots) (d : ℕ) :
    ((t.enter name m).entries d).length ≤ nslots := by
  rw [Tree.enter, Tree.entries_of_node hc]
  by_cases hd : d = t.cwd
  · subst hd
    rw [Tree.entries_set_dir, List.length_append, List.length_singleton]
    exact hlt
  · rw [Tree.entries_set_of_ne _ hd]
    exact hsmall d

/-- A new inode and its name. -/
lemma Exact.create {es : List Entry} {n : ℕ} {nd : Node} {name : List UInt8} (h : Exact s t)
    (hc : t.node t.cwd = some (.dir es)) (hlt : es.length < nslots) (hn : t.node n = none)
    (hhanded : Handed ninodes n) (hfile : ∀ r, nd = .file r → r = 1)
    (hdir : ∀ es', nd = .dir es' → es' = freshEntries n t.cwd)
    (hstores : fs'.Stores ((t.set n (some nd)).enter name n)) :
    Exact ⟨fs', n :: s.returned⟩ ((t.set n (some nd)).enter name n) := by
  have hcn : t.cwd ≠ n := by
    rintro rfl
    rw [hn] at hc
    cases hc
  have hc' : (t.set n (some nd)).node (t.set n (some nd)).cwd = some (.dir es) := by
    rw [Tree.cwd_set, Tree.node_set_of_ne _ _ hcn]
    exact hc
  refine ⟨h.tracks.created h.linked.cwd hn hhanded hstores,
    h.linked.create hn hhanded.2.1 hfile hdir, small_enter hc' hlt fun d => ?_⟩
  by_cases hd : d = n
  · subst hd
    cases nd with
    | file r =>
      rw [Tree.entries_set_file]
      exact Nat.zero_le _
    | dir es' =>
      rw [Tree.entries_set_dir, hdir es' rfl]
      exact (show 2 ≤ nslots by decide)
  · rw [Tree.entries_set_of_ne _ hd]
    exact h.small d

/-- `do_touch` either leaves the tree or makes a file with the name. -/
lemma Exact.touch_cases (h : Exact s t) (hC : LinkCall s (.touch path)) :
    (∃ fs', s.fs.doTouch path.1 = some (1, fs') ∧ Exact ⟨fs', s.returned⟩ t) ∨
    ∃ (es : List Entry) (n : ℕ) (fs' : Fs), t.node t.cwd = some (.dir es) ∧
      firstNamed es path.1 = none ∧ t.node n = none ∧ n ≤ ninodes ∧
      s.fs.doTouch path.1 = some (0, fs') ∧ s.fs.allocInode.1 = n ∧
      Exact ⟨fs', n :: s.returned⟩ ((t.set n (some (.file 1))).enter path.1 n) := by
  obtain ⟨es, hc⟩ := h.linked.cwd
  obtain ⟨hname, hroom⟩ := hC
  have hst := h.tracks.stores
  have hlen : path.1.length ≤ dentryNameLen := hname.2.1.trans (by decide)
  cases hfirst : firstNamed es path.1 with
  | some j =>
    obtain ⟨fs', htouch, hst'⟩ := hst.doTouch_refused hc path.2 (.inr ⟨j, hfirst⟩)
    exact .inl ⟨fs', htouch, h.tracks.next hst' fun _ => id, h.linked, h.small⟩
  | none =>
    rw [hst.nameTaken_iff hc path.2, hfirst] at hroom
    obtain ⟨hslot, hopen⟩ := hroom.resolve_left (by simp)
    have hlt := (hst.hasFreeSlot_iff hc).1 hslot
    obtain ⟨n, fs', htouch, halloc, hn, hhanded, hst'⟩ :=
      hst.doTouch hc path.2 hlen hfirst hopen (hasRoom_of_lt hlt hlen)
    exact .inr ⟨es, n, fs', hc, hfirst, hn, hhanded.2.1, htouch, halloc,
      h.create hc hlt hn hhanded (fun r hr => (Node.file.inj hr).symm) (fun _ hes => by cases hes) hst'⟩

lemma Exact.touch (h : Exact s t) (hC : LinkCall s (.touch path)) :
    ∃ s' t', s.step (.touch path) = some s' ∧ Exact s' t' := by
  rcases h.touch_cases hC with ⟨fs', htouch, h'⟩ | ⟨es, n, fs', -, -, -, -, htouch, halloc, h'⟩
  · exact ⟨_, t, History.step_touch htouch, h'⟩
  · have hstep := History.step_touch htouch
    rw [if_pos rfl, halloc, Int.toNat_natCast] at hstep
    exact ⟨_, _, hstep, h'⟩

/-- `do_mkdir` either leaves the tree or makes a directory with the name. -/
lemma Exact.mkdir_cases (h : Exact s t) (hC : LinkCall s (.mkdir path)) :
    (∃ fs', s.fs.doMkdir path.1 = some (1, fs') ∧ Exact ⟨fs', s.returned⟩ t) ∨
    ∃ (es : List Entry) (n : ℕ) (fs' : Fs), t.node t.cwd = some (.dir es) ∧
      firstNamed es path.1 = none ∧ t.node n = none ∧ n ≤ ninodes ∧
      s.fs.doMkdir path.1 = some (0, fs') ∧ s.fs.allocInode.1 = n ∧
      Exact ⟨fs', n :: s.returned⟩
        ((t.set n (some (.dir (freshEntries n t.cwd)))).enter path.1 n) := by
  obtain ⟨es, hc⟩ := h.linked.cwd
  obtain ⟨hname, hroom⟩ := hC
  have hst := h.tracks.stores
  have hlen : path.1.length ≤ dentryNameLen := hname.2.1.trans (by decide)
  cases hfirst : firstNamed es path.1 with
  | some j =>
    obtain ⟨fs', hmkdir, hst'⟩ := hst.doMkdir_refused hc path.2 (.inr ⟨j, hfirst⟩)
    exact .inl ⟨fs', hmkdir, h.tracks.next hst' fun _ => id, h.linked, h.small⟩
  | none =>
    rw [hst.nameTaken_iff hc path.2, hfirst] at hroom
    obtain ⟨hslot, hopen⟩ := hroom.resolve_left (by simp)
    have hlt := (hst.hasFreeSlot_iff hc).1 hslot
    obtain ⟨n, fs', hmkdir, halloc, hn, hhanded, hst'⟩ :=
      hst.doMkdir hc path.2 hlen hfirst hopen (hasRoom_of_lt hlt hlen)
    exact .inr ⟨es, n, fs', hc, hfirst, hn, hhanded.2.1, hmkdir, halloc,
      h.create hc hlt hn hhanded (fun _ hr => by cases hr) (fun es' hes => (Node.dir.inj hes).symm)
        hst'⟩

lemma Exact.mkdir (h : Exact s t) (hC : LinkCall s (.mkdir path)) :
    ∃ s' t', s.step (.mkdir path) = some s' ∧ Exact s' t' := by
  rcases h.mkdir_cases hC with ⟨fs', hmkdir, h'⟩ | ⟨es, n, fs', -, -, -, -, hmkdir, halloc, h'⟩
  · exact ⟨_, t, History.step_mkdir hmkdir, h'⟩
  · have hstep := History.step_mkdir hmkdir
    rw [if_pos rfl, halloc, Int.toNat_natCast] at hstep
    exact ⟨_, _, hstep, h'⟩

/-- A directory with valid entries that lead to inodes in use. -/
lemma Exact.closed (h : Exact s t) {es : List Entry} (hc : t.node t.cwd = some (.dir es)) :
    t.Closed es := by
  have := h.linked.closed t.cwd
  rwa [Tree.entries_of_node hc] at this

lemma Exact.length_le (h : Exact s t) {es : List Entry} (hc : t.node t.cwd = some (.dir es)) :
    es.length ≤ nslots := by
  have := h.small t.cwd
  rwa [Tree.entries_of_node hc] at this

/-- What a name leads to. -/
lemma Exact.lookup (h : Exact s t) {es : List Entry} (hc : t.node t.cwd = some (.dir es))
    (hname : Name path.1) :
    firstNamed es path.1 = none ∧ lookup es t.cwd path.1 = some 0 ∨
    ∃ (j : ℕ) (hj : j < es.length) (nd : Node), firstNamed es path.1 = some j ∧
      es[j].valid = true ∧ lookup es t.cwd path.1 = some es[j].inum ∧
      t.node es[j].inum = some nd := by
  obtain ⟨hhit, hmiss⟩ := lookup_name (n := t.cwd) hname (h.length_le hc)
  cases hfirst : firstNamed es path.1 with
  | none => exact .inl ⟨rfl, hmiss hfirst⟩
  | some j =>
    obtain ⟨hj, hvalid, -⟩ := firstNamed_valid hfirst
    obtain ⟨nd, hnd⟩ := Option.ne_none_iff_exists'.1
      (h.closed hc _ (List.getElem_mem hj) hvalid)
    exact .inr ⟨j, hj, nd, rfl, hvalid, hhit j hj hfirst, hnd⟩

/-- `do_cd` either leaves the tree or moves to a directory. -/
lemma Exact.cd_cases (h : Exact s t) (hC : LinkCall s (.cd path)) :
    ∃ s', s.step (.cd path) = some s' ∧
      (Exact s' t ∨ ∃ m es, t.node m = some (.dir es) ∧ Exact s' { t with cwd := m }) := by
  obtain ⟨es, hc⟩ := h.linked.cwd
  have hst := h.tracks.stores
  have hplain : Plain es path.1 := .inl hC.2.2
  have hstep : ∀ {r : ℤ} {fs' : Fs}, s.fs.doCd path.1 = some (r, fs') →
      s.step (.cd path) = some ⟨fs', s.returned⟩ := fun hcd =>
    History.step_old (by rw [syscall, hcd]; rfl) rfl
  rcases h.lookup hc hC with ⟨-, hlook⟩ | ⟨j, hj, nd, -, -, hlook, hnd⟩
  · obtain ⟨fs', hcd, hst'⟩ := hst.doCd_refused hc path.2 hplain (h.closed hc) hlook (.inl rfl)
    exact ⟨_, hstep hcd, .inl ⟨h.tracks.next hst' fun _ => id, h.linked, h.small⟩⟩
  · cases nd with
    | file ref =>
      obtain ⟨fs', hcd, hst'⟩ :=
        hst.doCd_refused hc path.2 hplain (h.closed hc) hlook (.inr ⟨ref, hnd⟩)
      exact ⟨_, hstep hcd, .inl ⟨h.tracks.next hst' fun _ => id, h.linked, h.small⟩⟩
    | dir es' =>
      obtain ⟨fs', hcd, hst'⟩ := hst.doCd hc path.2 hplain (h.closed hc) hlook hnd
      exact ⟨_, hstep hcd, .inr ⟨es[j].inum, es', hnd, h.tracks.next hst' fun _ => id,
        h.linked.cd hnd, h.small⟩⟩

lemma Exact.cd (h : Exact s t) (hC : LinkCall s (.cd path)) :
    ∃ s' t', s.step (.cd path) = some s' ∧ Exact s' t' := by
  obtain ⟨s', hstep, h' | ⟨m, es, -, h'⟩⟩ := h.cd_cases hC
  · exact ⟨s', t, hstep, h'⟩
  · exact ⟨s', _, hstep, h'⟩

lemma Exact.ln {dst : Path} (h : Exact s t) (hC : LinkCall s (.ln path dst)) :
    ∃ s' t', s.step (.ln path dst) = some s' ∧ Exact s' t' := by
  obtain ⟨es, hc⟩ := h.linked.cwd
  obtain ⟨hname, hdst, hfile, hslot⟩ := hC
  have hst := h.tracks.stores
  have hstep : ∀ {r : ℤ} {fs' : Fs}, s.fs.doLn path.1 dst.1 = some (r, fs') →
      s.step (.ln path dst) = some ⟨fs', s.returned⟩ := fun hln =>
    History.step_old (by rw [syscall, hln]; rfl) rfl
  by_cases hsame : path.1 = dst.1
  · refine ⟨_, t, @hstep 1 s.fs ?_, h.tracks, h.linked, h.small⟩
    rw [hsame]
    exact doLn_same _ _
  have hlt := (hst.hasFreeSlot_iff hc).1 (hslot.resolve_left hsame)
  have hplain : Plain es path.1 := .inl hname.2.2
  -- the source is a file
  obtain ⟨v, fs₁, -, hs₁, hr, hparse⟩ := hst.parsePath hc path.2 hplain (h.closed hc)
  obtain ⟨n, fs₂, x, hparse', hn, hx, htype⟩ := hfile
  rw [hparse] at hparse'
  rcases h.lookup hc hname with ⟨-, hlook⟩ | ⟨j, hj, nd, -, -, hlook, hnd⟩
  · rw [hlook, Option.map_some, Option.some.injEq, Prod.mk.injEq] at hparse'
    exact absurd hparse'.1.symm hn
  · rw [hlook, Option.map_some, Option.some.injEq, Prod.mk.injEq] at hparse'
    obtain ⟨rfl, rfl⟩ := hparse'
    obtain ⟨h1, h2, -⟩ := hs₁.nodeBounds hr hnd
    obtain ⟨y, hy, hsame', -⟩ := hs₁.readInode h1 h2
    rw [hy, Option.some.injEq] at hx
    subst hx
    obtain ⟨ref, rfl⟩ := (hr.type_eq_file hnd hsame').1 htype
    have href := (h.linked.exact _ ref hnd).1
    have hbound := hst.links_lt es[j].inum
    obtain ⟨fs', hln, hst'⟩ := hst.doLn hc path.2 hplain (h.closed hc) hsame hlook hnd
      (fun r hr => by rw [← Node.file.inj hr, href]; exact hbound) dst.2
      (hdst.2.1.trans (by decide)) (hasRoom_of_lt hlt (hdst.2.1.trans (by decide)))
    refine ⟨_, _, hstep hln, h.tracks.next hst' fun k hk => ?_, h.linked.ln hnd, fun d => ?_⟩
    · rwa [ne_eq, node_bump_eq_none, node_enter_eq_none hc] at hk
    · rw [entries_bump]
      exact small_enter hc hlt h.small d

/-- `do_rm` either leaves the tree or removes the first entry with the name and a
link of the file. -/
lemma Exact.rm_cases (h : Exact s t) (hC : LinkCall s (.rm path)) :
    (∃ s', s.step (.rm path) = some s' ∧ Exact s' t) ∨
    ∃ (es : List Entry) (j ref : ℕ) (hj : j < es.length) (s' : History),
      t.node t.cwd = some (.dir es) ∧ es[j].valid = true ∧
      t.node es[j].inum = some (.file ref) ∧ s.step (.rm path) = some s' ∧
      Exact s' ((t.unlink j).drop es[j].inum) := by
  obtain ⟨es, hc⟩ := h.linked.cwd
  have hst := h.tracks.stores
  have hplain : Plain es path.1 := .inl hC.2.2
  have hstep : ∀ {r : ℤ} {fs' : Fs}, s.fs.doRm path.1 = some (r, fs') →
      s.step (.rm path) = some ⟨fs', s.returned⟩ := fun hrm =>
    History.step_old (by rw [syscall, hrm]; rfl) rfl
  rcases h.lookup hc hC with ⟨-, hlook⟩ | ⟨j, hj, nd, hfirst, hvalid, hlook, hnd⟩
  · obtain ⟨fs', hrm, hst'⟩ := hst.doRm_refused hc path.2 hplain (h.closed hc) hlook (.inl rfl)
    exact .inl ⟨_, hstep hrm, h.tracks.next hst' fun _ => id, h.linked, h.small⟩
  · cases nd with
    | dir es' =>
      obtain ⟨fs', hrm, hst'⟩ :=
        hst.doRm_refused hc path.2 hplain (h.closed hc) hlook (.inr ⟨es', hnd⟩)
      exact .inl ⟨_, hstep hrm, h.tracks.next hst' fun _ => id, h.linked, h.small⟩
    | file ref =>
      obtain ⟨fs', hrm, hst'⟩ := hst.doRm hc path.2 hplain (h.closed hc) hlook hnd
        (h.linked.exact _ ref hnd).2 hfirst
      obtain ⟨hentries, -, hnone, -⟩ := h.linked.unlink_drop hc hj hvalid hnd
      refine .inr ⟨es, j, ref, hj, _, hc, hvalid, hnd, hstep hrm,
        h.tracks.next hst' fun k hk hk' => hk ((hnone k).2 (.inl hk')),
        h.linked.rm hc hj hvalid hnd, fun d => ?_⟩
      rw [hentries, Tree.unlink, Tree.entries_of_node hc]
      by_cases hd : d = t.cwd
      · subst hd
        rw [Tree.entries_set_dir, List.length_modify]
        exact h.length_le hc
      · rw [Tree.entries_set_of_ne _ hd]
        exact h.small d

end Step

/-! ## Runs -/

section Image

variable (fd : ℕ → Fdesc)

lemma imageTree_node {n : ℕ} {nd : Node} (hn : (imageTree fd).node n = some nd) :
    n = 1 ∧ nd = .dir (freshEntries 1 1 ++ [⟨true, 2, bigfileName⟩]) ∨ n = 2 ∧ nd = .file 1 := by
  simp only [imageTree] at hn
  split at hn
  · exact .inl ⟨‹_›, (Option.some.inj hn).symm⟩
  · split at hn
    · exact .inr ⟨‹_›, (Option.some.inj hn).symm⟩
    · cases hn

lemma imageTree_entries (d : ℕ) : (imageTree fd).entries d =
    if d = 1 then freshEntries 1 1 ++ [⟨true, 2, bigfileName⟩] else [] := by
  by_cases h1 : d = 1
  · rw [if_pos h1, h1]
    rfl
  · rw [if_neg h1]
    cases hnode : (imageTree fd).node d with
    | none => exact Tree.entries_of_none hnode
    | some nd =>
      rcases imageTree_node fd hnode with ⟨h1', -⟩ | ⟨-, rfl⟩
      · exact absurd h1' h1
      · exact Tree.entries_of_file hnode

lemma linked_imageTree : Linked (imageTree fd) := by
  refine ⟨⟨_, rfl⟩, fun n hn => ?_, fun d e he _ => ?_, fun n ref hn => ?_⟩
  · obtain ⟨nd, hnd⟩ := Option.ne_none_iff_exists'.1 hn
    rcases imageTree_node fd hnd with ⟨rfl, -⟩ | ⟨rfl, -⟩ <;> decide
  · rw [imageTree_entries] at he
    split at he
    · simp only [freshEntries, List.cons_append, List.nil_append, List.mem_cons,
        List.not_mem_nil, or_false] at he
      rcases he with rfl | rfl | rfl <;> exact Option.some_ne_none _
    · cases he
  · rcases imageTree_node fd hn with ⟨-, h1⟩ | ⟨rfl, h2⟩
    · cases h1
    · obtain rfl := Node.file.inj h2
      refine ⟨?_, le_rfl⟩
      rw [Tree.links, Finset.sum_eq_single_of_mem 1 (Finset.mem_range.2 (by decide))
        fun d _ hd => ?_]
      · rfl
      · rw [imageTree_entries, if_neg hd]
        rfl

lemma exact_image {fs : Fs} (h : fs.Stores (imageTree fd)) :
    Exact ⟨fs, [1, 2]⟩ (imageTree fd) := by
  refine ⟨⟨h, fun n hn => ?_, fun n hn => ?_⟩, linked_imageTree fd, fun d => ?_⟩
  · simp only [List.mem_cons, List.not_mem_nil, or_false] at hn
    rcases hn with rfl | rfl <;> exact ⟨by decide, by decide, by decide⟩
  · obtain ⟨nd, hnd⟩ := Option.ne_none_iff_exists'.1 hn
    rcases imageTree_node fd hnd with ⟨rfl, -⟩ | ⟨rfl, -⟩ <;> simp
  · rw [imageTree_entries]
    split
    · exact (show 3 ≤ nslots by decide)
    · exact Nat.zero_le _

end Image

section Runs

variable {s : History} {t : Tree}

/-- One call of the kind allowed returns and leaves an exact tree. -/
lemma Exact.step (h : Exact s t) {call : Syscall} (hC : LinkCall s call) :
    ∃ s' t', s.step call = some s' ∧ Exact s' t' := by
  cases call with
  | touch path => exact h.touch hC
  | mkdir path => exact h.mkdir hC
  | cd path => exact h.cd hC
  | ln srcPath dstPath => exact h.ln hC
  | rm path =>
    rcases h.rm_cases hC with ⟨s', hs', h'⟩ | ⟨es, j, ref, hj, s', -, -, -, hs', h'⟩
    · exact ⟨s', t, hs', h'⟩
    · exact ⟨s', _, hs', h'⟩
  | _ => exact hC.elim

/-- The link count on the card is the number of entries. -/
lemma Exact.ref_eq (h : Exact s t) {n : ℕ} {inode : Inode} (hall : s.Allocated n)
    (hread : s.fs.readInode n = some inode) (hfile : inode.type = typeFile) :
    inode.ref = s.links n := by
  obtain ⟨v, hs, hr⟩ := h.tracks.stores
  obtain ⟨nd, hnd⟩ := Option.ne_none_iff_exists'.1 ((h.tracks.allocated_iff n).1 hall)
  obtain ⟨h1, h2, -⟩ := hs.nodeBounds hr hnd
  obtain ⟨x, hx, hsame, -⟩ := hs.readInode h1 h2
  rw [hx, Option.some.injEq] at hread
  subst hread
  obtain ⟨ref, rfl⟩ := (hr.type_eq_file hnd hsame).1 hfile
  have hnode : (v.inode n).type = typeFile ∧ (v.inode n).ref = ref := hr.node n _ hnd
  rw [hsame.ref, hnode.2, h.tracks.links_eq]
  exact (h.linked.exact n ref hnd).1

/-- `do_rm` clears the bit of an inode exactly when it removes its last entry. -/
lemma Exact.rm_frees (h : Exact s t) {path : Path} (hC : LinkCall s (.rm path)) :
    ∃ s', s.step (.rm path) = some s' ∧ ∀ n, s.Allocated n →
      (¬ s'.fs.inodeAllocated n ↔ 0 < s.links n ∧ s'.links n = 0) := by
  rcases h.rm_cases hC with ⟨s', hs', h'⟩ | ⟨es, j, ref, hj, s', hc, hvalid, hnd, hs', h'⟩
  · refine ⟨s', hs', fun n hall => ?_⟩
    have hn := (h.tracks.allocated_iff n).1 hall
    rw [h'.tracks.stores.inodeAllocated_iff (h.tracks.handed n hall.1), h.tracks.links_eq,
      h'.tracks.links_eq]
    exact iff_of_false (not_not.2 hn) (by omega)
  · obtain ⟨-, hlinks, hnone, -⟩ := h.linked.unlink_drop hc hj hvalid hnd
    refine ⟨s', hs', fun n hall => ?_⟩
    have hn := (h.tracks.allocated_iff n).1 hall
    have hlink := hlinks n
    rw [h'.tracks.stores.inodeAllocated_iff (h.tracks.handed n hall.1), not_not, hnone,
      h.tracks.links_eq, h'.tracks.links_eq, or_iff_right hn]
    by_cases hnm : n = es[j].inum
    · subst hnm
      have hexact := h.linked.exact _ ref hnd
      rw [if_pos rfl] at hlink
      exact ⟨fun hand => ⟨by omega, by omega⟩, fun hand => ⟨rfl, by omega⟩⟩
    · rw [if_neg (Ne.symm hnm), Nat.add_zero] at hlink
      exact iff_of_false (fun hand => hnm hand.1) (by omega)

/-- The next number is one that no valid entry has. -/
lemma Exact.allocInode_unlinked (h : Exact s t) (hopen : s.fs.MapOpen imapSector 1) :
    s.links s.fs.allocInode.1.toNat = 0 := by
  rw [h.tracks.links_eq]
  exact Tree.links_eq_zero h.linked.closed (h.tracks.stores.allocInode_fresh hopen)

end Runs

/-- From the state `do_mkfs` leaves, the calls of every run return, and in every
state reached the link count of a file is the number of valid entries that lead to
it, `do_rm` frees an inode exactly when it removes its last entry, and
`alloc_inode` returns no number that a valid entry has. -/
theorem linkCounts_exact (fs₀ : Fs) :
    ∃ fs, fs₀.doMkfs = some (0, fs) ∧
      ∀ calls, Trace.StepsMeet History.step LinkCall ⟨fs, [1, 2]⟩ calls →
        ∃ s, Trace.run History.step ⟨fs, [1, 2]⟩ calls = some s ∧
          (∀ (n : ℕ) (inode : Inode), s.Allocated n → s.fs.readInode n = some inode →
            inode.type = typeFile → inode.ref = s.links n) ∧
          (∀ path, LinkCall s (.rm path) → ∃ s', s.step (.rm path) = some s' ∧
            ∀ n, s.Allocated n →
              (¬ s'.fs.inodeAllocated n ↔ 0 < s.links n ∧ s'.links n = 0)) ∧
          (s.fs.MapOpen imapSector 1 → s.links s.fs.allocInode.1.toNat = 0) := by
  obtain ⟨fs, hmkfs, hstores⟩ := doMkfs_stores fs₀
  refine ⟨fs, hmkfs, fun calls hC => ?_⟩
  obtain ⟨s, hrun, t, h⟩ := Trace.run_total (P := fun s => ∃ t, Exact s t)
    (fun s call ⟨t, h⟩ hcall => by
      obtain ⟨s', t', hs', h'⟩ := h.step hcall
      exact ⟨s', hs', t', h'⟩) ⟨_, exact_image _ hstores⟩ hC
  exact ⟨s, hrun, fun n inode => h.ref_eq, fun path => h.rm_frees, h.allocInode_unlinked⟩

/-- A new file on a freshly formatted empty card. -/
theorem linkCounts_exact_newFile :
    ∃ fs s, emptyCard.doMkfs = some (0, fs) ∧
      Trace.run History.step ⟨fs, [1, 2]⟩ [.touch ⟨[97], by decide⟩] = some s ∧
      ∀ (n : ℕ) (inode : Inode), s.Allocated n → s.fs.readInode n = some inode →
        inode.type = typeFile → inode.ref = s.links n := by
  obtain ⟨fs, hmkfs, hruns⟩ := linkCounts_exact emptyCard
  have hstores := stores_of_doMkfs hmkfs
  have hthree : Handed ninodes 3 := ⟨by decide, by decide, by decide⟩
  have hcall : LinkCall ⟨fs, [1, 2]⟩ (.touch ⟨[97], by decide⟩) :=
    ⟨⟨by decide, by decide, by decide⟩, .inr ⟨(hstores.hasFreeSlot_iff rfl).2 (by decide),
      hstores.mapOpen_iff.2 ⟨3, hthree, rfl⟩⟩⟩
  obtain ⟨s, hrun, hexact, -⟩ := hruns [.touch ⟨[97], by decide⟩]
    (Trace.stepsMeet_cons hcall fun _ _ => Trace.stepsMeet_nil _ _)
  exact ⟨fs, s, hmkfs, hrun, hexact⟩

end Fs
end UcasKernel
