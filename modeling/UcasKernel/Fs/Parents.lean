/-
`.` and `..`.

Without links and removals every directory but the root is entered in one
directory, under one name, and its `..` leads there.  A directory that was just
made holds nothing but `.` and `..`, and from it `..` leads back.
-/
import UcasKernel.Fs.Names

namespace UcasKernel
namespace Fs

/-! ## On the card -/

/-- A call that makes names or moves between directories: the cases of `LinkCall`
without links and removals. -/
def TreeCall (s : History) : Syscall → Prop
  | .touch path => LinkCall s (.touch path)
  | .mkdir path => LinkCall s (.mkdir path)
  | .cd path => LinkCall s (.cd path)
  | _ => False

/-- The inode is that of a directory. -/
def IsDirectory (fs : Fs) (d : ℕ) : Prop :=
  ∃ inode, fs.readInode d = some inode ∧ inode.type = typeDirectory

/-- Directory `p` has a valid entry for inode `d` under a name other than `.` and
`..`. -/
def Enters (fs : Fs) (p d : ℕ) : Prop :=
  ∃ inode j, fs.readInode p = some inode ∧ inode.type = typeDirectory ∧ j < maxEntries ∧
    dentryValid (fs.readBlock (inode.direct 0)).blockBuf j = some true ∧
    dentryInum (fs.readBlock (inode.direct 0)).blockBuf j = some d ∧
    dentryMatches (fs.readBlock (inode.direct 0)).blockBuf j [46] = some false ∧
    dentryMatches (fs.readBlock (inode.direct 0)).blockBuf j [46, 46] = some false

/-- The parent of a directory; the root directory is its own. -/
def IsParent (fs : Fs) (p d : ℕ) : Prop :=
  d = 1 ∧ p = 1 ∨ d ≠ 1 ∧ fs.Reaches p ∧ fs.Enters p d

/-- The path leads from one inode to another. -/
def LeadsTo (fs : Fs) (path : List UInt8) (d n : ℕ) : Prop :=
  ∃ fs', fs.parsePath path d = some ((n : ℤ), fs')

/-- A directory without names other than `.` and `..`. -/
def IsFresh (fs : Fs) (d : ℕ) : Prop :=
  ∃ inode, fs.readInode d = some inode ∧ inode.type = typeDirectory ∧
    (∀ i, 1 ≤ i → i < ndirectBlocks → inode.direct i = 0) ∧
    ∀ j < maxEntries, dentryValid (fs.readBlock (inode.direct 0)).blockBuf j = some true →
      dentryMatches (fs.readBlock (inode.direct 0)).blockBuf j [46] = some true ∨
      dentryMatches (fs.readBlock (inode.direct 0)).blockBuf j [46, 46] = some true

/-! ## In the tree -/

/-- The entries behind `.` and `..` have other names, and a directory that one of
them leads to has its `..` for the directory of the entry. -/
structure Parented (t : Tree) : Prop where
  rooted : Rooted t
  name : ∀ d, ∀ e ∈ t.inner d, e.name ≠ [46] ∧ e.name ≠ [46, 46]
  ne_root : ∀ d, ∀ e ∈ t.inner d, e.valid = true → e.inum ≠ 1
  parent : ∀ d, ∀ e ∈ t.inner d, e.valid = true → ∀ es p rest,
    t.node e.inum = some (.dir es) → Homed t e.inum es p rest → p = d

section Tree

variable {t : Tree} {n m d p : ℕ} {es rest : List Entry} {name : List UInt8}

/-- `do_cd`. -/
lemma Parented.cd (h : Parented t) (hm : t.node m = some (.dir es)) :
    Parented { t with cwd := m } :=
  ⟨h.rooted.cd hm, h.name, h.ne_root, fun d e he hvalid es' p rest hnode hhome =>
    h.parent d e he hvalid es' p rest hnode (hhome.mono hhome.eq fun _ _ he _ _ => he)⟩

lemma Homed.parent_unique {p' : ℕ} {rest' : List Entry} {t' : Tree} (h : Homed t n es p rest)
    (h' : Homed t' n es p' rest') : p = p' := by
  have heq := h.eq.symm.trans h'.eq
  simp only [List.cons.injEq, Entry.mk.injEq, true_and, and_true] at heq
  exact heq.1

/-- A name that a directory has not is neither `.` nor `..`. -/
lemma Homed.name_ne (h : Homed t n es p rest) (hnone : firstNamed es name = none) :
    name ≠ [46] ∧ name ≠ [46, 46] := by
  rw [h.eq] at hnone
  constructor
  · rintro rfl
    exact ne_of_firstNamed hnone (e := ⟨true, n, [46]⟩) (by simp) rfl rfl
  · rintro rfl
    exact ne_of_firstNamed hnone (e := ⟨true, p, [46, 46]⟩) (by simp) rfl rfl

/-- `do_touch` and `do_mkdir`. -/
lemma Parented.create {nd : Node} (h : Parented t) (hc : t.node t.cwd = some (.dir es))
    (hnone : firstNamed es name = none) (hn : t.node n = none) (hle : n ≤ ninodes)
    (hfile : ∀ r, nd = .file r → r = 1)
    (hdir : ∀ es', nd = .dir es' → es' = freshEntries n t.cwd) :
    Parented ((t.set n (some nd)).enter name n) := by
  have hrooted : Rooted ((t.set n (some nd)).enter name n) := h.rooted.create hn hle hfile hdir
  obtain ⟨q, rest₀, hcwd⟩ := h.rooted.home t.cwd es hc
  have hcn : t.cwd ≠ n := by
    rintro rfl
    rw [hn] at hc
    cases hc
  have hc' : (t.set n (some nd)).node t.cwd = some (.dir es) := by
    rw [Tree.node_set_of_ne _ _ hcn]
    exact hc
  have hn1 : n ≠ 1 := by
    rintro rfl
    obtain ⟨es₁, hroot⟩ := h.rooted.root
    rw [hn] at hroot
    cases hroot
  -- an entry is an old one, or the new one in the working directory
  have hinner : ∀ d, ∀ e ∈ ((t.set n (some nd)).enter name n).inner d,
      e ∈ t.inner d ∨ d = t.cwd ∧ e = ⟨true, n, name⟩ ∨ d = n := by
    intro d e he
    by_cases hdn : d = n
    · exact .inr (.inr hdn)
    · rw [Tree.inner_enter hc' hcwd.length_le, Tree.inner, Tree.entries_set_of_ne _ hdn] at he
      rcases List.mem_append.1 he with he | he
      · exact .inl he
      · split at he
        · exact .inr (.inl ⟨‹_›, List.mem_singleton.1 he⟩)
        · cases he
  -- a new directory has no entries behind `.` and `..`
  have hempty : ∀ e, e ∉ ((t.set n (some nd)).enter name n).inner n := by
    intro e he
    rw [Tree.inner_enter hc' hcwd.length_le, Tree.cwd_set, if_neg (Ne.symm hcn), List.append_nil,
      Tree.inner] at he
    cases nd with
    | file r =>
      rw [Tree.entries_set_file] at he
      cases he
    | dir es' =>
      rw [Tree.entries_set_dir, hdir es' rfl] at he
      cases he
  refine ⟨hrooted, fun d e he => ?_, fun d e he hvalid => ?_,
    fun d e he hvalid es' p rest hnode hhome => ?_⟩
  · rcases hinner d e he with he | ⟨-, rfl⟩ | rfl
    · exact h.name d e he
    · exact hcwd.name_ne hnone
    · exact absurd he (hempty e)
  · rcases hinner d e he with he | ⟨-, rfl⟩ | rfl
    · exact h.ne_root d e he hvalid
    · exact hn1
    · exact absurd he (hempty e)
  · rcases hinner d e he with he | ⟨rfl, rfl⟩ | rfl
    · have hen : e.inum ≠ n := by
        intro heq
        exact h.rooted.linked.closed d e (Tree.mem_entries_of_inner he) hvalid (heq ▸ hn)
      by_cases hec : e.inum = t.cwd
      · -- the working directory keeps its `..`
        obtain ⟨p', rest', hhome'⟩ := h.rooted.home t.cwd es hc
        rw [hec, Tree.enter, Tree.cwd_set, Tree.node_set_self, Tree.entries_of_node hc',
          Option.some.injEq, Node.dir.injEq, hhome'.eq] at hnode
        have hpp : p = p' := by
          have heq := hnode.trans hhome.eq
          rw [hec] at heq
          simp only [List.cons_append, List.cons.injEq, Entry.mk.injEq, true_and, and_true] at heq
          exact heq.1.symm
        rw [hpp]
        exact h.parent d e he hvalid es p' rest' (hec ▸ hc) (hec ▸ hhome')
      · rw [Tree.enter, Tree.cwd_set, Tree.node_set_of_ne _ _ hec, Tree.node_set_of_ne _ _ hen] at hnode
        obtain ⟨p', rest', hhome'⟩ := h.rooted.home _ es' hnode
        rw [hhome.parent_unique hhome']
        exact h.parent d e he hvalid es' p' rest' hnode hhome'
    · -- the new directory
      rw [Tree.enter, Tree.cwd_set, Tree.node_set_of_ne _ _ hcn.symm, Tree.node_set_self,
        Option.some.injEq] at hnode
      have heq := hhome.eq
      rw [hdir es' hnode, freshEntries] at heq
      simp only [List.cons.injEq, Entry.mk.injEq, true_and, and_true] at heq
      exact heq.1.symm
    · exact absurd he (hempty e)

end Tree

/-! ## What the card shows -/

/-- A history whose tree has exact links and parents. -/
structure Family (s : History) (t : Tree) : Prop where
  exact : Exact s t
  parented : Parented t

section Family

variable {s : History} {t : Tree} {d p : ℕ} {es : List Entry} {path : Path} (h : Family s t)
include h

lemma Family.reaches_iff (n : ℕ) : s.fs.Reaches n ↔ t.node n ≠ none := by
  have hroot : t.node 1 ≠ none := by
    obtain ⟨es, hroot⟩ := h.parented.rooted.root
    rw [hroot]
    exact Option.some_ne_none _
  rw [h.exact.tracks.reaches_iff h.exact.linked.closed hroot, h.parented.rooted.node_iff]

/-- The directories of the card that are reached are those of the tree. -/
lemma Family.isDirectory_iff (hd : s.fs.Reaches d) :
    s.fs.IsDirectory d ↔ ∃ es, t.node d = some (.dir es) := by
  obtain ⟨v, hs, hr⟩ := h.exact.tracks.stores
  obtain ⟨nd, hnd⟩ := Option.ne_none_iff_exists'.1 ((h.reaches_iff d).1 hd)
  obtain ⟨h1, h2, -⟩ := hs.nodeBounds hr hnd
  obtain ⟨x, hx, hsame, -⟩ := hs.readInode h1 h2
  have htype := hr.type_eq_file hnd hsame
  cases nd with
  | file ref =>
    refine iff_of_false ?_ ?_
    · rintro ⟨y, hy, hdir⟩
      obtain rfl := Option.some.inj (hx.symm.trans hy)
      rw [htype.2 ⟨ref, rfl⟩] at hdir
      exact absurd hdir (by decide)
    · rintro ⟨es, hes⟩
      rw [hnd] at hes
      cases hes
  | dir es =>
    have hat : DirAt v d es := hr.node d _ hnd
    exact iff_of_true ⟨x, hx, hsame.type.trans hat.type⟩ ⟨es, hnd⟩

/-- A directory enters the inodes that its entries behind `.` and `..` lead to. -/
lemma Family.enters_iff (hp : s.fs.Reaches p) :
    s.fs.Enters p d ↔ ∃ e ∈ t.inner p, e.valid = true ∧ e.inum = d := by
  obtain ⟨v, hs, hr⟩ := h.exact.tracks.stores
  constructor
  · rintro ⟨x, j, hx, htype, hj, hvalid, hinum, hdot, hdots⟩
    obtain ⟨es, hnode⟩ := (h.isDirectory_iff hp).1 ⟨x, hx, htype⟩
    obtain ⟨y, b, o⟩ := hs.opened hr hnode
    obtain rfl := Option.some.inj (hx.symm.trans o.inode)
    rw [o.first] at hvalid hinum hdot hdots
    obtain ⟨hlt, hv, hd⟩ := (o.buf.valid_iff hj d).1 ⟨hvalid, hinum⟩
    have hnamed := fun {name : List UInt8} (hname : 0 ∉ name) =>
      (o.buf.entry j hlt).isNamed hname 0
    have hne : es[j].named [46] = false ∧ es[j].named [46, 46] = false :=
      ⟨Option.some.inj ((hnamed (by decide)).symm.trans hdot),
        Option.some.inj ((hnamed (by decide)).symm.trans hdots)⟩
    obtain ⟨q, rest, hhome⟩ := h.parented.rooted.home p es hnode
    have heq := hhome.eq
    subst heq
    rw [Tree.inner_cons (Tree.entries_of_node hnode)]
    match j, hlt with
    | 0, _ => exact absurd hne.1 (by simp [Entry.named])
    | 1, _ => exact absurd hne.2 (by simp [Entry.named])
    | j + 2, hlt => exact ⟨_, List.getElem_mem (Nat.lt_of_succ_lt_succ (Nat.lt_of_succ_lt_succ hlt)),
        hv, hd⟩
  · rintro ⟨e, he, hvalid, rfl⟩
    have hname := h.parented.name p e he
    have hmem := Tree.mem_entries_of_inner he
    obtain ⟨es, hnode⟩ := Tree.exists_dir_of_mem hmem
    rw [Tree.entries_of_node hnode] at hmem
    obtain ⟨j, hj, rfl⟩ := List.mem_iff_getElem.1 hmem
    obtain ⟨x, b, o⟩ := hs.opened hr hnode
    have hat : DirAt v p es := hr.node p _ hnode
    have hj' : j < maxEntries := hj.trans_le o.buf.length
    obtain ⟨hv, hinum⟩ := (o.buf.valid_iff hj' es[j].inum).2 ⟨hj, hvalid, rfl⟩
    have hnot : ∀ name : List UInt8, 0 ∉ name → es[j].name ≠ name →
        dentryMatches (s.fs.readBlock b).blockBuf j name = some false := by
      intro name hzero hne
      refine ((o.buf.entry j hj).isNamed hzero 0).trans ?_
      rw [Entry.named, decide_eq_false hne, Bool.and_false]
    rw [← o.first] at hv hinum hnot
    exact ⟨x, j, o.inode, o.same.type.trans hat.type, hj', hv, hinum, hnot _ (by decide) hname.1,
      hnot _ (by decide) hname.2⟩

/-- Every directory has one parent, the one its `..` is for. -/
lemma Family.isParent_iff {rest : List Entry} {q : ℕ} (hnode : t.node d = some (.dir es))
    (hhome : Homed t d es q rest) : s.fs.IsParent p d ↔ p = q := by
  constructor
  · rintro (⟨rfl, rfl⟩ | ⟨hne, hp, henters⟩)
    · rcases hhome.home with ⟨-, hq⟩ | ⟨hne, -⟩
      · exact hq.symm
      · exact absurd rfl hne
    · obtain ⟨e, he, hvalid, rfl⟩ := (h.enters_iff hp).1 henters
      exact (h.parented.parent p e he hvalid es q rest hnode hhome).symm
  · rintro rfl
    rcases hhome.home with ⟨hd, hp⟩ | ⟨hne, e, he, hvalid, hinum⟩
    · exact .inl ⟨hd, hp⟩
    · obtain ⟨es', hparent⟩ := Tree.exists_dir_of_mem (Tree.mem_entries_of_inner he)
      have hp : s.fs.Reaches p := (h.reaches_iff p).2 (by rw [hparent]; exact Option.some_ne_none _)
      exact .inr ⟨hne, hp, (h.enters_iff hp).2 ⟨e, he, hvalid, hinum⟩⟩

/-- A name without a separator leads where the entries of a directory say. -/
lemma Family.leadsTo {name : List UInt8} {m : ℕ} (hnode : t.node d = some (.dir es))
    (hzero : 0 ∉ name) (hslash : 47 ∉ name) (hm : lookup es d name = some m) :
    s.fs.LeadsTo name d m := by
  obtain ⟨v, hs, hr⟩ := h.exact.tracks.stores
  have hclosed := h.exact.linked.closed d
  rw [Tree.entries_of_node hnode] at hclosed
  obtain ⟨fs', -, hparse⟩ := hs.parsePath hr hnode hzero (.inl hslash) hclosed
  exact ⟨fs', by rw [hparse, hm]; rfl⟩

/-- `.` and `..` of a directory. -/
lemma Family.dots {rest : List Entry} {q : ℕ} (hnode : t.node d = some (.dir es))
    (hhome : Homed t d es q rest) : s.fs.LeadsTo [46] d d ∧ s.fs.LeadsTo [46, 46] d q := by
  have heq := hhome.eq
  subst heq
  exact ⟨h.leadsTo hnode (by decide) (by decide) rfl, h.leadsTo hnode (by decide) (by decide) rfl⟩

/-- Every directory that is reached has one parent, and `.` and `..` lead to the
directory and its parent. -/
lemma Family.links (hd : s.fs.Reaches d) (hdir : s.fs.IsDirectory d) :
    (∃ p, s.fs.IsParent p d) ∧
      ∀ p, s.fs.IsParent p d → s.fs.LeadsTo [46] d d ∧ s.fs.LeadsTo [46, 46] d p := by
  obtain ⟨es, hnode⟩ := (h.isDirectory_iff hd).1 hdir
  obtain ⟨q, rest, hhome⟩ := h.parented.rooted.home d es hnode
  refine ⟨⟨q, (h.isParent_iff hnode hhome).2 rfl⟩, fun p hp => ?_⟩
  obtain rfl := (h.isParent_iff hnode hhome).1 hp
  exact h.dots hnode hhome

/-- A directory with the entries of a new one. -/
lemma Family.isFresh (hnode : t.node d = some (.dir (freshEntries d p))) : s.fs.IsFresh d := by
  obtain ⟨v, hs, hr⟩ := h.exact.tracks.stores
  obtain ⟨x, b, o⟩ := hs.opened hr hnode
  have hat : DirAt v d (freshEntries d p) := hr.node d _ hnode
  refine ⟨x, o.inode, o.same.type.trans hat.type, fun i hi hi' => ?_, fun j hj hvalid => ?_⟩
  · rw [o.same.direct i hi']
    exact hat.rest i hi hi'
  · rw [o.first] at hvalid ⊢
    have hlt : j < (freshEntries d p).length := by
      by_contra hge
      rw [o.buf.dentryValid_unused (not_lt.1 hge) hj] at hvalid
      cases hvalid
    have hnamed := fun {name : List UInt8} (hname : 0 ∉ name) =>
      (o.buf.entry j hlt).isNamed hname 0
    have hlt2 : j < 2 := hlt
    obtain rfl | rfl : j = 0 ∨ j = 1 := by omega
    · exact .inl ((hnamed (by decide)).trans rfl)
    · exact .inr ((hnamed (by decide)).trans rfl)

/-- What a successful `mkdir` leaves: the name leads to the new directory, which
is empty, and a `cd` there and one to `..` lead back. -/
lemma Family.mkdir {fs' : Fs} (hC : LinkCall s (.mkdir path))
    (hmkdir : s.fs.doMkdir path.1 = some (0, fs')) :
    (∃ n : ℕ, s.fs.allocInode.1 = n ∧ fs'.cwdInum = s.fs.cwdInum ∧
      (∃ fs'', fs'.parsePath path.1 fs'.cwdInum = some ((n : ℤ), fs'')) ∧ fs'.IsFresh n) ∧
    ∃ fs₁ fs₂, fs'.doCd path.1 = some (0, fs₁) ∧ fs₁.doCd [46, 46] = some (0, fs₂) ∧
      fs₂.cwdInum = s.fs.cwdInum := by
  rcases h.exact.mkdir_cases hC with ⟨fs₀, hrefused, -⟩ |
    ⟨es, n, fs₀, hc, hfirst, hn, hle, hmade, halloc, hexact⟩
  · rw [hmkdir] at hrefused
    cases hrefused
  obtain rfl : fs' = fs₀ := by
    rw [hmkdir, Option.some.injEq, Prod.mk.injEq] at hmade
    exact hmade.2
  have h' : Family ⟨fs', n :: s.returned⟩ _ := ⟨hexact, h.parented.create hc hfirst hn hle
    (fun _ hr => by cases hr) fun es' hes => (Node.dir.inj hes).symm⟩
  have hcn : t.cwd ≠ n := by
    rintro rfl
    rw [hn] at hc
    cases hc
  have hc₀ : (t.set n (some (.dir (freshEntries n t.cwd)))).node t.cwd = some (.dir es) := by
    rw [Tree.node_set_of_ne _ _ hcn]
    exact hc
  -- the new entry is the first one with the name
  have hc' : ((t.set n (some (.dir (freshEntries n t.cwd)))).enter path.1 n).node t.cwd =
      some (.dir (es ++ [⟨true, n, path.1⟩])) := by
    rw [Tree.enter, Tree.cwd_set, Tree.node_set_self, Tree.entries_of_node hc₀]
  have hnode : ((t.set n (some (.dir (freshEntries n t.cwd)))).enter path.1 n).node n =
      some (.dir (freshEntries n t.cwd)) := by
    rw [Tree.enter, Tree.cwd_set, Tree.node_set_of_ne _ _ hcn.symm, Tree.node_set_self]
  have hlook : lookup (es ++ [⟨true, n, path.1⟩]) t.cwd path.1 = some n := by
    have hnew : firstNamed (es ++ [⟨true, n, path.1⟩]) path.1 = some es.length := by
      rw [firstNamed, List.findIdx?_append, ← firstNamed, hfirst]
      simp [Entry.named, List.findIdx?_cons]
    obtain ⟨hhit, -⟩ := lookup_name (n := t.cwd) hC.1 (hexact.length_le hc')
    rw [hhit es.length (by simp) hnew]
    simp
  have hst := hexact.tracks.stores
  have hplain : Plain (es ++ [⟨true, n, path.1⟩]) path.1 := .inl hC.1.2.2
  have hclosed := fun k => hexact.linked.closed k
  have hclosed' := hclosed t.cwd
  rw [Tree.entries_of_node hc'] at hclosed'
  obtain ⟨v, fs'', r⟩ := hst.resolved hc' path.2 hplain hclosed' hlook
  have hcwd : s.fs.cwdInum = t.cwd := by
    obtain ⟨v₀, hs₀, hr₀⟩ := h.exact.tracks.stores
    exact hs₀.cwdInum.trans hr₀.cwd
  have hcwd' : fs'.cwdInum = t.cwd := r.before.cwdInum.trans r.represents.cwd
  refine ⟨⟨n, halloc, hcwd'.trans hcwd.symm, ⟨fs'', r.parse⟩, h'.isFresh hnode⟩, ?_⟩
  -- there and back
  obtain ⟨fs₁, hcd, hst₁⟩ := hst.doCd hc' path.2 hplain hclosed' hlook hnode
  have hclosed₁ := hclosed n
  rw [Tree.entries_of_node hnode] at hclosed₁
  have hup : 47 ∉ ([46, 46] : List UInt8) := by decide
  obtain ⟨fs₂, hback, hst₂⟩ :=
    hst₁.doCd hnode (by decide) (.inl hup) hclosed₁ (m := t.cwd) rfl hc'
  obtain ⟨v₂, hs₂, hr₂⟩ := hst₂
  exact ⟨fs₁, fs₂, hcd, hback, (hs₂.cwdInum.trans hr₂.cwd).trans hcwd.symm⟩

end Family

/-! ## Runs -/

lemma parented_imageTree (fd : ℕ → Fdesc) : Parented (imageTree fd) := by
  have hinner : ∀ d, ∀ e ∈ (imageTree fd).inner d, d = 1 ∧ e = ⟨true, 2, bigfileName⟩ := by
    intro d e he
    rw [Tree.inner, imageTree_entries] at he
    split at he
    · exact ⟨‹_›, List.mem_singleton.1 he⟩
    · cases he
  refine ⟨rooted_imageTree fd, fun d e he => ?_, fun d e he _ => ?_, fun d e he _ es p rest hn => ?_⟩
  · obtain ⟨-, rfl⟩ := hinner d e he
    exact ⟨by decide, by decide⟩
  · obtain ⟨-, rfl⟩ := hinner d e he
    exact (show 2 ≠ 1 by decide)
  · -- the entry leads to a file
    obtain ⟨-, rfl⟩ := hinner d e he
    rcases imageTree_node fd hn with ⟨h21, -⟩ | ⟨-, hfile⟩
    · cases h21
    · cases hfile

lemma family_image {fs : Fs} (fd : ℕ → Fdesc) (h : fs.Stores (imageTree fd)) :
    Family ⟨fs, [1, 2]⟩ (imageTree fd) :=
  ⟨exact_image fd h, parented_imageTree fd⟩

section Runs

variable {s : History} {t : Tree} {path : Path}

lemma Family.create {s' : History} {es : List Entry} {n : ℕ} {nd : Node} (h : Family s t)
    (hc : t.node t.cwd = some (.dir es)) (hfirst : firstNamed es path.1 = none)
    (hn : t.node n = none) (hle : n ≤ ninodes) (hfile : ∀ r, nd = .file r → r = 1)
    (hdir : ∀ es', nd = .dir es' → es' = freshEntries n t.cwd)
    (hexact : Exact s' ((t.set n (some nd)).enter path.1 n)) :
    Family s' ((t.set n (some nd)).enter path.1 n) :=
  ⟨hexact, h.parented.create hc hfirst hn hle hfile hdir⟩

/-- One call of the kind allowed returns and keeps the parents. -/
lemma Family.step (h : Family s t) {call : Syscall} (hC : TreeCall s call) :
    ∃ s' t', s.step call = some s' ∧ Family s' t' := by
  cases call with
  | touch path =>
    rcases h.exact.touch_cases hC with ⟨fs', htouch, h'⟩ |
      ⟨es, n, fs', hc, hfirst, hn, hle, htouch, halloc, h'⟩
    · exact ⟨_, t, History.step_touch htouch, h', h.parented⟩
    · have hstep := History.step_touch htouch
      rw [if_pos rfl, halloc, Int.toNat_natCast] at hstep
      exact ⟨_, _, hstep, h.create hc hfirst hn hle (fun r hr => (Node.file.inj hr).symm)
        (fun _ hes => by cases hes) h'⟩
  | mkdir path =>
    rcases h.exact.mkdir_cases hC with ⟨fs', hmkdir, h'⟩ |
      ⟨es, n, fs', hc, hfirst, hn, hle, hmkdir, halloc, h'⟩
    · exact ⟨_, t, History.step_mkdir hmkdir, h', h.parented⟩
    · have hstep := History.step_mkdir hmkdir
      rw [if_pos rfl, halloc, Int.toNat_natCast] at hstep
      exact ⟨_, _, hstep, h.create hc hfirst hn hle (fun _ hr => by cases hr)
        (fun es' hes => (Node.dir.inj hes).symm) h'⟩
  | cd path =>
    obtain ⟨s', hstep, h' | ⟨m, es, hm, h'⟩⟩ := h.exact.cd_cases hC
    · exact ⟨s', t, hstep, h', h.parented⟩
    · exact ⟨s', _, hstep, h', h.parented.cd hm⟩
  | _ => exact hC.elim

end Runs

/-- From the state `do_mkfs` leaves, the calls of every run that makes files and
directories and moves between them return.  In every state reached, `.` and `..` of
each directory lead to the directory and to its parent, and a successful `do_mkdir`
makes a directory that is empty and that two `do_cd` enter and leave again. -/
theorem directoryLinks (fs₀ : Fs) :
    ∃ fs, fs₀.doMkfs = some (0, fs) ∧
      ∀ calls, Trace.StepsMeet History.step TreeCall ⟨fs, [1, 2]⟩ calls →
        ∃ s, Trace.run History.step ⟨fs, [1, 2]⟩ calls = some s ∧
          (∀ d, s.fs.Reaches d → s.fs.IsDirectory d → (∃ p, s.fs.IsParent p d) ∧
            ∀ p, s.fs.IsParent p d → s.fs.LeadsTo [46] d d ∧ s.fs.LeadsTo [46, 46] d p) ∧
          ∀ (path : Path) (fs' : Fs), TreeCall s (.mkdir path) →
            s.fs.doMkdir path.1 = some (0, fs') →
            (∃ n : ℕ, s.fs.allocInode.1 = n ∧ fs'.cwdInum = s.fs.cwdInum ∧
              (∃ fs'', fs'.parsePath path.1 fs'.cwdInum = some ((n : ℤ), fs'')) ∧
              fs'.IsFresh n) ∧
            ∃ fs₁ fs₂, fs'.doCd path.1 = some (0, fs₁) ∧ fs₁.doCd [46, 46] = some (0, fs₂) ∧
              fs₂.cwdInum = s.fs.cwdInum := by
  obtain ⟨fs, hmkfs, hstores⟩ := doMkfs_stores fs₀
  refine ⟨fs, hmkfs, fun calls hC => ?_⟩
  obtain ⟨s, hrun, t, h⟩ := Trace.run_total (P := fun s => ∃ t, Family s t)
    (fun s call ⟨t, h⟩ hcall => by
      obtain ⟨s', t', hs', h'⟩ := h.step hcall
      exact ⟨s', hs', t', h'⟩) ⟨_, family_image _ hstores⟩ hC
  exact ⟨s, hrun, fun d => h.links, fun path fs' => h.mkdir⟩

/-- A new directory on a freshly formatted empty card. -/
theorem directoryLinks_newDirectory :
    ∃ fs s, emptyCard.doMkfs = some (0, fs) ∧
      Trace.run History.step ⟨fs, [1, 2]⟩ [.mkdir ⟨[97], by decide⟩] = some s ∧
      ∀ d, s.fs.Reaches d → s.fs.IsDirectory d → (∃ p, s.fs.IsParent p d) ∧
        ∀ p, s.fs.IsParent p d → s.fs.LeadsTo [46] d d ∧ s.fs.LeadsTo [46, 46] d p := by
  obtain ⟨fs, hmkfs, hruns⟩ := directoryLinks emptyCard
  have hstores := stores_of_doMkfs hmkfs
  have hthree : Handed ninodes 3 := ⟨by decide, by decide, by decide⟩
  have hcall : TreeCall ⟨fs, [1, 2]⟩ (.mkdir ⟨[97], by decide⟩) :=
    ⟨⟨by decide, by decide, by decide⟩, .inr ⟨(hstores.hasFreeSlot_iff rfl).2 (by decide),
      hstores.mapOpen_iff.2 ⟨3, hthree, rfl⟩⟩⟩
  obtain ⟨s, hrun, hlinks, -⟩ := hruns [.mkdir ⟨[97], by decide⟩]
    (Trace.stepsMeet_cons hcall fun _ _ => Trace.stepsMeet_nil _ _)
  exact ⟨fs, s, hmkfs, hrun, hlinks⟩

end Fs
end UcasKernel
