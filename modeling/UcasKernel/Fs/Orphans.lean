/-
Reachability from the root directory.

In a tree every inode in use is reached from the root along valid entries, and
every directory but the root is entered in the one its `..` leads to.  New entries
keep this, and so does the removal of a file.  The removal of a directory keeps it
when the directory is empty and nothing else leads to it.
-/
import UcasKernel.Fs.Links

namespace UcasKernel
namespace Fs

namespace Tree

/-- The inodes that valid entries lead to from the root directory. -/
inductive Reach (t : Tree) : ℕ → Prop
  | root : t.Reach 1
  | entry {d : ℕ} {e : Entry} (hd : t.Reach d) (he : e ∈ t.entries d) (hvalid : e.valid = true) :
    t.Reach e.inum

/-- The entries of a directory behind `.` and `..`. -/
def inner (t : Tree) (d : ℕ) : List Entry := (t.entries d).drop 2

variable {t t' : Tree} {n m d j : ℕ} {es : List Entry} {name : List UInt8} {e : Entry}

/-- A set with the root that is closed under valid entries has all that is
reached. -/
lemma Reach.mem_of_closed {S : ℕ → Prop} (hroot : S 1)
    (hclosed : ∀ d, S d → ∀ e ∈ t.entries d, e.valid = true → S e.inum) (h : t.Reach n) : S n := by
  induction h with
  | root => exact hroot
  | entry _ he hvalid ih => exact hclosed _ ih _ he hvalid

/-- With more entries more is reached. -/
lemma Reach.mono (hsub : ∀ d, ∀ e ∈ t.entries d, e.valid = true → e ∈ t'.entries d)
    (h : t.Reach n) : t'.Reach n :=
  h.mem_of_closed .root fun d hd e he hvalid => .entry hd (hsub d e he hvalid) hvalid

lemma mem_entries_of_inner (h : e ∈ t.inner d) : e ∈ t.entries d := List.mem_of_mem_drop h

lemma inner_cons {a b : Entry} {rest : List Entry} (h : t.entries d = a :: b :: rest) :
    t.inner d = rest := by rw [inner, h]; rfl

/-- A directory that has an entry. -/
lemma exists_dir_of_mem (h : e ∈ t.entries d) : ∃ es, t.node d = some (.dir es) := by
  cases hnode : t.node d with
  | none =>
    rw [entries_of_none hnode] at h
    cases h
  | some nd =>
    cases nd with
    | file ref =>
      rw [entries_of_file hnode] at h
      cases h
    | dir es => exact ⟨es, rfl⟩

section Cwd

variable (hc : t.node t.cwd = some (.dir es))
include hc

lemma entries_enter (name : List UInt8) (m d : ℕ) : (t.enter name m).entries d =
    t.entries d ++ if d = t.cwd then [⟨true, m, name⟩] else [] := by
  rw [enter, entries_of_node hc]
  by_cases hd : d = t.cwd
  · subst hd
    rw [entries_set_dir, if_pos rfl, entries_of_node hc]
  · rw [entries_set_of_ne _ hd, if_neg hd, List.append_nil]

lemma inner_enter (hlen : 2 ≤ es.length) (name : List UInt8) (m d : ℕ) :
    (t.enter name m).inner d = t.inner d ++ if d = t.cwd then [⟨true, m, name⟩] else [] := by
  rw [inner, inner, entries_enter hc]
  by_cases hd : d = t.cwd
  · subst hd
    rw [if_pos rfl, entries_of_node hc, List.drop_append_of_le_length hlen]
  · rw [if_neg hd, List.append_nil, List.append_nil]

/-- The entries of a tree of which one was cleared, as the old ones. -/
lemma entries_unlink (j d : ℕ) : (t.unlink j).entries d =
    if d = t.cwd then es.modify j Entry.cleared else t.entries d := by
  rw [unlink, entries_of_node hc]
  split
  · rename_i hd
    subst hd
    exact entries_set_dir _ _ _
  · rename_i hd
    exact entries_set_of_ne _ hd

omit hc in
/-- An entry that leads elsewhere than the cleared one stays. -/
lemma mem_modify_of_ne (hj : j < es.length) (he : e ∈ es) (hne : e.inum ≠ es[j].inum) :
    e ∈ es.modify j Entry.cleared := by
  obtain ⟨i, hi, rfl⟩ := List.mem_iff_getElem.1 he
  refine List.mem_iff_getElem.2 ⟨i, by rwa [List.length_modify], ?_⟩
  rw [List.getElem_modify, if_neg]
  rintro rfl
  exact hne rfl

lemma mem_entries_unlink_of_ne (hj : j < es.length) (he : e ∈ t.entries d)
    (hne : e.inum ≠ es[j].inum) : e ∈ (t.unlink j).entries d := by
  rw [entries_unlink hc]
  split
  · rename_i hd
    subst hd
    rw [entries_of_node hc] at he
    exact mem_modify_of_ne hj he hne
  · exact he

end Cwd

end Tree

/-! ## The invariant -/

/-- The entries of a directory of the tree: `.`, `..` and others.  The directory
`..` leads to has an entry for it. -/
structure Homed (t : Tree) (n : ℕ) (es : List Entry) (p : ℕ) (rest : List Entry) : Prop where
  eq : es = ⟨true, n, [46]⟩ :: ⟨true, p, [46, 46]⟩ :: rest
  home : n = 1 ∧ p = 1 ∨ n ≠ 1 ∧ ∃ e ∈ t.inner p, e.valid = true ∧ e.inum = n

/-- Every inode in use is reached from the root. -/
structure Rooted (t : Tree) : Prop where
  linked : Linked t
  root : ∃ es, t.node 1 = some (.dir es)
  reach : ∀ n, t.node n ≠ none → t.Reach n
  home : ∀ n es, t.node n = some (.dir es) → ∃ p rest, Homed t n es p rest

section Rooted

variable {t t' : Tree} {n m j ref : ℕ} {es : List Entry} {name : List UInt8} {e : Entry}

/-- The inodes in use are those that are reached. -/
lemma Rooted.node_iff (h : Rooted t) (n : ℕ) : t.node n ≠ none ↔ t.Reach n := by
  refine ⟨h.reach n, fun hn => ?_⟩
  refine hn.mem_of_closed (S := fun k => t.node k ≠ none) ?_
    fun d _ e he hvalid => h.linked.closed d e he hvalid
  obtain ⟨es, hroot⟩ := h.root
  rw [hroot]
  exact Option.some_ne_none _

lemma Homed.length_le {p : ℕ} {rest : List Entry} (h : Homed t n es p rest) : 2 ≤ es.length := by
  rw [h.eq, List.length_cons, List.length_cons]
  omega

/-- `..` leads to a directory. -/
lemma Homed.parent {p : ℕ} {rest : List Entry} (h : Homed t n es p rest)
    (hroot : ∃ es, t.node 1 = some (.dir es)) : ∃ es', t.node p = some (.dir es') := by
  rcases h.home with ⟨-, rfl⟩ | ⟨-, e, he, -⟩
  · exact hroot
  · exact Tree.exists_dir_of_mem (Tree.mem_entries_of_inner he)

/-- The entry that enters a directory stays when entries are added. -/
lemma Homed.mono {es' : List Entry} {p : ℕ} {rest rest' : List Entry} (h : Homed t n es p rest)
    (heq : es' = ⟨true, n, [46]⟩ :: ⟨true, p, [46, 46]⟩ :: rest')
    (hsub : ∀ d, ∀ e ∈ t.inner d, e.valid = true → e.inum = n → e ∈ t'.inner d) :
    Homed t' n es' p rest' := by
  refine ⟨heq, ?_⟩
  rcases h.home with hroot | ⟨hne, e, he, hvalid, hinum⟩
  · exact .inl hroot
  · exact .inr ⟨hne, e, hsub p e he hvalid hinum, hvalid, hinum⟩

/-- `do_cd`. -/
lemma Rooted.cd (h : Rooted t) (hm : t.node m = some (.dir es)) : Rooted { t with cwd := m } := by
  have hreach : ∀ k, t.Reach k → ({ t with cwd := m } : Tree).Reach k := fun k hk =>
    Tree.Reach.mono (t := t) (fun _ _ he _ => he) hk
  refine ⟨h.linked.cd hm, h.root, fun k hk => hreach k (h.reach k hk), fun k es' hk => ?_⟩
  obtain ⟨p, rest, hhome⟩ := h.home k es' hk
  exact ⟨p, rest, hhome.mono hhome.eq fun _ _ he _ _ => he⟩

/-- A tree with a further entry of the working directory, for an inode in use. -/
lemma Rooted.enter_home (h : Rooted t) (hc : t.node t.cwd = some (.dir es)) {k : ℕ}
    {es' : List Entry} (hk : (t.enter name m).node k = some (.dir es')) :
    ∃ p rest, Homed (t.enter name m) k es' p rest := by
  obtain ⟨q, rest₀, hcwd⟩ := h.home t.cwd es hc
  have hsub : ∀ d, ∀ e ∈ t.inner d, e.valid = true → e.inum = k → e ∈ (t.enter name m).inner d := by
    intro d e he _ _
    rw [Tree.inner_enter hc hcwd.length_le]
    exact List.mem_append_left _ he
  by_cases hkc : k = t.cwd
  · subst hkc
    rw [Tree.enter, Tree.node_set_self, Option.some.injEq, Node.dir.injEq,
      Tree.entries_of_node hc] at hk
    refine ⟨q, rest₀ ++ [⟨true, m, name⟩], hcwd.mono ?_ hsub⟩
    rw [← hk, hcwd.eq]
    rfl
  · rw [Tree.enter, Tree.node_set_of_ne _ _ hkc] at hk
    obtain ⟨p, rest, hhome⟩ := h.home k es' hk
    exact ⟨p, rest, hhome.mono hhome.eq hsub⟩

/-- What was reached is reached with a further entry. -/
lemma reach_enter (hc : t.node t.cwd = some (.dir es)) {k : ℕ} (hk : t.Reach k) :
    (t.enter name m).Reach k := by
  refine hk.mono fun d e he _ => ?_
  rw [Tree.entries_enter hc]
  exact List.mem_append_left _ he

/-- A new node that has no entries to be entered yet keeps the others as they are. -/
lemma Rooted.create (h : Rooted t) {nd : Node} (hn : t.node n = none) (hle : n ≤ ninodes)
    (hfile : ∀ r, nd = .file r → r = 1)
    (hdir : ∀ es', nd = .dir es' → es' = freshEntries n t.cwd) :
    Rooted ((t.set n (some nd)).enter name n) := by
  obtain ⟨es, hc⟩ := h.linked.cwd
  obtain ⟨q, rest₀, hcwd⟩ := h.home t.cwd es hc
  have hcn : t.cwd ≠ n := by
    rintro rfl
    rw [hn] at hc
    cases hc
  have hc' : (t.set n (some nd)).node t.cwd = some (.dir es) := by
    rw [Tree.node_set_of_ne _ _ hcn]
    exact hc
  have hsub : ∀ d, ∀ e ∈ t.entries d, e ∈ ((t.set n (some nd)).enter name n).entries d := by
    intro d e he
    have hd : d ≠ n := by
      rintro rfl
      rw [Tree.entries_of_none hn] at he
      cases he
    rw [Tree.entries_enter hc', Tree.entries_set_of_ne _ hd]
    exact List.mem_append_left _ he
  have hsub' : ∀ d, ∀ e ∈ t.inner d, e ∈ ((t.set n (some nd)).enter name n).inner d := by
    intro d e he
    have hd : d ≠ n := by
      rintro rfl
      rw [Tree.inner, Tree.entries_of_none hn] at he
      cases he
    rw [Tree.inner_enter hc' hcwd.length_le, Tree.inner, Tree.entries_set_of_ne _ hd]
    exact List.mem_append_left _ he
  have hnew : ⟨true, n, name⟩ ∈ ((t.set n (some nd)).enter name n).inner t.cwd := by
    rw [Tree.inner_enter hc' hcwd.length_le, Tree.cwd_set, if_pos rfl]
    exact List.mem_append_right _ (List.mem_singleton.2 rfl)
  have hreach : ∀ k, t.Reach k → ((t.set n (some nd)).enter name n).Reach k := fun k hk =>
    hk.mono fun d e he _ => hsub d e he
  have hcwdReach : t.Reach t.cwd := h.reach _ (by rw [hc]; exact Option.some_ne_none _)
  refine ⟨h.linked.create hn hle hfile hdir, ?_, fun k hk => ?_, fun k es' hk => ?_⟩
  · obtain ⟨es₁, hroot⟩ := h.root
    have hone : 1 ≠ n := by
      rintro rfl
      rw [hn] at hroot
      cases hroot
    by_cases h1 : 1 = t.cwd
    · exact ⟨_, by rw [h1, Tree.enter]; exact Tree.node_set_self _ _ _⟩
    · refine ⟨es₁, ?_⟩
      rw [Tree.enter, Tree.cwd_set, Tree.node_set_of_ne _ _ h1, Tree.node_set_of_ne _ _ hone, hroot]
  · by_cases hkn : k = n
    · subst hkn
      exact Tree.Reach.entry (hreach _ hcwdReach) (Tree.mem_entries_of_inner hnew) rfl
    · refine hreach k (h.reach k ?_)
      rw [ne_eq, node_enter_eq_none hc', Tree.node_set_of_ne _ _ hkn] at hk
      exact hk
  · by_cases hkn : k = n
    · -- the new directory is entered in the working directory
      subst hkn
      rw [Tree.enter, Tree.cwd_set, Tree.node_set_of_ne _ _ hcn.symm, Tree.node_set_self,
        Option.some.injEq] at hk
      refine ⟨t.cwd, [], by rw [hdir es' hk]; rfl, .inr ⟨?_, _, hnew, rfl, rfl⟩⟩
      rintro rfl
      obtain ⟨es₁, hroot⟩ := h.root
      rw [hn] at hroot
      cases hroot
    · by_cases hkc : k = t.cwd
      · subst hkc
        rw [Tree.enter, Tree.cwd_set, Tree.node_set_self, Option.some.injEq, Node.dir.injEq,
          Tree.entries_of_node hc'] at hk
        refine ⟨q, rest₀ ++ [⟨true, n, name⟩], hcwd.mono ?_ fun d e he _ _ => hsub' d e he⟩
        rw [← hk, hcwd.eq]
        rfl
      · rw [Tree.enter, Tree.cwd_set, Tree.node_set_of_ne _ _ hkc, Tree.node_set_of_ne _ _ hkn] at hk
        obtain ⟨p, rest, hhome⟩ := h.home k es' hk
        exact ⟨p, rest, hhome.mono hhome.eq fun d e he _ _ => hsub' d e he⟩

/-- `do_ln` of a directory adds an entry only. -/
lemma Linked.lnDir {es' : List Entry} (h : Linked t) (hm : t.node m = some (.dir es')) :
    (t.enter name m).bump m = t.enter name m ∧ Linked (t.enter name m) := by
  obtain ⟨es, hc⟩ := h.cwd
  have hnone : ∀ k, (t.enter name m).node k = none ↔ t.node k = none := node_enter_eq_none hc
  refine ⟨?_, ⟨_, Tree.node_set_self _ _ _⟩, fun k hk => h.le k fun hk' => hk ((hnone k).2 hk'),
    fun d e he hvalid => ?_, fun k r hk => ?_⟩
  · have hdir : ∃ es'', (t.enter name m).node m = some (.dir es'') := by
      by_cases hmc : m = t.cwd
      · subst hmc
        exact ⟨_, Tree.node_set_self _ _ _⟩
      · exact ⟨es', by rw [Tree.enter, Tree.node_set_of_ne _ _ hmc, hm]⟩
    obtain ⟨es'', hdir⟩ := hdir
    rw [Tree.bump, hdir]
  · rw [ne_eq, hnone]
    rcases mem_entries_enter hc he with he | rfl
    · exact h.closed d e he hvalid
    · rw [hm]
      exact Option.some_ne_none _
  · have hk' := node_enter_file hk
    have hkm : m ≠ k := by
      rintro rfl
      rw [hm] at hk'
      cases hk'
    rw [Tree.links_enter hc h.cwd_le, if_neg hkm, Nat.add_zero]
    exact h.exact k r hk'

/-- `do_ln`. -/
lemma Rooted.ln (h : Rooted t) {nd : Node} (hm : t.node m = some nd) :
    Rooted ((t.enter name m).bump m) := by
  obtain ⟨es, hc⟩ := h.linked.cwd
  have hlinked : Linked ((t.enter name m).bump m) := by
    cases nd with
    | file ref => exact h.linked.ln hm
    | dir es' =>
      rw [(h.linked.lnDir hm).1]
      exact (h.linked.lnDir hm).2
  have hnode := node_bump_dir (t.enter name m) m
  have hentries := entries_bump (t.enter name m) m
  refine ⟨hlinked, ?_, fun k hk => ?_, fun k es' hk => ?_⟩
  · obtain ⟨es₁, hroot⟩ := h.root
    by_cases h1 : 1 = t.cwd
    · exact ⟨_, (hnode 1 _).2 (by rw [h1]; exact Tree.node_set_self _ _ _)⟩
    · exact ⟨es₁, (hnode 1 _).2 (by rw [Tree.enter, Tree.node_set_of_ne _ _ h1, hroot])⟩
  · rw [ne_eq, node_bump_eq_none, node_enter_eq_none hc] at hk
    have hk' : (t.enter name m).Reach k := reach_enter hc (h.reach k hk)
    refine hk'.mono fun d e he _ => ?_
    rwa [hentries]
  · obtain ⟨p, rest, hhome⟩ := h.enter_home hc ((hnode k es').1 hk)
    refine ⟨p, rest, hhome.mono hhome.eq fun d e he _ _ => ?_⟩
    rwa [Tree.inner, hentries]

/-! ## Removed entries -/

/-- The entries behind `.` and `..` when one of them is cleared. -/
lemma mem_inner_unlink (hc : t.node t.cwd = some (.dir es)) (hj : j < es.length) (h2 : 2 ≤ j)
    {d : ℕ} (he : e ∈ t.inner d) (hne : e.inum ≠ es[j].inum) : e ∈ (t.unlink j).inner d := by
  rw [Tree.inner, Tree.entries_unlink hc]
  split
  · rename_i hd
    subst hd
    rw [Tree.inner, Tree.entries_of_node hc] at he
    obtain ⟨i, hi, rfl⟩ := List.mem_iff_getElem.1 he
    rw [List.length_drop] at hi
    refine List.mem_iff_getElem.2 ⟨i, by rw [List.length_drop, List.length_modify]; exact hi, ?_⟩
    rw [List.getElem_drop, List.getElem_drop, List.getElem_modify, if_neg]
    rintro rfl
    rw [List.getElem_drop] at hne
    exact hne rfl
  · exact he

/-- A directory after an entry that leads elsewhere was cleared. -/
lemma Rooted.unlink_home (h : Rooted t) (hc : t.node t.cwd = some (.dir es)) (hj : j < es.length)
    (h2 : 2 ≤ j) {k : ℕ} {es' : List Entry} (hk : (t.unlink j).node k = some (.dir es'))
    (hne : k ≠ es[j].inum) :
    ∃ p rest, Homed (t.unlink j) k es' p rest := by
  have hsub : ∀ d, ∀ e ∈ t.inner d, e.valid = true → e.inum = k → e ∈ (t.unlink j).inner d :=
    fun d e he _ hinum => mem_inner_unlink hc hj h2 he (hinum ▸ hne)
  by_cases hkc : k = t.cwd
  · subst hkc
    rw [Tree.unlink, Tree.node_set_self, Option.some.injEq, Node.dir.injEq,
      Tree.entries_of_node hc] at hk
    obtain ⟨p, rest, hhome⟩ := h.home t.cwd es hc
    obtain ⟨i, rfl⟩ : ∃ i, j = i + 2 := ⟨j - 2, by omega⟩
    refine ⟨p, rest.modify i Entry.cleared, hhome.mono ?_ hsub⟩
    rw [← hk, hhome.eq]
    rfl
  · rw [Tree.unlink, Tree.node_set_of_ne _ _ hkc] at hk
    obtain ⟨p, rest, hhome⟩ := h.home k es' hk
    exact ⟨p, rest, hhome.mono hhome.eq hsub⟩

/-- An entry that leads to a file stands behind `.` and `..`. -/
lemma Rooted.two_le_of_file (h : Rooted t) (hc : t.node t.cwd = some (.dir es))
    (hj : j < es.length) (hm : t.node es[j].inum = some (.file ref)) : 2 ≤ j := by
  obtain ⟨p, rest, hhome⟩ := h.home t.cwd es hc
  obtain ⟨es', hparent⟩ := hhome.parent h.root
  have heq := hhome.eq
  subst heq
  by_contra hlt
  rcases (by omega : j = 0 ∨ j = 1) with rfl | rfl
  · exact ne_cwd_of_file hc hm rfl
  · rw [show (_ :: _ :: rest : List Entry)[1].inum = p from rfl, hparent] at hm
    cases hm

/-- `do_rm` of a file. -/
lemma Rooted.rm (h : Rooted t) (hc : t.node t.cwd = some (.dir es)) (hj : j < es.length)
    (hvalid : es[j].valid = true) (hm : t.node es[j].inum = some (.file ref)) :
    Rooted ((t.unlink j).drop es[j].inum) := by
  have hlinked := h.linked.rm hc hj hvalid hm
  obtain ⟨hentries, hlinks, hnone, -⟩ := h.linked.unlink_drop hc hj hvalid hm
  have h2 := h.two_le_of_file hc hj hm
  have hmc := ne_cwd_of_file hc hm
  have hm' : (t.unlink j).node es[j].inum = some (.file ref) := by
    rw [Tree.unlink, Tree.node_set_of_ne _ _ hmc]
    exact hm
  have hdir : ∀ k es', ((t.unlink j).drop es[j].inum).node k = some (.dir es') ↔
      (t.unlink j).node k = some (.dir es') := by
    intro k es'
    rw [Tree.drop, hm']
    by_cases hkm : k = es[j].inum
    · subst hkm
      dsimp only
      rw [Tree.node_set_self, hm']
      exact iff_of_false (by split <;> simp) (by simp)
    · dsimp only
      rw [Tree.node_set_of_ne _ _ hkm]
  -- no path leads through the file
  have hreach : ∀ k, t.Reach k → k = es[j].inum ∨ ((t.unlink j).drop es[j].inum).Reach k := by
    intro k hk
    refine hk.mem_of_closed (S := fun k => k = es[j].inum ∨ _) (.inr .root) ?_
    rintro d (rfl | hd) e he hvalid'
    · rw [Tree.entries_of_file hm] at he
      cases he
    · by_cases hinum : e.inum = es[j].inum
      · exact .inl hinum
      · refine .inr (hd.entry ?_ hvalid')
        rw [hentries]
        exact Tree.mem_entries_unlink_of_ne hc hj he hinum
  refine ⟨hlinked, ?_, fun k hk => ?_, fun k es' hk => ?_⟩
  · obtain ⟨es₁, hroot⟩ := h.root
    by_cases h1 : 1 = t.cwd
    · exact ⟨_, (hdir 1 _).2 (by rw [h1]; exact Tree.node_set_self _ _ _)⟩
    · exact ⟨es₁, (hdir 1 _).2 (by rw [Tree.unlink, Tree.node_set_of_ne _ _ h1, hroot])⟩
  · have hk' : t.node k ≠ none := fun hk' => hk ((hnone k).2 (.inl hk'))
    rcases hreach k (h.reach k hk') with rfl | hreached
    · -- another entry leads to the file
      obtain ⟨nd, hnd⟩ := Option.ne_none_iff_exists'.1 hk
      have hfile : ∃ r, nd = .file r := by
        cases nd with
        | file r => exact ⟨r, rfl⟩
        | dir es' =>
          rw [hdir, hm'] at hnd
          cases hnd
      obtain ⟨r, rfl⟩ := hfile
      obtain ⟨hr, hpos⟩ := hlinked.exact _ r hnd
      obtain ⟨d, -, hd⟩ := Finset.exists_ne_zero_of_sum_ne_zero
        (show ((t.unlink j).drop es[j].inum).links es[j].inum ≠ 0 by omega)
      obtain ⟨e, he, hand⟩ := List.countP_pos_iff.1 (Nat.pos_of_ne_zero hd)
      rw [Bool.and_eq_true, decide_eq_true_eq] at hand
      obtain ⟨es', hdnode⟩ := Tree.exists_dir_of_mem he
      have hdm : d ≠ es[j].inum := by
        rintro rfl
        rw [hdir, hm'] at hdnode
        cases hdnode
      have hd' : t.node d ≠ none := fun hd' => by
        rw [(hnone d).2 (.inl hd')] at hdnode
        cases hdnode
      have hreached := Tree.Reach.entry ((hreach d (h.reach d hd')).resolve_left hdm) he hand.1
      rwa [hand.2] at hreached
    · exact hreached
  · have hkm : k ≠ es[j].inum := by
      rintro rfl
      rw [hdir, hm'] at hk
      cases hk
    obtain ⟨p, rest, hhome⟩ := h.unlink_home hc hj h2 ((hdir k es').1 hk) hkm
    refine ⟨p, rest, hhome.mono hhome.eq fun d e he _ _ => ?_⟩
    rwa [Tree.inner, hentries]

/-! ## Removed directories -/

/-- The links from some directories are links. -/
lemma Tree.sum_countLinks_le {D : Finset ℕ} (hD : ∀ d ∈ D, d ≤ ninodes) (n : ℕ) :
    ∑ d ∈ D, countLinks (t.entries d) n ≤ t.links n :=
  Finset.sum_le_sum_of_subset fun d hd => Finset.mem_range.2 (Nat.lt_succ_of_le (hD d hd))

/-- The inode of an entry of the working directory, when it is an empty directory
that this entry and its own `.` lead to. -/
structure Removable (t : Tree) (es : List Entry) (m : ℕ) (es' : List Entry) : Prop where
  dir : t.node m = some (.dir es')
  ne_cwd : m ≠ t.cwd
  entered : ∃ e ∈ es, e.valid = true ∧ e.inum = m
  links : t.links m = 2
  empty : ∀ e ∈ es'.drop 2, e.valid = false

section Removable

variable {es' : List Entry} (h : Rooted t) (hc : t.node t.cwd = some (.dir es))
  (hr : Removable t es m es')
include h hc hr

/-- Only its own `.` and the working directory lead to it. -/
lemma Removable.countLinks : countLinks (t.entries m) m = 1 ∧ countLinks (t.entries t.cwd) m = 1 ∧
    ∀ d, d ≠ m → d ≠ t.cwd → ∀ e ∈ t.entries d, e.valid = true → e.inum ≠ m := by
  obtain ⟨p, rest, hhome⟩ := h.home m es' hr.dir
  have hself : 1 ≤ Fs.countLinks (t.entries m) m := by
    rw [Tree.entries_of_node hr.dir]
    exact countLinks_pos (e := ⟨true, m, [46]⟩) (hhome.eq ▸ List.mem_cons_self) rfl
  have hcwd : 1 ≤ Fs.countLinks (t.entries t.cwd) m := by
    obtain ⟨e, he, hvalid, rfl⟩ := hr.entered
    rw [Tree.entries_of_node hc]
    exact countLinks_pos he hvalid
  have hmle : m ≤ ninodes := h.linked.le m (by rw [hr.dir]; exact Option.some_ne_none _)
  have hlinks := hr.links
  have htwo := t.sum_countLinks_le (D := {m, t.cwd})
    (by simp only [Finset.mem_insert, Finset.mem_singleton]
        rintro d (rfl | rfl)
        · exact hmle
        · exact h.linked.cwd_le) m
  rw [Finset.sum_pair hr.ne_cwd] at htwo
  refine ⟨by omega, by omega, fun d hdm hdc e he hvalid hinum => ?_⟩
  obtain ⟨es₁, hd⟩ := Tree.exists_dir_of_mem he
  have hdle : d ≤ ninodes := h.linked.le d (by rw [hd]; exact Option.some_ne_none _)
  have hthree := t.sum_countLinks_le (D := {d, m, t.cwd})
    (by simp only [Finset.mem_insert, Finset.mem_singleton]
        rintro d (rfl | rfl | rfl)
        · exact hdle
        · exact hmle
        · exact h.linked.cwd_le) m
  rw [Finset.sum_insert (by simp [hdm, hdc]), Finset.sum_pair hr.ne_cwd] at hthree
  have hlink := countLinks_pos he hvalid
  rw [hinum] at hlink
  omega

/-- It was made in the working directory: its `..` leads there. -/
lemma Removable.home : m ≠ 1 ∧ ∃ rest, es' = ⟨true, m, [46]⟩ :: ⟨true, t.cwd, [46, 46]⟩ :: rest ∧
    ∃ e ∈ es.drop 2, e.valid = true ∧ e.inum = m := by
  obtain ⟨p, rest, hhome⟩ := h.home m es' hr.dir
  obtain ⟨hself, -, hother⟩ := hr.countLinks h hc
  rw [Tree.entries_of_node hr.dir, hhome.eq] at hself
  have htwo : Fs.countLinks ([⟨true, m, [46]⟩, ⟨true, p, [46, 46]⟩] ++ rest) m = 1 := hself
  rw [countLinks_append, show [(⟨true, m, [46]⟩ : Entry), ⟨true, p, [46, 46]⟩] = freshEntries m p
    from rfl, countLinks_freshEntries, if_pos rfl] at htwo
  rcases hhome.home with ⟨rfl, rfl⟩ | ⟨hne, e, he, hvalid, hinum⟩
  · rw [if_pos rfl] at htwo
    omega
  · have hpm : p ≠ m := by
      rintro rfl
      rw [Tree.inner, Tree.entries_of_node hr.dir] at he
      rw [hr.empty e he] at hvalid
      cases hvalid
    have hpc : p = t.cwd := by
      by_contra hpc
      exact hother p hpm hpc e (Tree.mem_entries_of_inner he) hvalid hinum
    subst hpc
    rw [Tree.inner, Tree.entries_of_node hc] at he
    exact ⟨hne, rest, hhome.eq, e, he, hvalid, hinum⟩

/-- Its valid entries are `.` and `..`. -/
lemma Removable.inum_eq {e : Entry} (he : e ∈ t.entries m) (hvalid : e.valid = true) :
    e.inum = m ∨ e.inum = t.cwd := by
  obtain ⟨-, rest, heq, -⟩ := hr.home h hc
  have hempty := hr.empty
  rw [Tree.entries_of_node hr.dir, heq] at he
  rw [heq] at hempty
  simp only [List.mem_cons] at he
  rcases he with rfl | rfl | he
  · exact .inl rfl
  · exact .inr rfl
  · rw [hempty e he] at hvalid
    cases hvalid

end Removable

/-- `do_rmdir` of a removable directory. -/
lemma Rooted.rmdir {es' : List Entry} (h : Rooted t) (hc : t.node t.cwd = some (.dir es))
    (hj : j < es.length) (hvalid : es[j].valid = true) (hr : Removable t es es[j].inum es') :
    Rooted ((t.unlink j).set es[j].inum none) := by
  have hmle : es[j].inum ≤ ninodes :=
    h.linked.le _ (by rw [hr.dir]; exact Option.some_ne_none _)
  have hmc := hr.ne_cwd
  obtain ⟨hself, hcwdLinks, hother⟩ := hr.countLinks h hc
  obtain ⟨hne, rest, heq, e₀, he₀, hvalid₀, hinum₀⟩ := hr.home h hc
  have hunlink := t.links_unlink hc h.linked.cwd_le hj hvalid
  have hentries : (t.unlink j).entries es[j].inum = t.entries es[j].inum := by
    rw [Tree.entries_unlink hc, if_neg hmc]
  have hlinks : ∀ n, ((t.unlink j).set es[j].inum none).links n +
      countLinks (t.entries es[j].inum) n = (t.unlink j).links n := by
    intro n
    have hset := (t.unlink j).links_set none hmle n
    have hnil : countLinks [] n = 0 := List.countP_nil
    rwa [hentries, Tree.entries_set_none, hnil, Nat.add_zero] at hset
  -- nothing leads to the directory any more
  have hgone : ∀ d, ∀ e ∈ ((t.unlink j).set es[j].inum none).entries d, e.valid = true →
      e.inum ≠ es[j].inum := by
    intro d e he hvalid' hinum
    obtain ⟨es₁, hd⟩ := Tree.exists_dir_of_mem he
    have hdm : d ≠ es[j].inum := by
      rintro rfl
      rw [Tree.node_set_self] at hd
      cases hd
    rw [Tree.node_set_of_ne _ _ hdm] at hd
    have hdle : d ≤ ninodes := h.linked.le d fun hnone => by
      rw [(node_unlink_eq_none hc d).2 hnone] at hd
      cases hd
    have hpos := Tree.links_pos hdle he hvalid'
    have h1 := hlinks es[j].inum
    have h2 := hunlink es[j].inum
    rw [if_pos rfl, hr.links] at h2
    rw [hinum] at hpos
    omega
  have h2 : 2 ≤ j := by
    by_contra hlt
    obtain ⟨i, hi, hget⟩ := List.mem_iff_getElem.1 he₀
    rw [List.length_drop] at hi
    rw [List.getElem_drop] at hget
    have hi' : 2 + i < (es.modify j Entry.cleared).length := by
      rw [List.length_modify]
      omega
    refine hgone t.cwd e₀ ?_ hvalid₀ hinum₀
    rw [Tree.entries_set_of_ne _ hmc.symm, Tree.entries_unlink hc, if_pos rfl]
    refine List.mem_iff_getElem.2 ⟨2 + i, hi', ?_⟩
    rw [List.getElem_modify, if_neg (by omega), hget]
  have hnode : ∀ k, k ≠ es[j].inum → (((t.unlink j).set es[j].inum none).node k = none ↔
      t.node k = none) := by
    intro k hk
    rw [Tree.node_set_of_ne _ _ hk, node_unlink_eq_none hc]
  have hsub : ∀ d, ∀ e ∈ ((t.unlink j).set es[j].inum none).entries d, e.valid = true →
      e ∈ t.entries d := by
    intro d e he hvalid'
    by_cases hdm : d = es[j].inum
    · rw [hdm, Tree.entries_set_none] at he
      cases he
    · rw [Tree.entries_set_of_ne _ hdm] at he
      exact mem_entries_unlink hc he hvalid'
  have hkeep : ∀ d, d ≠ es[j].inum → ∀ e ∈ t.entries d, e.inum ≠ es[j].inum →
      e ∈ ((t.unlink j).set es[j].inum none).entries d := by
    intro d hdm e he hinum
    rw [Tree.entries_set_of_ne _ hdm]
    exact Tree.mem_entries_unlink_of_ne hc hj he hinum
  refine ⟨⟨⟨_, (Tree.node_set_of_ne _ _ hmc.symm).trans (Tree.node_set_self _ _ _)⟩, fun k hk => ?_,
    fun d e he hvalid' => ?_, fun k r hk => ?_⟩, ?_, fun k hk => ?_, fun k es₁ hk => ?_⟩
  · by_cases hkm : k = es[j].inum
    · exact hkm ▸ hmle
    · exact h.linked.le k fun hk' => hk ((hnode k hkm).2 hk')
  · rw [ne_eq, hnode _ (hgone d e he hvalid')]
    exact h.linked.closed d e (hsub d e he hvalid') hvalid'
  · -- the entries of the directory lead to directories
    have hkm : k ≠ es[j].inum := by
      rintro rfl
      rw [Tree.node_set_self] at hk
      cases hk
    have hkc : k ≠ t.cwd := by
      rintro rfl
      rw [Tree.node_set_of_ne _ _ hkm, Tree.unlink, Tree.node_set_self] at hk
      cases hk
    rw [Tree.node_set_of_ne _ _ hkm, Tree.unlink, Tree.node_set_of_ne _ _ hkc] at hk
    have hzero : countLinks (t.entries es[j].inum) k = 0 := countLinks_eq_zero fun e he hv hinum => by
      rcases hr.inum_eq h hc he hv with h' | h'
      · exact hkm (hinum.symm.trans h')
      · exact hkc (hinum.symm.trans h')
    have h1 := hlinks k
    have h2 := hunlink k
    rw [if_neg hkm.symm] at h2
    have hexact := h.linked.exact k r hk
    omega
  · obtain ⟨es₁, hroot⟩ := h.root
    by_cases h1 : 1 = t.cwd
    · exact ⟨_, by rw [Tree.node_set_of_ne _ _ hne.symm, h1]; exact Tree.node_set_self _ _ _⟩
    · exact ⟨es₁, by rw [Tree.node_set_of_ne _ _ hne.symm, Tree.unlink, Tree.node_set_of_ne _ _ h1,
        hroot]⟩
  · have hkm : k ≠ es[j].inum := by
      rintro rfl
      exact hk (Tree.node_set_self _ _ _)
    -- a path that led through the directory came from and went back to the working directory
    have hreach : k ≠ es[j].inum ∧ ((t.unlink j).set es[j].inum none).Reach k ∨
        k = es[j].inum ∧ ((t.unlink j).set es[j].inum none).Reach t.cwd := by
      refine (h.reach k fun hk' => hk ((hnode k hkm).2 hk')).mem_of_closed
        (S := fun k => k ≠ es[j].inum ∧ _ ∨ k = es[j].inum ∧ _) (.inl ⟨hne.symm, .root⟩) ?_
      rintro d (⟨hdm, hd⟩ | ⟨rfl, hd⟩) e he hvalid'
      · by_cases hinum : e.inum = es[j].inum
        · obtain rfl : d = t.cwd := by
            by_contra hdc
            exact hother d hdm hdc e he hvalid' hinum
          exact .inr ⟨hinum, hd⟩
        · exact .inl ⟨hinum, hd.entry (hkeep d hdm e he hinum) hvalid'⟩
      · rcases hr.inum_eq h hc he hvalid' with hinum | hinum
        · exact .inr ⟨hinum, hd⟩
        · exact .inl ⟨fun h' => hmc (h'.symm.trans hinum), hinum ▸ hd⟩
    rcases hreach with ⟨-, hk'⟩ | ⟨hkm', -⟩
    · exact hk'
    · exact absurd hkm' hkm
  · have hkm : k ≠ es[j].inum := by
      rintro rfl
      rw [Tree.node_set_self] at hk
      cases hk
    rw [Tree.node_set_of_ne _ _ hkm] at hk
    obtain ⟨p, rest₁, hhome⟩ := h.unlink_home hc hj h2 hk hkm
    refine ⟨p, rest₁, hhome.mono hhome.eq fun d e he hv _ => ?_⟩
    by_cases hdm : d = es[j].inum
    · rw [hdm, Tree.inner, hentries, Tree.entries_of_node hr.dir] at he
      rw [hr.empty e he] at hv
      cases hv
    · rwa [Tree.inner, Tree.entries_set_of_ne _ hdm]

end Rooted

end Fs
end UcasKernel
