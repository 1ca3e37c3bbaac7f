/-
Names in a directory, over runs of calls.

`do_mkdir` and `do_touch` walk over the entries of the working directory before
they append one; `do_ln` appends without looking for the name.  From the state
`do_mkfs` leaves, as long as `do_ln` gets a name that is not taken and fits into an
entry, and no call works on an inode that has been freed, no two valid entries of a
directory have the same name.
-/
import UcasKernel.Fs.Steps

namespace UcasKernel
namespace Fs

/-! ## Names on the card -/

/-- No two valid entries of a directory carry the same name. -/
def UniqueNames (s : History) : Prop :=
  ∀ (d : ℕ) (inode : Inode), s.Allocated d → s.fs.readInode d = some inode →
    inode.type = typeDirectory →
    ∀ i < ndirectBlocks, ∀ i' < ndirectBlocks, inode.direct i ≠ 0 → inode.direct i' ≠ 0 →
    ∀ (j j' : ℕ) (name : Path),
      dentryMatches (s.fs.readBlock (inode.direct i)).blockBuf j name.1 = some true →
      dentryMatches (s.fs.readBlock (inode.direct i')).blockBuf j' name.1 = some true →
      i = i' ∧ j = j'

/-- A call that works on inodes in use, creates a file or a directory with a free
inode number, and links under a name that is free and fits into an entry. -/
def FreshName (s : History) : Syscall → Prop
  | .touch path | .mkdir path => CwdInUse s ∧
    (dentryNameLen < path.1.length ∨ s.fs.NameTaken path.1 ∨ s.fs.MapOpen imapSector 1)
  | .cd path | .rm path | .rmdir path => CwdInUse s ∧ LeadsInUse s path
  | .ln srcPath dstPath => srcPath.1 = dstPath.1 ∨
    CwdInUse s ∧ LeadsInUse s srcPath ∧ ¬ s.fs.NameTaken dstPath.1 ∧ dstPath.1.length ≤ 27
  | _ => False

/-! ## Names in the tree -/

/-- The valid entries among some have different names. -/
def DifferentNames (es : List Entry) : Prop :=
  es.Pairwise fun e e' => e.valid = true → e'.valid = true → e.name ≠ e'.name

/-- The same in every directory of a tree. -/
def Tree.DifferentNames (t : Tree) : Prop := ∀ d, Fs.DifferentNames (t.entries d)

section Entries

variable {es : List Entry} {name : List UInt8}

lemma differentNames_nil : DifferentNames [] := List.Pairwise.nil

lemma differentNames_freshEntries (n p : ℕ) : DifferentNames (freshEntries n p) := by
  refine List.pairwise_pair.2 fun _ _ => ?_
  simp

lemma ne_of_firstNamed (hnone : firstNamed es name = none) {e : Entry} (he : e ∈ es)
    (hvalid : e.valid = true) : e.name ≠ name := by
  intro heq
  have hnot := List.findIdx?_eq_none_iff.1 hnone e he
  rw [Entry.named, hvalid, heq] at hnot
  simp at hnot

/-- An entry with a free name is appended. -/
lemma DifferentNames.append (h : DifferentNames es) (m : ℕ) (hnone : firstNamed es name = none) :
    DifferentNames (es ++ [⟨true, m, name⟩]) := by
  refine List.pairwise_append.2 ⟨h, List.pairwise_singleton _ _, fun e he e' he' hvalid _ => ?_⟩
  rw [List.mem_singleton.1 he']
  exact ne_of_firstNamed hnone he hvalid

/-- An entry is cleared. -/
lemma DifferentNames.clear (h : DifferentNames es) (j : ℕ) :
    DifferentNames (es.modify j Entry.cleared) := by
  have hkeep : ∀ i (hi : i < es.length) (hi' : i < (es.modify j Entry.cleared).length),
      (es.modify j Entry.cleared)[i].valid = true → (es.modify j Entry.cleared)[i] = es[i] := by
    intro i hi hi' hvalid
    rw [List.getElem_modify] at hvalid ⊢
    split at hvalid
    · cases hvalid
    · rename_i hij
      rw [if_neg hij]
  rw [DifferentNames, List.pairwise_iff_getElem] at h ⊢
  intro i i' hi hi' hlt hvalid hvalid'
  have hold : i < es.length := by rwa [List.length_modify] at hi
  have hold' : i' < es.length := by rwa [List.length_modify] at hi'
  have heq := hkeep i hold hi hvalid
  have heq' := hkeep i' hold' hi' hvalid'
  rw [heq] at hvalid ⊢
  rw [heq'] at hvalid' ⊢
  exact h i i' hold hold' hlt hvalid hvalid'

/-- Two places with the same name are one. -/
lemma DifferentNames.eq_of_named (h : DifferentNames es) {i j : ℕ} (hi : i < es.length)
    (hj : j < es.length) (hnamed : es[i].named name = true) (hnamed' : es[j].named name = true) :
    i = j := by
  simp only [Entry.named, Bool.and_eq_true, decide_eq_true_eq] at hnamed hnamed'
  rw [DifferentNames, List.pairwise_iff_getElem] at h
  rcases Nat.lt_trichotomy i j with hlt | heq | hlt
  · exact absurd (hnamed.2.trans hnamed'.2.symm) (h i j hi hj hlt hnamed.1 hnamed'.1)
  · exact heq
  · exact absurd (hnamed'.2.trans hnamed.2.symm) (h j i hj hi hlt hnamed'.1 hnamed.1)

/-- An entry of the block that matches a name is one of the list. -/
lemma IsDir.named_of_matches {buf : Bytes} {j : ℕ} (hd : IsDir buf es) (hname : 0 ∉ name)
    (hmatch : dentryMatches buf j name = some true) :
    ∃ hj : j < es.length, es[j].named name = true := by
  by_cases hj : j < es.length
  · have hnamed := (hd.entry j hj).isNamed hname 0
    rw [isNamed, hmatch, Option.some.injEq] at hnamed
    exact ⟨hj, hnamed.symm⟩
  by_cases hlt : j < maxEntries
  · have hnamed : isNamed name buf 0 j = some false := hd.isNamed_unused (not_lt.1 hj) hlt 0
    rw [isNamed, hmatch] at hnamed
    cases hnamed
  · have hout : dentryValid buf j = none := by
      rw [dentryValid, blockByte, if_neg, Option.map_none]
      simp only [maxEntries, sizeofDentry, nbytesPerBlock] at *
      omega
    rw [dentryMatches, hout] at hmatch
    cases hmatch

end Entries

namespace Tree

variable {t : Tree} {es : List Entry} {name : List UInt8} {m n : ℕ}

/-- One node is replaced. -/
lemma DifferentNames.set (h : t.DifferentNames) {nd : Option Node}
    (hnd : ∀ es, nd = some (.dir es) → Fs.DifferentNames es) : (t.set n nd).DifferentNames := by
  intro d
  by_cases hd : d = n
  · subst hd
    rcases nd with _ | _ | es'
    · rw [entries_set_none]
      exact differentNames_nil
    · rw [entries_set_file]
      exact differentNames_nil
    · rw [entries_set_dir]
      exact hnd es' rfl
  · rw [entries_set_of_ne nd hd]
    exact h d

lemma DifferentNames.set_none (h : t.DifferentNames) : (t.set n none).DifferentNames :=
  h.set fun _ heq => by cases heq

lemma DifferentNames.set_file (h : t.DifferentNames) (ref : ℕ) :
    (t.set n (some (.file ref))).DifferentNames := h.set fun _ heq => by cases heq

lemma DifferentNames.cwdEntries (h : t.DifferentNames) (hc : t.node t.cwd = some (.dir es)) :
    Fs.DifferentNames es := by
  have hcwd := h t.cwd
  rwa [entries_of_node hc] at hcwd

lemma DifferentNames.enter (h : t.DifferentNames) (hc : t.node t.cwd = some (.dir es)) (m : ℕ)
    (hnone : firstNamed es name = none) : (t.enter name m).DifferentNames := by
  rw [Tree.enter, entries_of_node hc]
  refine h.set fun es' heq => ?_
  obtain rfl := Node.dir.inj (Option.some.inj heq)
  exact (h.cwdEntries hc).append m hnone

lemma DifferentNames.unlink (h : t.DifferentNames) (j : ℕ) : (t.unlink j).DifferentNames := by
  refine h.set fun es' heq => ?_
  obtain rfl := Node.dir.inj (Option.some.inj heq)
  exact (h t.cwd).clear j

end Tree

/-! ## One call -/

/-- The card holds a tree whose directories have no name twice. -/
structure Distinct (s : History) (t : Tree) : Prop where
  tracks : Tracks s t
  names : t.DifferentNames

section Step

variable {s s' : History} {t : Tree} {es : List Entry} {path : Path}

/-- The names on the card are those of the tree. -/
lemma Distinct.uniqueNames (h : Distinct s t) : UniqueNames s := by
  intro d inode hall hread hdir i hi i' hi' hblock hblock' j j' name hmatch hmatch'
  obtain ⟨v, hs, hr⟩ := h.tracks.stores
  obtain ⟨nd, hnode⟩ := Option.ne_none_iff_exists'.1 ((h.tracks.allocated_iff d).1 hall)
  cases nd with
  | file ref =>
    obtain ⟨h1, h2, -⟩ := hs.nodeBounds hr hnode
    obtain ⟨x, hx, hsame, -⟩ := hs.readInode h1 h2
    obtain rfl := Option.some.inj (hread.symm.trans hx)
    rw [(hr.type_eq_file hnode hsame).2 ⟨ref, rfl⟩] at hdir
    exact absurd hdir (by decide)
  | dir es =>
    obtain ⟨x, b, o⟩ := hs.opened hr hnode
    obtain rfl := Option.some.inj (hread.symm.trans o.inode)
    have hat : DirAt v d es := hr.node d _ hnode
    have hzero : ∀ k < ndirectBlocks, inode.direct k ≠ 0 → k = 0 := by
      intro k hk hne
      by_contra hk0
      exact hne ((o.same.direct k hk).trans (hat.rest k (by omega) hk))
    obtain rfl := hzero i hi hblock
    obtain rfl := hzero i' hi' hblock'
    have hnames := h.names d
    rw [Tree.entries_of_node hnode] at hnames
    rw [o.first] at hmatch hmatch'
    obtain ⟨hj, hnamed⟩ := o.buf.named_of_matches name.2 hmatch
    obtain ⟨hj', hnamed'⟩ := o.buf.named_of_matches name.2 hmatch'
    exact ⟨rfl, hnames.eq_of_named hj hj' hnamed hnamed'⟩

lemma FreshName.worksInUse {call : Syscall} (hC : FreshName s call) : WorksInUse s call := by
  cases call with
  | ln srcPath dstPath => exact hC.imp_right fun h => ⟨h.1, h.2.1, h.2.2.2⟩
  | touch path | mkdir path | cd path | rm path | rmdir path => exact hC
  | _ => exact hC.elim

/-- The name that is linked is free. -/
lemma Distinct.free (h : Distinct s t) {src dst : Path} (hC : FreshName s (.ln src dst))
    (hne : src.1 ≠ dst.1) (hc : t.node t.cwd = some (.dir es)) : firstNamed es dst.1 = none := by
  have hfree := (hC.resolve_left hne).2.2.1
  rw [h.tracks.stores.nameTaken_iff hc dst.2, not_exists] at hfree
  exact Option.eq_none_iff_forall_ne_some.2 hfree

/-- Every call keeps the names different. -/
lemma Distinct.step {call : Syscall} (h : Distinct s t) (hC : FreshName s call)
    (hstep : s.step call = some s') : ∃ t', Distinct s' t' := by
  obtain ⟨t', htracks, hedits⟩ := h.tracks.step hC.worksInUse hstep
  refine ⟨t', htracks, ?_⟩
  have hcwd : ∀ {n : ℕ} {nd : Node} {es : List Entry}, t.node t.cwd = some (.dir es) →
      t.node n = none → (t.set n (some nd)).node t.cwd = some (.dir es) := by
    intro n nd es hc hn
    refine (Tree.node_set_of_ne _ _ ?_).trans hc
    rintro rfl
    rw [hc] at hn
    cases hn
  cases hedits with
  | same | cd => exact h.names
  | touch hc hnone hn _ => exact (h.names.set_file 1).enter (hcwd hc hn) _ hnone
  | mkdir hc hnone hn _ =>
    refine Tree.DifferentNames.enter (h.names.set fun es' heq => ?_) (hcwd hc hn) _ hnone
    obtain rfl := Node.dir.inj (Option.some.inj heq)
    exact differentNames_freshEntries _ _
  | lnFile hne hc _ => exact (h.names.enter hc _ (h.free hC hne hc)).set_file _
  | lnDir hne hc _ => exact h.names.enter hc _ (h.free hC hne hc)
  | rm hc _ =>
    split
    · exact (h.names.unlink _).set_none
    · exact (h.names.unlink _).set_file _
  | rmdir hc _ => exact (h.names.unlink _).set_none

end Step

/-! ## Runs -/

lemma distinct_image {fs : Fs} {fd : ℕ → Fdesc} (h : fs.Stores (imageTree fd)) :
    Distinct ⟨fs, [1, 2]⟩ (imageTree fd) := by
  refine ⟨(exact_image _ h).tracks, fun d => ?_⟩
  rw [imageTree_entries]
  split
  · exact (differentNames_freshEntries 1 1).append 2 rfl
  · exact differentNames_nil

/-- From the state `do_mkfs` leaves, in every run of calls that link under free names
only and work on inodes in use, no directory has a name twice. -/
theorem unique_names (fs₀ : Fs) :
    ∃ fs, fs₀.doMkfs = some (0, fs) ∧
      ∀ calls, Trace.StepsMeet History.step FreshName ⟨fs, [1, 2]⟩ calls →
        Trace.Always History.step UniqueNames ⟨fs, [1, 2]⟩ calls := by
  obtain ⟨fs, hmkfs, hstores⟩ := doMkfs_stores fs₀
  refine ⟨fs, hmkfs, fun calls hC => ?_⟩
  have himage : ∃ t, Distinct ⟨fs, [1, 2]⟩ t := ⟨_, distinct_image hstores⟩
  refine (Trace.always_of_invariant (P := fun s => ∃ t, Distinct s t) ?_ himage hC).mono ?_
  · rintro s call s' ⟨t, h⟩ hcall hstep
    exact h.step hcall hstep
  · rintro s ⟨t, h⟩
    exact h.uniqueNames

section Image

variable {fs : Fs} {fd : ℕ → Fdesc} (h : fs.Stores (imageTree fd))
include h

/-- A path of the image is resolved as in its tree. -/
lemma resolved_image {path : List UInt8} {m : ℕ} (hpath : 0 ∉ path) (hslash : 47 ∉ path)
    (hm : lookup (freshEntries 1 1 ++ [⟨true, 2, bigfileName⟩]) 1 path = some m) :
    ∃ v fs', Resolved fs fs' v (imageTree fd) path m :=
  h.resolved rfl hpath (.inl hslash) ((linked_imageTree fd).closed 1) hm

lemma cwdInUse_image : CwdInUse ⟨fs, [1, 2]⟩ := (exact_image _ h).tracks.cwdInUse rfl

end Image

/-- A second name for the big file of a freshly formatted empty card. -/
theorem unique_names_link :
    ∃ fs s, emptyCard.doMkfs = some (0, fs) ∧
      Trace.run History.step ⟨fs, [1, 2]⟩ [.ln ⟨bigfileName, by decide⟩ ⟨[97], by decide⟩] = some s ∧
      UniqueNames s := by
  obtain ⟨fs, hmkfs, hruns⟩ := unique_names emptyCard
  have hstores := stores_of_doMkfs hmkfs
  obtain ⟨v, fs₁, r⟩ : ∃ v fs₁, Resolved fs fs₁ v (imageTree _) bigfileName 2 :=
    resolved_image hstores (by decide) (by decide) rfl
  obtain ⟨fs₂, hln, -⟩ : ∃ fs₂, fs.doLn bigfileName [97] = some (0, fs₂) ∧ _ :=
    r.doLn_file (by decide) rfl rfl rfl (by decide) (by decide) (by decide)
  have hstep := @History.step_old ⟨fs, [1, 2]⟩ fs₂
    (.ln ⟨bigfileName, by decide⟩ ⟨[97], by decide⟩) (congrArg (Option.map fun r : ℤ × Fs => r.2) hln :)
    rfl
  have hC : FreshName ⟨fs, [1, 2]⟩ (.ln ⟨bigfileName, by decide⟩ ⟨[97], by decide⟩) := by
    refine .inr ⟨cwdInUse_image hstores, fun n fs' hparse => .inr ?_, ?_, by decide⟩
    · obtain ⟨rfl, -⟩ := Prod.mk.inj (Option.some.inj (hparse.symm.trans r.parse))
      refine ((exact_image _ hstores).tracks.allocated_iff 2).2 ?_
      exact Option.some_ne_none _
    · rw [hstores.nameTaken_iff rfl (by decide)]
      rintro ⟨j, hj⟩
      cases hj
  have hall := hruns _ (Trace.stepsMeet_cons hC fun _ _ => Trace.stepsMeet_nil _ _)
  exact ⟨fs, _, hmkfs, (Trace.run_singleton _ _).trans hstep,
    hall.last ((Trace.run_singleton _ _).trans hstep)⟩

/-- `ln . 8MB.dat` in the root directory of a freshly formatted card makes a second entry
with the name of the big file. -/
theorem ln_repeats_name :
    ∃ fs s, emptyCard.doMkfs = some (0, fs) ∧
      Trace.run History.step ⟨fs, [1, 2]⟩ [.ln ⟨[46], by decide⟩ ⟨bigfileName, by decide⟩] = some s ∧
      ¬ UniqueNames s := by
  obtain ⟨fs, hmkfs, hstores⟩ := doMkfs_stores emptyCard
  have htracks := (exact_image _ hstores).tracks
  obtain ⟨v, fs₁, r⟩ : ∃ v fs₁, Resolved fs fs₁ v (imageTree _) [46] 1 :=
    resolved_image hstores (by decide) (by decide) rfl
  obtain ⟨fs₂, hln, hst⟩ : ∃ fs₂, fs.doLn [46] bigfileName = some (0, fs₂) ∧ _ :=
    r.doLn_dir (by decide) rfl rfl rfl (by decide) (by decide) (by decide)
  have hstep := @History.step_old ⟨fs, [1, 2]⟩ fs₂
    (.ln ⟨[46], by decide⟩ ⟨bigfileName, by decide⟩) (congrArg (Option.map fun r : ℤ × Fs => r.2) hln :)
    rfl
  refine ⟨fs, _, hmkfs, (Trace.run_singleton _ _).trans hstep, fun hunique => ?_⟩
  have htracks' : Tracks ⟨fs₂, [1, 2]⟩ _ := htracks.next hst fun k hk => by
    rwa [ne_eq, node_enter_eq_none rfl] at hk
  obtain ⟨v', hs, hr⟩ := hst
  have hroot : ((imageTree emptyCard.fdescArray).enter bigfileName 1).node 1 =
      some (.dir (freshEntries 1 1 ++ [⟨true, 2, bigfileName⟩] ++ [⟨true, 1, bigfileName⟩])) := rfl
  obtain ⟨x, b, o⟩ := hs.opened hr hroot
  have hat : DirAt v' 1 _ := hr.node 1 _ hroot
  have hblock : x.direct 0 ≠ 0 := by
    rw [o.first]
    exact o.ne_zero
  have hmatch : ∀ j (hj : j < 4), 2 ≤ j →
      dentryMatches (fs₂.readBlock (x.direct 0)).blockBuf j bigfileName = some true := by
    intro j hj hj2
    rw [o.first]
    refine ((o.buf.entry j hj).isNamed (by decide) 0).trans ?_
    obtain rfl | rfl : j = 2 ∨ j = 3 := by omega
    all_goals rfl
  have heq := hunique 1 x ((htracks'.allocated_iff 1).2 (by rw [hroot]; exact Option.some_ne_none _))
    o.inode (o.same.type.trans hat.type) 0 (by decide) 0 (by decide) hblock hblock 2 3
    ⟨bigfileName, by decide⟩ (hmatch 2 (by decide) (by decide)) (hmatch 3 (by decide) (by decide))
  exact absurd heq.2 (by decide)

end Fs
end UcasKernel
