/-
Coherence of the shared pages under swapping.

A shared frame has one record, that of the process whose get allocated it, and is mapped by
every process that has attached its page.  `swap_out` clears the entry that the record names
and frees the frame; `swap_in` and `handle_page_fault` map a new frame at the page of a record.
So the frame of a key is the same for all processes as long as no shared frame is swapped out,
nothing is swapped in at an attached page, and nobody gives up a shared page that is not
attached there.

The bound on the pages that are present is a parameter.  With the one that the kernel has, a
call that swaps a page out does not return.
-/
import UcasKernel.Mm.Backing
import UcasKernel.Mm.Detach
import UcasKernel.Mm.Reclaim

namespace UcasKernel
namespace Mm

open Memory

namespace State

/-- The frame is the one of a slot in use. -/
def Shares (s : State) (f : ℕ) : Prop :=
  ∃ i, 0 < (s.sharePages i).ref ∧ (s.sharePages i).kva = f

instance (s : State) (f : ℕ) : Decidable (s.Shares f) := inferInstanceAs (Decidable (∃ _, _))

/-- `shm_page_get`, with `MAX_PRESENT_PFN` as a parameter. -/
def shmPageGetAt (s : State) (maxPresentPfn : ℕ) (key : ℤ) (pgdir : ℕ) : Option (ℕ × State) :=
  match s.findShare key with
  | some i => do
    let ref ← addInt (s.sharePages i).ref 1
    let s := s.setSharePage i { s.sharePages i with ref := ref }
    let uva ← s.firstUnmapped pgdir 0 SHARE_PAGE_ROUNDS
    let m ← s.mapUvaToKva uva (s.sharePages i).kva pgdir
    some (uva, { s with toMemory := m })
  | none =>
    match s.findShare 0 with
    | some i => do
      let ref ← addInt (s.sharePages i).ref 1
      let s := s.setSharePage i { s.sharePages i with key := key, ref := ref }
      let uva ← s.firstUnmapped pgdir 0 SHARE_PAGE_ROUNDS
      let (kva, s) ← s.allocPageHelper maxPresentPfn uva pgdir
      some (uva, s.setSharePage i { s.sharePages i with kva := kva })
    | none => some (0, s)

end State

/-- The call takes a frame for a page of a process. -/
def ShareEvent.TakesFrame (s : State) : ShareEvent → Prop
  | allocPageHelper _ _ => True
  | handlePageFault _ _ _ => True
  | shmPageGet key _ => s.findShare key = none ∧ s.findShare 0 ≠ none
  | _ => False

namespace Sharing

/-- The calls, with `MAX_PRESENT_PFN` as a parameter. -/
def callAt (maxPresentPfn : ℕ) (x : Sharing) : ShareEvent → Option Sharing
  | .allocPageHelper uva pgdir =>
    (x.state.allocPageHelper maxPresentPfn uva pgdir).map fun (_, s) => (x.next s).letGo uva pgdir
  | .handlePageFault stval pgdir store =>
    (x.state.handlePageFault maxPresentPfn stval pgdir store).map x.next
  | .swapInAllPages pgdir => (x.state.swapInAllPages maxPresentPfn pgdir).map x.next
  | .shmPageGet key pgdir =>
    (x.state.shmPageGetAt maxPresentPfn key pgdir).map fun (uva, s) =>
      (x.next s).record key pgdir uva
  | ev => x.call ev

def stepAt (maxPresentPfn : ℕ) (x : Sharing) (ev : ShareEvent) : Option Sharing :=
  if ∀ pgdir ∈ ev.pgdir, pgdir ∈ x.spaces then x.callAt maxPresentPfn ev else none

/-- The parameter of the kernel. -/
theorem stepAt_max : stepAt MAX_PRESENT_PFN = step := by
  funext x ev
  cases ev <;> rfl

/-- The frame of a slot in use is the one that every process maps where it has attached the
slot's key, and it is not free. -/
structure CoherentLaw (x : Sharing) : Prop where
  frame : ∀ i, 0 < (x.state.sharePages i).ref → ∀ a ∈ x.held, a.key = (x.state.sharePages i).key →
    Present (x.state.leaf a.pgdir (vpns a.uva)) →
      frameOf (x.state.leaf a.pgdir (vpns a.uva)) = (x.state.sharePages i).kva
  notFree : ∀ i, 0 < (x.state.sharePages i).ref →
    ∃ l e, x.state.FreeList l e ∧ ¬ Memory.Free l e (x.state.sharePages i).kva

/-- A shared page is given up where it is attached. -/
def DetachesOwn (x : Sharing) (ev : ShareEvent) : Prop :=
  ∀ addr pgdir, ev = .shmPageDt addr pgdir →
    x.state.Shares (x.state.getKvaOfUva addr pgdir &&& PAGE_MASK) → x.Attached addr pgdir

/-- Nothing moves under an attached page.  A call that has to make room finds a page of a process
that is not shared first in the queue; no page that is attached is brought in; a shared page is
given up where it is attached. -/
structure Careful (maxPresentPfn : ℕ) (x : Sharing) (ev : ShareEvent) : Prop where
  room : ev.TakesFrame x.state → (maxPresentPfn : ℤ) ≤ x.state.presentPagesNum →
    x.state.SparesNext x.spaces {f | x.state.Shares f}
  fault : ∀ stval pgdir store, ev = .handlePageFault stval pgdir store →
    ¬ x.Attached (stval &&& PAGE_MASK) pgdir
  swapIn : ∀ pgdir, ev = .swapInAllPages pgdir → pgdir ∈ x.spaces ∧
    ∀ r, x.state.links.On .swappedPagesQueue r → (x.state.pages r).pgdir = pgdir →
      ¬ x.Attached (x.state.pages r).uva pgdir
  detach : x.DetachesOwn ev

/-! ## The invariant -/

/-- The records own the frames that are not shared.  The slots that are in use have frames of
their own and count at least the pages that are attached, each of which maps the frame that was
got. -/
structure Coherent (x : Sharing) (role : ℕ → Role) (e : ℕ) (q : Queue → List Pfn) : Prop where
  backed : Backed x.state x.spaces role e q {f | x.state.Shares f} []
  slots : Slots role x.state.sharePages
  keys : KeysInUse x.state.sharePages x.held
  counts : ∀ i, ((x.held.countP fun a => a.key = (x.state.sharePages i).key : ℕ) : ℤ) ≤
    (x.state.sharePages i).ref
  held : ∀ a ∈ x.held, a.pgdir ∈ x.spaces ∧ Own (vpn2 a.uva) ∧
    x.state.leaf a.pgdir (vpns a.uva) ≠ 0 ∧ frameOf (x.state.leaf a.pgdir (vpns a.uva)) = a.frame

variable {x y : Sharing} {s t : State} {role role' : ℕ → Role} {e e' : ℕ} {q q' : Queue → List Pfn}
  {spaces spaces' : Finset ℕ} {U : Set UserPage} {all inUse held : List Got} {m : Memory}
  {uva addr pgdir kva P : ℕ} {key : ℤ}

namespace Coherent

lemma law (h : x.Coherent role e q) : CoherentLaw x where
  frame := by
    intro i href a ha hkey _
    obtain ⟨hne, j, hj, hkva⟩ := h.keys a ha
    obtain rfl := h.slots.keys i j (hkey ▸ hne) (by rw [← hkey, hj])
    rw [hkva]
    exact (h.held a ha).2.2.2
  notFree := by
    intro i href
    have hpage : role (x.state.sharePages i).kva = .page := by
      rcases h.slots.ok i with ⟨-, -, hpage⟩ | ⟨-, hzero, -⟩
      · exact hpage
      · omega
    exact (h.backed.exclusive.directories.tables.allocated (f := (x.state.sharePages i).kva)
      (by simp [hpage]) (by simp [hpage])).2

/-- What leaves the slots alone, and the frames of the pages that stay attached. -/
lemma of_undisturbed (h : x.Coherent role e q)
    (hb : Backed t spaces' role' e' q' {f | x.state.Shares f} [])
    (hund : Undisturbed spaces {f | x.state.Shares f} U role role' x.state.toMemory t.toMemory)
    (hshare : t.sharePages = x.state.sharePages) (hsub : held.Sublist x.held)
    (hheld : ∀ a ∈ held, a.pgdir ∈ spaces ∧ a.pgdir ∈ spaces' ∧ (a.pgdir, vpns a.uva) ∉ U) :
    Coherent ⟨t, spaces', all, inUse, held⟩ role' e' q' := by
  have hS : {f | t.Shares f} = {f | x.state.Shares f} := by simp only [State.Shares, hshare]
  refine ⟨hS ▸ hb, hshare ▸ h.slots.mono fun i href hpage => hund.page _ ⟨i, href, rfl⟩ hpage,
    hshare ▸ fun a ha => h.keys a (hsub.subset ha), fun i => ?_, fun a ha => ?_⟩
  · rw [hshare]
    exact le_trans (Int.ofNat_le.2 hsub.countP_le) (h.counts i)
  · obtain ⟨hold, hnew, hU⟩ := hheld a ha
    obtain ⟨-, hown, hne, hframe⟩ := h.held a (hsub.subset ha)
    obtain ⟨hne', hframe'⟩ := hund.frame (a.pgdir, vpns a.uva) hold hown hU hne
    exact ⟨hnew, hown, hne', hframe'.trans hframe⟩

lemma of_moved (h : x.Coherent role e q)
    (hm : Moved x.state spaces role {f | x.state.Shares f} U t) (hsub : held.Sublist x.held)
    (hheld : ∀ a ∈ held, a.pgdir ∈ spaces ∧ (a.pgdir, vpns a.uva) ∉ U) :
    ∃ role' e' q', Coherent ⟨t, spaces, all, inUse, held⟩ role' e' q' := by
  obtain ⟨role', e', q', hb, hund, hshare⟩ := hm
  exact ⟨role', e', q', h.of_undisturbed hb hund hshare hsub fun a ha =>
    ⟨(hheld a ha).1, (hheld a ha).1, (hheld a ha).2⟩⟩

/-- What moves no page. -/
lemma of_moved_empty (h : x.Coherent role e q)
    (hm : Moved x.state x.spaces role {f | x.state.Shares f} ∅ t) :
    ∃ role' e' q', Coherent (x.next t) role' e' q' :=
  h.of_moved hm (List.Sublist.refl _) fun a ha => ⟨(h.held a ha).1, Set.notMem_empty _⟩

/-- Only tables and free pages change. -/
lemma of_sameLeaves (h : x.Coherent role e q) (hsub : x.spaces ⊆ spaces')
    (hm : Exclusive m spaces' role' e' {f | x.state.Shares f} (x.state.owners q))
    (hpage : ∀ f, role f = .page → role' f = .page)
    (hleaf : SameLeaves x.spaces x.state.toMemory m) :
    Coherent { x.next { x.state with toMemory := m } with spaces := spaces' } role' e' q :=
  h.of_undisturbed (t := { x.state with toMemory := m }) (U := ∅)
    (h.backed.of_memory (by rwa [List.append_nil])) (Undisturbed.of_sameLeaves hpage hleaf) rfl
    (List.Sublist.refl _) fun a ha =>
      ⟨(h.held a ha).1, hsub (h.held a ha).1, Set.notMem_empty _⟩

lemma exclusive (h : x.Coherent role e q) :
    Exclusive x.state.toMemory x.spaces role e {f | x.state.Shares f} (x.state.owners q) := by
  have hex := h.backed.exclusive
  rwa [List.append_nil] at hex

/-! ## What leaves the attached pages alone -/

lemma newPgdir (h : x.Coherent role e q) (hc : x.call .newPgdir = some y) :
    ∃ role' e' q', y.Coherent role' e' q' := by
  obtain ⟨⟨p, m⟩, hk, rfl⟩ := Option.map_eq_some_iff.1 hc
  obtain ⟨e', hex, hfree, hleaf⟩ := h.exclusive.newPgdir hk
  refine ⟨_, e', q, h.of_sameLeaves (Finset.subset_insert _ _) hex (fun f hf => ?_) hleaf⟩
  rw [update_of_not_free hfree (by simp [hf]), hf]

lemma kalloc (h : x.Coherent role e q) (hc : x.call .kalloc = some y) :
    ∃ role' e' q', y.Coherent role' e' q' := by
  obtain ⟨⟨p, m⟩, hk, rfl⟩ := Option.map_eq_some_iff.1 hc
  obtain ⟨e', hex, hfree, hleaf⟩ := h.exclusive.kalloc (r := .kernel) (by simp) (by simp) hk
  refine ⟨_, e', q, h.of_sameLeaves subset_rfl hex (fun f hf => ?_) hleaf⟩
  rw [update_of_not_free hfree (by simp [hf]), hf]

lemma sharePgtable (h : x.Coherent role e q) (hd : pgdir ∈ x.spaces)
    (hc : x.call (.sharePgtable pgdir) = some y) : ∃ role' e' q', y.Coherent role' e' q' := by
  rw [call, Option.some.injEq] at hc
  subst hc
  obtain ⟨hdirs, hleaf, -⟩ := h.exclusive.directories.sharePgtable hd
  generalize x.state.sharePgtable pgdir PGDIR_VA = m at hdirs hleaf ⊢
  exact ⟨role, e, q, h.of_sameLeaves subset_rfl
    (h.exclusive.of_sameLeaves hdirs (fun _ => id) subset_rfl hleaf) (fun _ => id) hleaf⟩

lemma unsetExec (h : x.Coherent role e q) (hd : pgdir ∈ x.spaces) (ho : Own (vpn2 uva))
    (hc : x.call (.unsetExec uva pgdir) = some y) : ∃ role' e' q', y.Coherent role' e' q' := by
  obtain ⟨m, hm, rfl⟩ := Option.map_eq_some_iff.1 hc
  have hexec : ∀ f bits, IsFrame f → bits < 2 ^ 10 → ∃ bits' < 2 ^ 10,
      (bits' % 2 = 1 → bits % 2 = 1) ∧ unsetAttribute (entry f bits) PAGE_EXEC = entry f bits' := by
    intro f bits hf hbits
    obtain ⟨bits', hbits', hmod, heq⟩ :=
      exists_unsetAttribute_even (show PAGE_EXEC < 2 ^ 10 by decide) (by decide) hf hbits
    exact ⟨bits', hbits', fun hodd => hmod ▸ hodd, heq⟩
  obtain ⟨hb, hund⟩ := h.backed.modifyAttributes hd ho hexec hm
  exact h.of_moved_empty ⟨role, e, q, hb, hund, rfl⟩

lemma store {v : ℕ} (h : x.Coherent role e q) (hd : pgdir ∈ x.spaces)
    (hc : x.call (.store uva pgdir v) = some y) : ∃ role' e' q', y.Coherent role' e' q' := by
  obtain ⟨t, ht, rfl⟩ := Option.map_eq_some_iff.1 hc
  exact h.of_moved_empty (h.backed.storeUser hd ht)

lemma freePageWithKva (h : x.Coherent role e q) (hc : x.call (.freePageWithKva kva) = some y) :
    ∃ role' e' q', y.Coherent role' e' q' := by
  obtain ⟨t, ht, rfl⟩ := Option.map_eq_some_iff.1 hc
  exact h.of_moved_empty (h.backed.freePageWithKva ht)

lemma exit (h : x.Coherent role e q) (hd : pgdir ∈ x.spaces) (hc : x.call (.exit pgdir) = some y) :
    ∃ role' e' q', y.Coherent role' e' q' := by
  simp only [call, Option.map_eq_some_iff] at hc
  obtain ⟨t, ht, rfl⟩ := hc
  refine h.of_moved (h.backed.exit hd ht) List.filter_sublist fun a ha => ?_
  obtain ⟨ha, hne⟩ := List.mem_filter.1 ha
  exact ⟨Finset.mem_erase.2 ⟨of_decide_eq_true hne, (h.held a ha).1⟩, Set.notMem_empty _⟩

/-! ## What moves pages -/

lemma allocPageHelper (h : x.Coherent role e q) (hd : pgdir ∈ x.spaces) (ho : Own (vpn2 uva))
    (hcare : Careful P x (.allocPageHelper uva pgdir))
    (hc : x.callAt P (.allocPageHelper uva pgdir) = some y) :
    ∃ role' e' q', y.Coherent role' e' q' := by
  obtain ⟨⟨kva, t⟩, ht, rfl⟩ := Option.map_eq_some_iff.1 hc
  obtain ⟨role', e', q', hb, hund, hshare, -⟩ :=
    h.backed.allocPageHelper hd ho (hcare.room trivial) ht
  refine h.of_moved ⟨role', e', q', hb, hund, hshare⟩ List.filter_sublist fun a ha => ?_
  obtain ⟨ha, hat⟩ := List.mem_filter.1 ha
  exact ⟨(h.held a ha).1, fun heq => of_decide_eq_true hat (Prod.ext_iff.1 heq)⟩

lemma handlePageFault {store : Bool} (h : x.Coherent role e q) (hd : pgdir ∈ x.spaces)
    (ho : Own (vpn2 uva)) (hcare : Careful P x (.handlePageFault uva pgdir store))
    (hc : x.callAt P (.handlePageFault uva pgdir store) = some y) :
    ∃ role' e' q', y.Coherent role' e' q' := by
  obtain ⟨t, ht, rfl⟩ := Option.map_eq_some_iff.1 hc
  refine h.of_moved (h.backed.handlePageFault hd ho (hcare.room trivial) ht) (List.Sublist.refl _)
    fun a ha => ⟨(h.held a ha).1, fun heq => ?_⟩
  exact hcare.fault _ _ _ rfl ⟨a, ha, Prod.ext_iff.1 heq⟩

lemma swapInAllPages (h : x.Coherent role e q) (hcare : Careful P x (.swapInAllPages pgdir))
    (hc : x.callAt P (.swapInAllPages pgdir) = some y) : ∃ role' e' q', y.Coherent role' e' q' := by
  obtain ⟨t, ht, rfl⟩ := Option.map_eq_some_iff.1 hc
  obtain ⟨hd, hnot⟩ := hcare.swapIn _ rfl
  refine h.of_moved (h.backed.swapInAllPages hd ht) (List.Sublist.refl _)
    fun a ha => ⟨(h.held a ha).1, ?_⟩
  rintro ⟨r, hr, hpgdir, hpage⟩
  obtain ⟨hpg, huva⟩ := Prod.ext_iff.1 hpage
  exact hnot r (h.backed.book.repr.on_iff.2 hr) hpgdir ⟨a, ha, hpg.symm.trans hpgdir, huva.symm⟩

/-! ## Getting a page -/

/-- What a get leaves: the slot `i` counts one more, and the address maps its frame, which is that
of the key or new. -/
structure Gets (x : Sharing) (role : ℕ → Role) (key : ℤ) (pgdir uva : ℕ) (t : State) (i : Fin 16)
    (kva : ℕ) (role' : ℕ → Role) (e' : ℕ) (q' : Queue → List Pfn) : Prop where
  fresh : uva ≠ 0 ∧ uva % PAGE_SIZE = 0 ∧ uva < 2 ^ 38 ∧ x.state.leaf pgdir (vpns uva) = 0
  backed : Backed t x.spaces role' e' q' {f | x.state.Shares f} []
  undisturbed : Undisturbed x.spaces {f | x.state.Shares f} {(pgdir, vpns uva)} role role'
    x.state.toMemory t.toMemory
  page : role' kva = .page
  leaf : t.leaf pgdir (vpns uva) ≠ 0 ∧ frameOf (t.leaf pgdir (vpns uva)) = kva
  slots : t.sharePages =
    Function.update x.state.sharePages i ⟨kva, (x.state.sharePages i).ref + 1, key⟩
  old : (x.state.sharePages i).key = key ∧ (x.state.sharePages i).kva = kva ∨
    (x.state.sharePages i).key = 0 ∧ (∀ j, (x.state.sharePages j).key ≠ key) ∧ role kva = .free

lemma shmPageGetAt_cases (h : x.Coherent role e q) (hd : pgdir ∈ x.spaces) (hkey : key ≠ 0)
    (hcare : Careful P x (.shmPageGet key pgdir))
    (hs : x.state.shmPageGetAt P key pgdir = some (uva, t)) :
    uva = 0 ∧ t = x.state ∨ ∃ i kva role' e' q', Gets x role key pgdir uva t i kva role' e' q' := by
  simp only [State.shmPageGetAt] at hs
  cases hfind : x.state.findShare key with
  | some i =>
    have hi := State.findShare_eq_some hfind
    obtain ⟨-, href, hpage⟩ := (h.slots.ok i).resolve_right fun hfree => hkey (hi ▸ hfree.1)
    simp only [hfind, Option.bind_eq_bind, Option.bind_eq_some_iff, Option.some.injEq,
      Prod.mk.injEq, State.setSharePage, Function.update_self] at hs
    obtain ⟨ref, hadd, uva, huva, m, hm, rfl, rfl⟩ := hs
    obtain rfl := State.addInt_eq_some hadd
    obtain ⟨hne, halign, hlt, hpte⟩ := Memory.firstUnmapped_uva huva
    obtain ⟨role', e', hex, hgrows, hself, hsame⟩ := h.exclusive.mapUvaToKva hd (own_vpn2 hlt) hpage
      (fun hno => absurd ⟨i, href, rfl⟩ hno) hm
    have hkeep : ∀ f, role f = .page → role' f = .page := fun f hf => by
      rw [hgrows.keep f (by simp [hf]), hf]
    obtain ⟨hframe, hpos⟩ := h.exclusive.isFrame hpage
    refine Or.inr ⟨i, (x.state.sharePages i).kva, role', e', q,
      ⟨hne, halign, hlt, getPteOfUva_eq_none.1 hpte⟩,
      ⟨?_, (h.backed.book.slot _ _).memory _, h.backed.own⟩,
      Undisturbed.of_sameBut (a := (pgdir, vpns uva)) hkeep hsame (Set.mem_singleton _),
      hkeep _ hpage, ?_, by rw [← hi], Or.inl ⟨hi, rfl⟩⟩
    · rw [List.append_nil]
      exact hex
    · show m.leaf pgdir (vpns uva) ≠ 0 ∧ frameOf (m.leaf pgdir (vpns uva)) = _
      rw [hself]
      exact ⟨entry_ne_zero hframe (by decide) hpos.ne', frameOf_entry hframe (by decide)⟩
  | none =>
    cases hfree : x.state.findShare 0 with
    | none =>
      simp only [hfind, hfree, Option.some.injEq, Prod.mk.injEq] at hs
      exact Or.inl ⟨hs.1.symm, hs.2.symm⟩
    | some i =>
      have hi := State.findShare_eq_some hfree
      simp only [hfind, hfree, Option.bind_eq_bind, Option.bind_eq_some_iff, Option.some.injEq,
        Prod.mk.injEq] at hs
      obtain ⟨ref, hadd, uva, huva, ⟨kva, u⟩, halloc, rfl, rfl⟩ := hs
      obtain rfl := State.addInt_eq_some hadd
      obtain ⟨hne, halign, hlt, hpte⟩ := Memory.firstUnmapped_uva huva
      have hb := h.backed.setSharePage i { x.state.sharePages i with
        key := key, ref := (x.state.sharePages i).ref + 1 }
      have hroom := hcare.room ⟨hfind, by rw [hfree]; exact Option.some_ne_none i⟩
      obtain ⟨role', e', q', hb', hund, hshare, hnew, hpage, hleaf, hframe⟩ :=
        hb.allocPageHelper hd (own_vpn2 hlt) hroom halloc
      refine Or.inr ⟨i, kva, role', e', q', ⟨hne, halign, hlt, getPteOfUva_eq_none.1 hpte⟩,
        hb'.setSharePage i _, hund, hpage, ⟨hleaf, hframe⟩, ?_,
        Or.inr ⟨hi, State.findShare_eq_none.1 hfind, hnew⟩⟩
      simp only [State.setSharePage, hshare, Function.update_self, Function.update_idem]

lemma zero_ne_page (h : x.Coherent role e q) : role 0 ≠ .page := by
  intro hzero
  have := (h.exclusive.isFrame hzero).2
  omega

section Gets

variable {i : Fin 16}

lemma Gets.shares (h : x.Coherent role e q) (hg : Gets x role key pgdir uva t i kva role' e' q')
    {f : ℕ} (hf : x.state.Shares f) : t.Shares f := by
  obtain ⟨j, href, hkva⟩ := hf
  refine ⟨j, ?_⟩
  rw [hg.slots]
  rcases eq_or_ne j i with rfl | hji
  · rw [Function.update_self]
    rcases hg.old with ⟨-, hold⟩ | ⟨hfree, -⟩
    · exact ⟨by show (0 : ℤ) < _ + 1; omega, hold.symm.trans hkva⟩
    · rcases h.slots.ok j with ⟨hne, -⟩ | ⟨-, hzero, -⟩
      · exact absurd hfree hne
      · omega
  · rw [Function.update_of_ne hji]
    exact ⟨href, hkva⟩

lemma get (h : x.Coherent role e q) (hd : pgdir ∈ x.spaces) (hkey : key ≠ 0)
    (hg : Gets x role key pgdir uva t i kva role' e' q') :
    ((x.next t).record key pgdir uva).Coherent role' e' q' := by
  obtain ⟨hne, halign, hlt, hz⟩ := hg.fresh
  have hframe : t.getKvaOfUva uva pgdir = kva := by
    have hex := hg.backed.exclusive
    rw [(hex.getKvaOfUva hd (own_vpn2 hlt) hg.leaf.1).1, hg.leaf.2]
    simp only [PAGE_SIZE] at halign
    omega
  have hpage : ∀ j, 0 < (x.state.sharePages j).ref → role (x.state.sharePages j).kva = .page →
      role' (x.state.sharePages j).kva = .page :=
    fun j href => hg.undisturbed.page _ ⟨j, href, rfl⟩
  have hkeys : ∀ j, j ≠ i → (x.state.sharePages j).key ≠ key := by
    intro j hj heq
    rcases hg.old with ⟨hi, -⟩ | ⟨-, hno, -⟩
    · exact hj (h.slots.keys i j (hi ▸ hkey) (hi.trans heq.symm)).symm
    · exact hno j heq
  have hkvas : ∀ j, j ≠ i → (x.state.sharePages j).kva ≠ kva := by
    intro j hj heq
    rcases hg.old with ⟨hi, hkva⟩ | ⟨-, -, hfree⟩
    · exact hj (h.slots.kvas i j (hi ▸ hkey) (hkva.trans heq.symm)).symm
    · rcases h.slots.ok j with ⟨-, -, hrole⟩ | ⟨-, -, hzero⟩
      · rw [heq, hfree] at hrole
        cases hrole
      · have := (hg.backed.exclusive.isFrame hg.page).2
        omega
  -- the slot counts the pages that are attached before
  have hcount : ((x.held.countP fun a => a.key = key : ℕ) : ℤ) ≤ (x.state.sharePages i).ref := by
    rcases hg.old with ⟨hi, -⟩ | ⟨-, hno, -⟩
    · exact hi ▸ h.counts i
    · have hzero : (x.held.countP fun a => a.key = key) = 0 := by
        rw [List.countP_eq_zero]
        intro a ha hak
        obtain ⟨-, j, hj, -⟩ := h.keys a ha
        exact hno j (hj.trans (of_decide_eq_true hak))
      have := h.counts i
      omega
  have hpos : 0 < (x.state.sharePages i).ref + 1 := by omega
  rw [record, if_neg hne]
  simp only [next, hframe]
  refine ⟨hg.backed.shared fun o _ => Gets.shares h hg, ?_, ?_, fun j => ?_, ?_⟩
  · simp only [hg.slots]
    exact (h.slots.mono hpage).set hkey hpos hg.page hkeys hkvas
  · simp only [hg.slots]
    exact h.keys.set (a := ⟨key, pgdir, uva, kva⟩) hkey (hg.old.imp_right And.left)
  · simp only [hg.slots]
    rcases eq_or_ne j i with rfl | hji
    · rw [Function.update_self, List.countP_cons_of_pos (by simp)]
      push_cast
      omega
    · rw [Function.update_of_ne hji,
        List.countP_cons_of_neg (by simpa using fun heq => hkeys j hji heq.symm)]
      exact h.counts j
  · rintro a (_ | ⟨_, ha⟩)
    · exact ⟨hd, own_vpn2 hlt, hg.leaf⟩
    · obtain ⟨hmem, hown, hnz, hold⟩ := h.held a ha
      obtain ⟨hnz', hsame⟩ := hg.undisturbed.frame (a.pgdir, vpns a.uva) hmem hown (fun heq => by
        obtain ⟨hpg, huva⟩ := Prod.ext_iff.1 (Set.mem_singleton_iff.1 heq)
        simp only at hpg huva
        exact hnz (by rw [hpg, huva, hz])) hnz
      exact ⟨hmem, hown, hnz', hsame.trans hold⟩

end Gets

lemma shmPageGet (h : x.Coherent role e q) (hd : pgdir ∈ x.spaces) (hkey : key ≠ 0)
    (hcare : Careful P x (.shmPageGet key pgdir))
    (hc : x.callAt P (.shmPageGet key pgdir) = some y) :
    ∃ role' e' q', y.Coherent role' e' q' := by
  simp only [callAt, Option.map_eq_some_iff] at hc
  obtain ⟨⟨uva, t⟩, ht, rfl⟩ := hc
  rcases h.shmPageGetAt_cases hd hkey hcare ht with ⟨rfl, rfl⟩ | ⟨i, kva, role', e', q', hg⟩
  · rw [record, if_pos rfl]
    exact h.of_moved_empty ⟨role, e, q, h.backed, Undisturbed.refl _ _ _ _ _, rfl⟩
  · exact ⟨role', e', q', h.get hd hkey hg⟩

/-! ## Giving a page up -/

/-- No two records that are present have the same frame. -/
lemma owner_unique {r r' : Pfn} (h : x.Coherent role e q) (hr : r ∈ q .presentPagesQueue)
    (hr' : r' ∈ q .presentPagesQueue) (heq : (x.state.pages r).kva = (x.state.pages r').kva) :
    r = r' := by
  have hnodup := h.exclusive.nodup
  rw [State.owners, List.map_map] at hnodup
  exact List.inj_on_of_nodup_map hnodup hr hr' heq

/-- A slot that is in use counts less, or becomes free together with the record of its frame. -/
lemma changeSlot {i : Fin 16} {v : SharePage} (h : x.Coherent role e q)
    (hdrops : State.Drops x.state s q q')
    (hex : Exclusive s.toMemory x.spaces role e {f | x.state.Shares f} (x.state.owners q))
    (hund : Undisturbed x.spaces {f | x.state.Shares f} U role role x.state.toMemory s.toMemory)
    (hi : (x.state.sharePages i).key ≠ 0)
    (hupdate : s.sharePages = Function.update x.state.sharePages i v)
    (hv : (v = ⟨0, 0, 0⟩ ∧ (∀ b ∈ held, b.key ≠ (x.state.sharePages i).key) ∧
        ∀ r ∈ q' .presentPagesQueue, (x.state.pages r).kva ≠ (x.state.sharePages i).kva) ∨
      ∃ ref, (0 < ref ∧ v = ⟨(x.state.sharePages i).kva, ref, (x.state.sharePages i).key⟩) ∧
        ((held.countP fun b => b.key = (x.state.sharePages i).key : ℕ) : ℤ) ≤ ref)
    (hsub : held.Sublist x.held) (hheld : ∀ b ∈ held, (b.pgdir, vpns b.uva) ∉ U) :
    Coherent ⟨s, x.spaces, all, inUse, held⟩ role e q' := by
  obtain ⟨hslots, hle⟩ := h.slots.change h.zero_ne_page hi
    (hv.imp And.left fun hv => hv.imp fun _ => And.left)
  have hother : ∀ j, j ≠ i → s.sharePages j = x.state.sharePages j := fun j hj => by
    rw [hupdate, Function.update_of_ne hj]
  have hself : s.sharePages i = v := by rw [hupdate, Function.update_self]
  rw [← hupdate] at hslots hle
  refine ⟨(h.backed.of_drops hdrops hex).shared fun o ho hshare => ?_, hslots,
    h.keys.of_le h.slots hle fun b hb => ⟨hsub.subset hb, ?_⟩, fun j => ?_, fun b hb => ?_⟩
  · -- the frame of a record that is left is shared as it was
    obtain ⟨r, hr, rfl⟩ := List.mem_map.1 ho
    obtain ⟨j, hpos, hj⟩ := hshare
    refine ⟨j, ?_⟩
    rcases eq_or_ne j i with rfl | hji
    · rcases hv with ⟨-, -, hnone⟩ | ⟨ref, ⟨hpos', rfl⟩, -⟩
      · rw [hdrops.pages _ r hr] at hj
        exact absurd hj.symm (hnone r hr)
      · rw [hself]
        exact ⟨hpos', hj⟩
    · rw [hother j hji]
      exact ⟨hpos, hj⟩
  · obtain ⟨-, j, hj, -⟩ := h.keys b (hsub.subset hb)
    refine ⟨j, ?_⟩
    rcases eq_or_ne j i with rfl | hji
    · rcases hv with ⟨-, hgone, -⟩ | ⟨ref, ⟨-, rfl⟩, -⟩
      · exact absurd hj.symm (hgone b hb)
      · rw [hself]
        exact hj
    · rw [hother j hji]
      exact hj
  · rcases eq_or_ne j i with rfl | hji
    · rw [hself]
      rcases hv with ⟨rfl, -, -⟩ | ⟨ref, ⟨-, rfl⟩, hcount⟩
      · have hnone : (held.countP fun b => b.key = 0) = 0 :=
          List.countP_eq_zero.2 fun b hb => by simpa using (h.keys b (hsub.subset hb)).1
        exact (congrArg Nat.cast hnone).le
      · exact hcount
    · rw [hother j hji]
      exact le_trans (Int.ofNat_le.2 hsub.countP_le) (h.counts j)
  · obtain ⟨hmem, hown, hnz, hframe⟩ := h.held b (hsub.subset hb)
    obtain ⟨hnz', hsame⟩ := hund.frame (b.pgdir, vpns b.uva) hmem hown (hheld b hb) hnz
    exact ⟨hmem, hown, hnz', hsame.trans hframe⟩

/-- Where a page is attached whose frame a slot has, one page less is attached afterwards with the
key of the slot. -/
lemma countP_letGo {i : Fin 16} {a : Got} (h : x.Coherent role e q) (ha : a ∈ x.held)
    (hat : a.At addr pgdir)
    (hkva : (x.state.sharePages i).kva = frameOf (x.state.leaf pgdir (vpns addr))) :
    ((x.letGo addr pgdir).held.countP fun b => b.key = (x.state.sharePages i).key) + 1 ≤
      x.held.countP fun b => b.key = (x.state.sharePages i).key := by
  obtain ⟨hne, j, hj, hjf⟩ := h.keys a ha
  have hframe := (h.held a ha).2.2.2
  rw [hat.1, hat.2] at hframe
  obtain rfl := h.slots.kvas j i (hj ▸ hne) (by rw [hjf, hkva, hframe])
  have hsplit := List.countP_eq_countP_filter_add x.held
    (fun b => b.key = (x.state.sharePages j).key) fun b => ¬ b.At addr pgdir
  have hpos : 0 < (x.held.filter fun b => !decide (¬ b.At addr pgdir)).countP
      fun b => b.key = (x.state.sharePages j).key :=
    List.countP_pos_iff.2 ⟨a, List.mem_filter.2 ⟨ha, by simpa using hat⟩, by simpa using hj.symm⟩
  have hlet : (x.letGo addr pgdir).held = x.held.filter fun b => ¬ b.At addr pgdir := rfl
  rw [hlet, hsplit]
  exact Nat.add_le_add_left hpos _

lemma shmPageDt (h : x.Coherent role e q) (hd : pgdir ∈ x.spaces) (ho : Own (vpn2 addr))
    (hcare : Careful P x (.shmPageDt addr pgdir)) (hc : x.call (.shmPageDt addr pgdir) = some y) :
    ∃ role' e' q', y.Coherent role' e' q' := by
  simp only [call, Option.map_eq_some_iff] at hc
  obtain ⟨s, hs, rfl⟩ := hc
  obtain ⟨m, q', hm, rfl, hdrops, hcases⟩ := h.backed.book.shmPageDt_cases hs
  obtain ⟨hne, hex, hund⟩ := h.exclusive.clear hd ho hm
  have hmask := (h.exclusive.getKvaOfUva hd ho hne).2
  rw [hmask] at hcases
  have hrest : ∀ b ∈ (x.letGo addr pgdir).held,
      b ∈ x.held ∧ (b.pgdir, vpns b.uva) ∉ ({(pgdir, vpns addr)} : Set UserPage) := by
    intro b hb
    obtain ⟨hb, hat⟩ := List.mem_filter.1 hb
    exact ⟨hb, fun heq => of_decide_eq_true hat (Prod.ext_iff.1 heq)⟩
  rcases hcases with ⟨-, ht⟩ | ⟨i, ref, hfind, href, -, hslots⟩
  · have hshare : s.sharePages = x.state.sharePages := by rw [ht]
    exact ⟨role, e, q', h.of_undisturbed (t := s) (h.backed.of_drops hdrops hex) hund hshare
      List.filter_sublist fun b hb =>
        ⟨(h.held b (hrest b hb).1).1, (h.held b (hrest b hb).1).1, (hrest b hb).2⟩⟩
  have hkva := State.findShareKva_eq_some hfind
  -- a slot with this frame is in use, so that the page is attached
  have hused : (x.state.sharePages i).key ≠ 0 ∧ 0 < (x.state.sharePages i).ref := by
    rcases h.slots.ok i with ⟨hkey, hpos, -⟩ | ⟨-, -, hzero⟩
    · exact ⟨hkey, hpos⟩
    · have := h.exclusive.frame_pos hd ho hne
      omega
  obtain ⟨a, ha, hat⟩ := hcare.detach _ _ rfl ⟨i, hused.2, by rw [hmask, hkva]⟩
  have hcount := h.countP_letGo ha hat hkva
  have hcounts := h.counts i
  refine ⟨role, e, q', ?_⟩
  split_ifs at hslots with hzero
  · refine h.changeSlot hdrops hex hund hused.1 hslots.1 (Or.inl ⟨rfl, fun b hb hkey => ?_,
      fun r hr hrk => ?_⟩) List.filter_sublist fun b hb => (hrest b hb).2
    · have hpos : 0 < (x.letGo addr pgdir).held.countP
          fun b => b.key = (x.state.sharePages i).key :=
        List.countP_pos_iff.2 ⟨b, hb, by simpa using hkey⟩
      omega
    · obtain ⟨r', hr', hne', hrk'⟩ := hslots.2 r hr hrk
      exact hne' (h.owner_unique hr' ((hdrops.sublist _).subset hr) (hrk'.trans hrk.symm))
  · have hupdate : s.sharePages = Function.update x.state.sharePages i
        { x.state.sharePages i with ref := ref } := by rw [hslots]
    have hcount' : (((x.letGo addr pgdir).held.countP
        fun b => b.key = (x.state.sharePages i).key : ℕ) : ℤ) ≤ ref := by omega
    exact h.changeSlot hdrops hex hund hused.1 hupdate
      (Or.inr ⟨ref, ⟨by omega, rfl⟩, hcount'⟩) List.filter_sublist fun b hb => (hrest b hb).2

/-! ## Runs -/

lemma step {ev : ShareEvent} (h : x.Coherent role e q) (hp : ev.Proper) (hcare : Careful P x ev)
    (hs : x.stepAt P ev = some y) : ∃ role' e' q', y.Coherent role' e' q' := by
  rw [stepAt, Option.ite_none_right_eq_some] at hs
  obtain ⟨hd, hc⟩ := hs
  obtain ⟨hu, hk⟩ := hp
  cases ev with
  | newPgdir => exact h.newPgdir hc
  | sharePgtable pgdir => exact h.sharePgtable (hd pgdir rfl) hc
  | kalloc => exact h.kalloc hc
  | allocPageHelper uva pgdir => exact h.allocPageHelper (hd pgdir rfl) hu hcare hc
  | unsetExec uva pgdir => exact h.unsetExec (hd pgdir rfl) hu hc
  | handlePageFault stval pgdir store => exact h.handlePageFault (hd pgdir rfl) hu hcare hc
  | swapInAllPages pgdir => exact h.swapInAllPages hcare hc
  | freePageWithKva kva => exact h.freePageWithKva hc
  | exit pgdir => exact h.exit (hd pgdir rfl) hc
  | shmPageGet key pgdir => exact h.shmPageGet (hd pgdir rfl) hk hcare hc
  | shmPageDt addr pgdir => exact h.shmPageDt (hd pgdir rfl) hu hcare hc
  | store uva pgdir v => exact h.store (hd pgdir rfl) hc

end Coherent

lemma coherent_boot (m : Memory) (kernel io : ℕ) (sd : ℕ → Fin 64 → ℕ) (startid : ℤ) :
    ∃ role e q, (boot m kernel io sd startid).Coherent role e q := by
  obtain ⟨role, q, h⟩ := inv_boot False m kernel io sd startid
  refine ⟨role, _, fun _ => [], ⟨⟨⟨h.spaces.directories, ?_, List.nodup_nil, ?_⟩,
    State.book_boot _ sd startid, ?_⟩, (h.keyed id).slots, ?_, fun i => le_rfl, ?_⟩⟩
  · intro o ho
    cases ho
  · intro a ha
    cases ha
  · intro g r hr
    cases hr
  · intro a ha
    cases ha
  · intro a ha
    cases ha

/-- In every run in which nothing moves under an attached page, none asks for key 0 and none
passes an address of the kernel or of a device, the shared pages are coherent, whatever the bound
on the pages that are present. -/
theorem shared_pages_coherent (maxPresentPfn : ℕ) (m : Memory) (kernel io : ℕ)
    (sd : ℕ → Fin 64 → ℕ) (startid : ℤ) (es : List ShareEvent)
    (hes : Trace.StepsMeet (stepAt maxPresentPfn)
      (fun x ev => ev.Proper ∧ Careful maxPresentPfn x ev) (boot m kernel io sd startid) es) :
    Trace.Always (stepAt maxPresentPfn) CoherentLaw (boot m kernel io sd startid) es := by
  have halways : Trace.Always (stepAt maxPresentPfn) (fun x => ∃ role e q, x.Coherent role e q)
      (boot m kernel io sd startid) es := by
    refine Trace.always_of_invariant ?_ (coherent_boot m kernel io sd startid) hes
    rintro x ev y ⟨role, e, q, h⟩ ⟨hp, hcare⟩ hs
    exact h.step hp hcare hs
  refine halways.mono fun x hx => ?_
  obtain ⟨role, e, q, h⟩ := hx
  exact h.law

/-! ## The bound of the kernel -/

/-- A call that returns has not made room, and a page fault was of a page that is not mapped. -/
lemma Coherent.careful {ev : ShareEvent} (h : x.Coherent role e q) (hu : x.state.Unswapped)
    (hd : ∀ pgdir ∈ ev.pgdir, pgdir ∈ x.spaces) (hp : ev.UserAddress) (hdetach : x.DetachesOwn ev)
    (hev : ∀ pgdir, ev ≠ .swapInAllPages pgdir) (hc : x.call ev = some y) :
    Careful MAX_PRESENT_PFN x ev := by
  obtain ⟨q₀, hb, hq⟩ := hu
  refine ⟨fun htake hfull => ?_, ?_, fun pgdir heq => absurd heq (hev pgdir), hdetach⟩
  · exfalso
    cases ev with
    | allocPageHelper uva pgdir =>
      obtain ⟨⟨kva, t⟩, ht, -⟩ := Option.map_eq_some_iff.1 hc
      rw [(hb.full hfull).1] at ht
      cases ht
    | handlePageFault stval pgdir store =>
      obtain ⟨t, ht, -⟩ := Option.map_eq_some_iff.1 hc
      simp only [State.handlePageFault, Option.bind_eq_bind, Option.bind_eq_some_iff] at ht
      obtain ⟨u, hu, -⟩ := ht
      obtain ⟨-, kva, halloc⟩ := hb.bringIn_spec hq hu
      rw [(hb.full hfull).1] at halloc
      cases halloc
    | shmPageGet key pgdir =>
      obtain ⟨⟨uva, t⟩, ht, -⟩ := Option.map_eq_some_iff.1 hc
      obtain ⟨i, hi⟩ := Option.ne_none_iff_exists'.1 htake.2
      simp only [State.shmPageGet, htake.1, hi, Option.bind_eq_bind, Option.bind_eq_some_iff] at ht
      obtain ⟨ref, -, v, -, ⟨kva, u⟩, halloc, -⟩ := ht
      have hb' := hb.slot i { x.state.sharePages i with key := key, ref := ref }
      rw [(hb'.full hfull).1] at halloc
      cases halloc
    | _ => exact htake
  · rintro stval pgdir store rfl ⟨a, ha, hat⟩
    obtain ⟨t, ht, -⟩ := Option.map_eq_some_iff.1 hc
    simp only [State.handlePageFault, Option.bind_eq_bind, Option.bind_eq_some_iff] at ht
    obtain ⟨u, hu, -⟩ := ht
    obtain ⟨hzero, -⟩ := hb.bringIn_spec hq hu
    have ho : Own (vpn2 (stval &&& PAGE_MASK)) := by rwa [vpn2_and_pageMask]
    have hne := (h.held a ha).2.2.1
    rw [hat.1, hat.2] at hne
    have hpos := h.exclusive.frame_pos (hd pgdir rfl) ho hne
    have := (h.exclusive.getKvaOfUva (hd pgdir rfl) ho hne).1
    omega

/-- With the bound of the kernel nothing is swapped, and it is enough that shared pages are given
up where they are attached. -/
theorem shared_pages_coherent_max (m : Memory) (kernel io : ℕ) (sd : ℕ → Fin 64 → ℕ) (startid : ℤ)
    (es : List ShareEvent) (hes : Trace.StepsMeet Sharing.step
      (fun x ev => ev.Proper ∧ x.DetachesOwn ev) (boot m kernel io sd startid) es) :
    Trace.Always Sharing.step CoherentLaw (boot m kernel io sd startid) es := by
  have halways : Trace.Always Sharing.step
      (fun x => (∃ role e q, x.Coherent role e q) ∧ x.state.Unswapped)
      (boot m kernel io sd startid) es := by
    refine Trace.always_of_invariant ?_ ⟨coherent_boot m kernel io sd startid, _,
      State.book_boot _ sd startid, rfl⟩ hes
    rintro x ev y ⟨⟨role, e, q, h⟩, hu⟩ ⟨hp, hdetach⟩ hs
    have hs' := hs
    rw [Sharing.step, Option.ite_none_right_eq_some] at hs'
    refine ⟨?_, unswapped_call hu hs'.2⟩
    by_cases hev : ∀ pgdir, ev ≠ .swapInAllPages pgdir
    · rw [← stepAt_max] at hs
      exact h.step hp (h.careful hu hs'.1 hp.1 hdetach hev hs'.2) hs
    · obtain ⟨pgdir, rfl⟩ := not_forall_not.1 hev
      obtain ⟨t, ht, rfl⟩ := Option.map_eq_some_iff.1 hs'.2
      obtain ⟨q₀, hb, hq⟩ := hu
      obtain rfl := hb.swapInAllPages_eq hq ht
      exact h.of_moved_empty ⟨role, e, q, h.backed, Undisturbed.refl _ _ _ _ _, rfl⟩
  refine halways.mono fun x hx => ?_
  obtain ⟨⟨role, e, q, h⟩, -⟩ := hx
  exact h.law

/-! ## Runs that swap, and runs that are not coherent -/

instance (s : State) : (ev : ShareEvent) → Decidable (ev.TakesFrame s)
  | .allocPageHelper _ _ => isTrue trivial
  | .handlePageFault _ _ _ => isTrue trivial
  | .shmPageGet _ _ => inferInstanceAs (Decidable (_ ∧ _))
  | .newPgdir => isFalse id
  | .sharePgtable _ => isFalse id
  | .kalloc => isFalse id
  | .unsetExec _ _ => isFalse id
  | .swapInAllPages _ => isFalse id
  | .freePageWithKva _ => isFalse id
  | .exit _ => isFalse id
  | .shmPageDt _ _ => isFalse id
  | .store _ _ _ => isFalse id

/-- Two pages may be present.  A page of the first process is swapped out for another one while
two processes have attached key 42, and one of them gives it up. -/
theorem shared_pages_coherent_swaps : ∃ x,
    Trace.run (stepAt 2) (boot ⟨fun _ _ => 0, 0⟩ 1 1 (fun _ _ => 0) 100)
      [.newPgdir, .newPgdir, .allocPageHelper 0x20000 FREEMEM_KERNEL,
        .shmPageGet 42 FREEMEM_KERNEL, .shmPageGet 42 (FREEMEM_KERNEL + PAGE_SIZE),
        .allocPageHelper 0x21000 FREEMEM_KERNEL,
        .shmPageDt SHARE_PAGE_UVA_START (FREEMEM_KERNEL + PAGE_SIZE)] = some x ∧
      x.state.firstEntry .swappedPagesQueue = some 0 ∧ CoherentLaw x := by
  have hrun : (Trace.run (stepAt 2) (boot ⟨fun _ _ => 0, 0⟩ 1 1 (fun _ _ => 0) 100)
      [.newPgdir, .newPgdir, .allocPageHelper 0x20000 FREEMEM_KERNEL,
        .shmPageGet 42 FREEMEM_KERNEL, .shmPageGet 42 (FREEMEM_KERNEL + PAGE_SIZE),
        .allocPageHelper 0x21000 FREEMEM_KERNEL,
        .shmPageDt SHARE_PAGE_UVA_START (FREEMEM_KERNEL + PAGE_SIZE)]).map
      (fun x => x.state.firstEntry .swappedPagesQueue) = some (some 0) := by decide +kernel
  obtain ⟨x, hx, hfirst⟩ := Option.map_eq_some_iff.1 hrun
  refine ⟨x, hx, hfirst, (shared_pages_coherent 2 _ 1 1 _ 100 _ (Trace.StepsMeet.mono
    (Trace.stepsMeet_of_checkSteps (C := fun x ev =>
      (decide (¬ (ev.TakesFrame x.state ∧ (2 : ℤ) ≤ x.state.presentPagesNum)) ||
        (x.state.firstEntry .presentPagesQueue).all fun r => decide
          ((x.state.pages r).pgdir ∈ x.spaces ∧ ¬ x.state.Shares (x.state.pages r).kva)) &&
      match ev with
      | .handlePageFault _ _ _ => false
      | .swapInAllPages _ => false
      | .allocPageHelper uva _ => decide (Own (vpn2 uva))
      | .unsetExec uva _ => decide (Own (vpn2 uva))
      | .shmPageGet key _ => decide (key ≠ 0)
      | .shmPageDt addr pgdir => decide (Own (vpn2 addr) ∧ ∃ a ∈ x.held, a.At addr pgdir)
      | _ => true) ?_) fun x ev hC => ?_)).last hx⟩
  · decide +kernel
  · rw [Bool.and_eq_true, Bool.or_eq_true, decide_eq_true_eq, Option.all_eq_true] at hC
    obtain ⟨hroom, hev⟩ := hC
    refine ⟨?_, fun htake hfull r hr => ?_, ?_, ?_, ?_⟩
    · cases ev <;>
        simp_all [ShareEvent.Proper, ShareEvent.UserAddress, ShareEvent.KeyNonzero]
    · exact of_decide_eq_true (hroom.resolve_left (fun hno => hno ⟨htake, hfull⟩) r hr)
    · rintro stval pgdir store rfl
      cases hev
    · rintro pgdir rfl
      cases hev
    · rintro addr pgdir rfl -
      exact (of_decide_eq_true hev).2

/-- What is not coherent.  A process gets key 0, a slot that is free, and gives it up when another
key has the slot: then another free slot has a reference too few, and the last but one process that
gives up its page takes it from the other.  And where one page may be present, the frame of a
shared page becomes free. -/
theorem shared_pages_incoherent :
    (∃ x, Trace.run step (boot ⟨fun _ _ => 0, 0⟩ 1 1 (fun _ _ => 0) 100)
      [.newPgdir, .newPgdir, .shmPageGet 0 FREEMEM_KERNEL,
        .shmPageGet 42 (FREEMEM_KERNEL + PAGE_SIZE), .shmPageDt SHARE_PAGE_UVA_START FREEMEM_KERNEL,
        .shmPageGet 43 (FREEMEM_KERNEL + PAGE_SIZE), .shmPageGet 43 FREEMEM_KERNEL,
        .shmPageDt SHARE_PAGE_UVA_START FREEMEM_KERNEL, .shmPageGet 43 FREEMEM_KERNEL] = some x ∧
      ¬ CoherentLaw x) ∧
    ∃ x, Trace.run (stepAt 1) (boot ⟨fun _ _ => 0, 0⟩ 1 1 (fun _ _ => 0) 100)
      [.newPgdir, .newPgdir, .shmPageGet 42 FREEMEM_KERNEL,
        .shmPageGet 42 (FREEMEM_KERNEL + PAGE_SIZE), .allocPageHelper 0x20000 FREEMEM_KERNEL] =
        some x ∧ ¬ CoherentLaw x := by
  constructor
  · have hrun : (Trace.run step (boot ⟨fun _ _ => 0, 0⟩ 1 1 (fun _ _ => 0) 100)
        [.newPgdir, .newPgdir, .shmPageGet 0 FREEMEM_KERNEL,
          .shmPageGet 42 (FREEMEM_KERNEL + PAGE_SIZE),
          .shmPageDt SHARE_PAGE_UVA_START FREEMEM_KERNEL,
          .shmPageGet 43 (FREEMEM_KERNEL + PAGE_SIZE), .shmPageGet 43 FREEMEM_KERNEL,
          .shmPageDt SHARE_PAGE_UVA_START FREEMEM_KERNEL, .shmPageGet 43 FREEMEM_KERNEL]).map
        (fun x => decide (0 < (x.state.sharePages 1).ref ∧
          ∃ a ∈ x.held, a.key = (x.state.sharePages 1).key ∧
            Present (x.state.leaf a.pgdir (vpns a.uva)) ∧
            frameOf (x.state.leaf a.pgdir (vpns a.uva)) ≠ (x.state.sharePages 1).kva)) =
        some true := by decide +kernel
    obtain ⟨x, hx, hval⟩ := Option.map_eq_some_iff.1 hrun
    obtain ⟨href, a, ha, hkey, hpresent, hne⟩ := of_decide_eq_true hval
    exact ⟨x, hx, fun hlaw => hne (hlaw.frame 1 href a ha hkey hpresent)⟩
  · have hrun : (Trace.run (stepAt 1) (boot ⟨fun _ _ => 0, 0⟩ 1 1 (fun _ _ => 0) 100)
        [.newPgdir, .newPgdir, .shmPageGet 42 FREEMEM_KERNEL,
          .shmPageGet 42 (FREEMEM_KERNEL + PAGE_SIZE),
          .allocPageHelper 0x20000 FREEMEM_KERNEL]).map
        (fun x => decide (0 < (x.state.sharePages 0).ref ∧
          x.state.freememList = (x.state.sharePages 0).kva)) = some true := by decide +kernel
    obtain ⟨x, hx, hval⟩ := Option.map_eq_some_iff.1 hrun
    obtain ⟨href, hhead⟩ := of_decide_eq_true hval
    refine ⟨x, hx, fun hlaw => ?_⟩
    -- the frame is the first page of the free list
    obtain ⟨l, e, hlist, hnot⟩ := hlaw.notFree 0 href
    rw [← hhead] at hnot
    exact hnot (Memory.free_of_mem hlist.chain.head_mem)

end Sharing

end Mm
end UcasKernel
