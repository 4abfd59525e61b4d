import KmsDrm.Gem.Prime

/-!
# The entries of the PRIME cache

When a handle is closed, the cache drops the entry that it finds first for the buffer of the object,
which need not be the entry of this handle. The other entry is left behind with a handle that is
closed, or is given to another object later.

## Main results

* `Gem.prime_cache_ok` — the cache is right over every run of unambiguous calls.
-/

namespace KmsDrm.Gem

open KmsDrm.Lib List Option
open Function (update update_of_ne update_self)
open KmsDrm.RbTree (RbRoot rbInsert rbErase)

variable {s s' : State} {b : Buf} {o : Obj} {h : Handle} {m : Member} {t : RbRoot Member} {k : ℕ}
  {alloc : Option Handle} {opened mem : Bool} {key : Member → ℕ}

/-! ## The trees -/

def Sorted (key : Member → ℕ) (t : RbRoot Member) : Prop :=
  t.inorder.Pairwise fun a b => key a ≤ key b

lemma find_spec (ht : Sorted key t) :
    (∀ m, find key k t = some m → m ∈ t.inorder ∧ key m = k) ∧
      (find key k t = none → ∀ m ∈ t.inorder, key m ≠ k) := by
  induction t with
  | nil => simp [find]
  | node c l a r ihl ihr =>
    rw [Sorted, BinTree.inorder_node, pairwise_append, pairwise_cons] at ht
    obtain ⟨hl, ⟨har, hr⟩, hla⟩ := ht
    rw [find]
    split_ifs with heq hlt
    · simp [heq]
    · obtain ⟨hsome, hnone⟩ := ihr hr
      refine ⟨fun m hm => by simp [hsome m hm], fun h m hm => ?_⟩
      simp only [BinTree.inorder_node, mem_append, mem_cons] at hm
      rcases hm with hm | rfl | hm
      · have := hla m hm a (by simp)
        omega
      · exact heq
      · exact hnone h m hm
    · obtain ⟨hsome, hnone⟩ := ihl hl
      refine ⟨fun m hm => by simp [hsome m hm], fun h m hm => ?_⟩
      simp only [BinTree.inorder_node, mem_append, mem_cons] at hm
      rcases hm with hm | rfl | hm
      · exact hnone h m hm
      · exact heq
      · have := har m hm
        omega

lemma insert_spec (ht : Sorted key t) :
    (insert key m t).inorder.Perm (m :: t.inorder) ∧ Sorted key (insert key m t) :=
  RbTree.rbInsert_ordered ⟨le_rfl, Nat.le_succ _⟩ (fun _ _ => decide_eq_true_iff) ht

lemma mem_elim_erase {l : List Member} (hl : l.Nodup) {found : Option Member} :
    m ∈ found.elim l l.erase ↔ m ∈ l ∧ found ≠ some m := by
  cases found with
  | none => simp
  | some a => simp [hl.mem_erase_iff, and_comm, eq_comm]

/-! ## The invariant -/

/-- **The invariant of the cache.** -/
structure Inv (s : State) : Prop extends CacheOk s where
  sortedBufs : Sorted Member.buf s.dmabufs
  sortedHandles : Sorted Member.handle s.handles
  unique : (s.dmabufs.inorder.map Member.handle).Nodup
  ptr : ∀ {o b}, s.dmaBuf o = some b → Behind s b o ∧ o < s.nextObj
  used : ∀ {b o}, s.priv b = some o → s.isBuf b = true ∧ o < s.nextObj
  bound : ∀ {h o}, s.objectIdr h = some o → o < s.nextObj

namespace Inv

section

variable (hs : Inv s)

include hs

lemma nodup : s.dmabufs.inorder.Nodup := hs.unique.of_map

lemma setRefs {refs : Buf → Holder → ℕ}
    (hrefs : ∀ b, refs b .cache = s.refs b .cache) : Inv { s with refs := refs } :=
  { hs with refs := fun b => (hrefs b).trans (hs.refs b) }

lemma getDmaBuf (b : Buf) {who : Holder} (hwho : who ≠ .cache) : Inv (getDmaBuf b who s) :=
  hs.setRefs fun c => by by_cases hc : c = b <;> simp [hc, hwho.symm]

lemma dmaBufPut (b : Buf) {who : Holder} (hwho : who ≠ .cache) : Inv (dmaBufPut b who s) :=
  hs.setRefs fun c => by by_cases hc : c = b <;> simp [hc, hwho.symm]

lemma setDmaBuf (hb : Behind s b o) (ho : o < s.nextObj) :
    Inv { s with dmaBuf := update s.dmaBuf o (some b) } :=
  { hs with
    ptr := fun {o' b'} h => by
      by_cases ho' : o' = o
      · subst ho'
        simp only [update_self, Option.some.injEq] at h
        exact h ▸ ⟨hb, ho⟩
      · simp only [update_of_ne ho'] at h
        exact hs.ptr h }

lemma newObj : Inv { s with nextObj := s.nextObj + 1 } :=
  { hs with
    ptr := fun hx => ⟨(hs.ptr hx).1, Nat.lt_succ_of_lt (hs.ptr hx).2⟩
    used := fun hx => ⟨(hs.used hx).1, Nat.lt_succ_of_lt (hs.used hx).2⟩
    bound := fun hx => Nat.lt_succ_of_lt (hs.bound hx) }

lemma handlePut (o : Obj) : Inv (handlePut s o) := by
  unfold Gem.handlePut
  split_ifs
  · exact hs
  · cases hb : s.dmaBuf o with
    | none => exact { hs with }
    | some b =>
      have hobject : Holder.object ≠ .cache := nofun
      refine { hs.dmaBufPut b hobject with ptr := fun {o' b'} h => ?_ }
      by_cases ho : o' = o
      · simp [ho] at h
      · simp only [update_of_ne ho] at h
        exact hs.ptr h
  · exact { hs with }

lemma handleCreateTail {r : Option Handle} (ho : o < s.nextObj)
    (halloc : ∀ h ∈ alloc, h ≠ 0 ∧ s.objectIdr h = none)
    (heq : handleCreateTail s o alloc opened = (r, s')) :
    Inv s' ∧ ∀ h, r = some h → s'.objectIdr h = some o ∧ (Behind s b o → Behind s' b o) ∧
      ∀ m ∈ s'.dmabufs.inorder, m.handle ≠ h := by
  have hcount : Inv { s with
      handleCount := update s.handleCount o (s.handleCount o + 1) } := { hs with }
  unfold Gem.handleCreateTail at heq
  split at heq
  · rename_i h
    cases heq
    have hnew : ∀ m ∈ s.dmabufs.inorder, m.handle ≠ h := by
      rintro m hm rfl
      obtain ⟨o', ho', -⟩ := hs.entry m hm
      simp [(halloc m.handle rfl).2] at ho'
    refine ⟨{ hcount with
      entry := fun m hm => ?_
      bound := fun {h' o'} h'' => ?_ }, fun h' hh' => ?_⟩
    · obtain ⟨o', ho', hb⟩ := hs.entry m hm
      exact ⟨o', by simpa [hnew m hm] using ho', hb⟩
    · by_cases hh : h' = h
      · subst hh
        simp only [update_self, Option.some.injEq] at h''
        exact h'' ▸ ho
      · simp only [update_of_ne hh] at h''
        exact hs.bound h''
    · cases hh'
      exact ⟨update_self .., id, hnew⟩
  · cases heq
    exact ⟨hcount.handlePut o, nofun⟩

lemma addBufHandle (ho : s.objectIdr h = some o) (hb : Behind s b o)
    (hnew : ∀ m ∈ s.dmabufs.inorder, m.handle ≠ h) (hadd : addBufHandle s b h mem = some s') :
    Inv s' := by
  obtain ⟨-, hadd⟩ := ite_none_right_eq_some.1 hadd
  cases hadd
  obtain ⟨hpermB, hsortB⟩ := insert_spec (m := ⟨b, h⟩) hs.sortedBufs
  obtain ⟨hpermH, hsortH⟩ := insert_spec (m := ⟨b, h⟩) hs.sortedHandles
  refine { hs with
    same := (hpermH.trans (hs.same.cons _)).trans hpermB.symm
    refs := fun c => ?_
    entry := fun m hm => ?_
    sortedBufs := hsortB
    sortedHandles := hsortH
    unique := (hpermB.map _).nodup_iff.2 (nodup_cons.2 ⟨?_, hs.unique⟩) }
  · rw [hpermB.countP_eq, countP_cons, ← hs.refs c]
    by_cases hc : c = b
    · simp [Gem.getDmaBuf, hc]
    · simp [Gem.getDmaBuf, hc, Ne.symm hc]
  · rcases mem_cons.1 (hpermB.mem_iff.1 hm) with rfl | hm
    · exact ⟨o, ho, hb⟩
    · exact hs.entry m hm
  · simpa using hnew

lemma removeBufHandle (b : Buf) : Inv (removeBufHandle s b) ∧
    (removeBufHandle s b).dmabufs.inorder =
      (find Member.buf b s.dmabufs).elim s.dmabufs.inorder s.dmabufs.inorder.erase := by
  unfold Gem.removeBufHandle
  cases hm : find Member.buf b s.dmabufs with
  | none => exact ⟨hs, rfl⟩
  | some m =>
    obtain ⟨hmem, rfl⟩ := (find_spec hs.sortedBufs).1 m hm
    have hB : (rbErase m s.dmabufs).inorder = s.dmabufs.inorder.erase m :=
      RbTree.inorder_rbErase hs.nodup
    have hH : (rbErase m s.handles).inorder = s.handles.inorder.erase m :=
      RbTree.inorder_rbErase (hs.same.nodup_iff.2 hs.nodup)
    refine ⟨{ hs with
      same := by simpa only [hB, hH] using hs.same.erase m
      refs := fun c => ?_
      entry := fun m' hm' => hs.entry m' (mem_of_mem_erase (hB ▸ hm'))
      sortedBufs := by simpa only [Sorted, hB] using hs.sortedBufs.sublist erase_sublist
      sortedHandles := by simpa only [Sorted, hH] using hs.sortedHandles.sublist erase_sublist
      unique := ?_ }, hB⟩
    · have hcount := hs.refs c
      rw [(perm_cons_erase hmem).countP_eq] at hcount
      simp only [hB, Gem.dmaBufPut]
      by_cases hc : c = m.buf
      · subst hc
        simp [hcount]
      · simpa [hc, Ne.symm hc] using hcount
    · simp only [hB]
      exact hs.unique.sublist (erase_sublist.map _)

lemma handleDelete (ho : s.objectIdr h = some o) : ∃ s1, Inv s1 ∧
    handleDelete s h = some { s1 with objectIdr := update s.objectIdr h none } ∧
    s1.objectIdr = s.objectIdr ∧ s1.dmabufs.inorder =
      ((s.dmaBuf o).bind fun b => find Member.buf b s.dmabufs).elim s.dmabufs.inorder
        s.dmabufs.inorder.erase := by
  have hidr : ∀ t o, (Gem.handlePut t o).objectIdr = t.objectIdr ∧
      (Gem.handlePut t o).dmabufs = t.dmabufs := by
    intro t o
    unfold Gem.handlePut
    split_ifs
    · exact ⟨rfl, rfl⟩
    · cases t.dmaBuf o <;> exact ⟨rfl, rfl⟩
    · exact ⟨rfl, rfl⟩
  rw [Gem.handleDelete, ho]
  cases hb : s.dmaBuf o with
  | none => exact ⟨_, hs.handlePut o, by simp [hb], (hidr s o).1, congrArg _ (hidr s o).2⟩
  | some b =>
    obtain ⟨hinv, hlist⟩ := hs.removeBufHandle b
    refine ⟨_, hinv.handlePut o, by simp [hb], (hidr _ o).1.trans ?_,
      (congrArg _ (hidr _ o).2).trans hlist⟩
    unfold Gem.removeBufHandle
    cases find Member.buf b s.dmabufs <;> rfl

lemma handleDelete_iff :
    (Unambiguous s (.handleDelete h) → Inv ((Gem.handleDelete s h).getD s)) ∧
      (CacheOk ((Gem.handleDelete s h).getD s) → Unambiguous s (.handleDelete h)) := by
  cases ho : s.objectIdr h with
  | none =>
    exact ⟨fun _ => by simpa [Gem.handleDelete, ho] using hs, fun _ => by simp [Unambiguous, ho]⟩
  | some o =>
    obtain ⟨s1, hs1, hdel, hidr, hlist⟩ := hs.handleDelete ho
    rw [hdel, getD_some]
    constructor
    · intro hun
      have hgone : ∀ m ∈ s1.dmabufs.inorder, m.handle ≠ h := by
        intro m hm hmh
        rw [hlist, mem_elim_erase hs.nodup] at hm
        exact hm.2 (hun o ho m hm.1 hmh)
      refine { hs1 with entry := fun m hm => ?_, bound := fun {h' o'} h'' => ?_ }
      · obtain ⟨o', ho', hb'⟩ := hs1.entry m hm
        exact ⟨o', by simpa [hgone m hm, ← hidr] using ho', hb'⟩
      · by_cases hh : h' = h
        · simp [hh] at h''
        · simp only [update_of_ne hh] at h''
          exact hs1.bound (hidr ▸ h'')
    · intro hok o' ho' m hm hmh
      obtain rfl : o = o' := mem_unique ho ho'
      by_contra hne
      have hmem : m ∈ s1.dmabufs.inorder := by
        rw [hlist, mem_elim_erase hs.nodup]
        exact ⟨hm, hne⟩
      obtain ⟨o', ho'', -⟩ := hok.entry m hmem
      simp [hmh] at ho''

/-! ## Export and import -/

lemma exportObject {exported : Option Buf} (ho : o < s.nextObj)
    (hexported : ∀ b ∈ exported, s.isBuf b = false) (h : exportObject s o exported = some (b, s')) :
    Inv s' ∧ Behind s' b o ∧ s'.objectIdr = s.objectIdr ∧ s'.dmabufs = s.dmabufs := by
  have huser : Holder.user ≠ .cache := nofun
  unfold Gem.exportObject at h
  split at h
  · cases h
    exact ⟨hs.getDmaBuf _ huser, .inr ‹_›, rfl, rfl⟩
  · cases h
    exact ⟨hs.getDmaBuf _ huser, (hs.ptr ‹_›).1, rfl, rfl⟩
  · split_ifs at h
    obtain ⟨c, hc, heq⟩ := map_eq_some_iff.1 h
    cases heq
    -- The new buffer has not been the one of another object.
    have hmono : ∀ {b' o'}, Behind s b' o' →
        update s.priv b (some o) b' = some o' ∨ s.importAttach o' = some b' := by
      rintro b' o' (hb' | hb')
      · refine .inl ?_
        rw [update_of_ne]
        · exact hb'
        · rintro rfl
          exact absurd ((hs.used hb').1.symm.trans (hexported _ hc)) nofun
      · exact .inr hb'
    have hnew : Inv { s with
        isBuf := update s.isBuf b true
        priv := update s.priv b (some o) } :=
      { hs with
        entry := fun m hm => (hs.entry m hm).imp fun _ hx => ⟨hx.1, hmono hx.2⟩
        ptr := fun hx => ⟨hmono (hs.ptr hx).1, (hs.ptr hx).2⟩
        used := fun {b' o'} hx => by
          by_cases hb' : b' = b
          · subst hb'
            simp only [update_self, Option.some.injEq] at hx ⊢
            exact ⟨trivial, hx ▸ ho⟩
          · simp only [update_of_ne hb'] at hx ⊢
            exact hs.used hx }
    exact ⟨((hnew.setDmaBuf (.inl (update_self ..)) ho).getDmaBuf _ huser).getDmaBuf _
      nofun, .inl (update_self ..), rfl, rfl⟩

lemma handleToFd {exported : Option Buf} {fd : Bool}
    (hexported : ∀ b ∈ exported, s.isBuf b = false) : Inv (handleToFd s h exported mem fd).2 := by
  have huser : Holder.user ≠ .cache := nofun
  have hfd : ∀ {t b}, Inv t → Inv (dmaBufFd t b fd).2 := by
    intro t b ht
    unfold dmaBufFd
    split_ifs
    · exact ht
    · exact ht.dmaBufPut b huser
  unfold Gem.handleToFd
  split
  · exact hs
  · exact hfd (hs.getDmaBuf _ huser)
  · rename_i o ho hlookup
    -- No entry has the handle, since the tree of the handles has none.
    have hnew : ∀ m ∈ s.dmabufs.inorder, m.handle ≠ h := fun m hm =>
      (find_spec hs.sortedHandles).2 (map_eq_none_iff.1 hlookup) m (hs.same.mem_iff.2 hm)
    split
    · exact hs
    · rename_i b s1 hexport
      obtain ⟨hs1, hb, hidr, htree⟩ := hs.exportObject (hs.bound ho) hexported hexport
      split
      · exact hfd (hs1.addBufHandle (hidr ▸ ho) hb (htree ▸ hnew) ‹_›)
      · exact hs1.dmaBufPut b huser

lemma importBuf {imported : Bool} (h : importBuf s b imported = some (o, s')) :
    Inv s' ∧ Behind s' b o ∧ o < s'.nextObj ∧ s'.objectIdr = s.objectIdr ∧
      s'.dmabufs = s.dmabufs := by
  unfold Gem.importBuf at h
  split at h
  · cases h
    exact ⟨hs, .inl ‹_›, (hs.used ‹_›).2, rfl, rfl⟩
  · obtain ⟨-, h⟩ := ite_none_right_eq_some.1 h
    cases h
    have hmono : ∀ {b' o'}, o' < s.nextObj → Behind s b' o' → s.priv b' = some o' ∨
        update s.importAttach s.nextObj (some b) o' = some b' := fun ho' hb' =>
      hb'.imp_right (update_of_ne (Nat.ne_of_lt ho') ..).trans
    have hnew : Inv { s with
        importAttach := update s.importAttach s.nextObj (some b)
        nextObj := s.nextObj + 1 } :=
      { hs.newObj with
        entry := fun m hm => (hs.entry m hm).imp fun _ hx => ⟨hx.1, hmono (hs.bound hx.1) hx.2⟩
        ptr := fun hx => ⟨hmono (hs.ptr hx).2 (hs.ptr hx).1, (hs.newObj.ptr hx).2⟩ }
    exact ⟨hnew.getDmaBuf b nofun, .inr (update_self ..), Nat.lt_succ_self _, rfl, rfl⟩

lemma fdToHandle {imported : Bool} {r : Option Handle}
    (halloc : ∀ h ∈ alloc, h ≠ 0 ∧ s.objectIdr h = none)
    (heq : fdToHandle s b imported alloc opened mem = (r, s')) :
    Inv s' ∧ ∀ h, r = some h → ∃ o, s'.objectIdr h = some o ∧ Behind s' b o := by
  have huser : Holder.user ≠ .cache := nofun
  have hs1 := hs.getDmaBuf b huser
  unfold Gem.fdToHandle at heq
  dsimp only at heq
  split at heq
  · rename_i h hlookup
    cases heq
    obtain ⟨m, hm, rfl⟩ := map_eq_some_iff.1 hlookup
    obtain ⟨hmem, rfl⟩ := (find_spec hs.sortedBufs).1 m hm
    refine ⟨hs1.dmaBufPut _ huser, fun h hh => ?_⟩
    cases hh
    exact hs.entry m hmem
  · split at heq
    · cases heq
      exact ⟨hs1.dmaBufPut _ huser, nofun⟩
    · rename_i o s2 himport
      obtain ⟨hs2, hb, ho, hidr, -⟩ := hs1.importBuf himport
      -- The object gets the buffer, unless it has one already.
      obtain ⟨s3, hs₃eq, hs3, hb3, ho3, hidr3⟩ : ∃ s3, (if s2.dmaBuf o = none then
          Gem.getDmaBuf b .object { s2 with dmaBuf := update s2.dmaBuf o (some b) }
          else s2) = s3 ∧ Inv s3 ∧ Behind s3 b o ∧ o < s3.nextObj ∧
          s3.objectIdr = s.objectIdr := by
        refine ⟨_, rfl, ?_⟩
        split_ifs
        · exact ⟨(hs2.setDmaBuf hb ho).getDmaBuf b nofun, hb, ho, hidr⟩
        · exact ⟨hs2, hb, ho, hidr⟩
      rw [hs₃eq] at heq
      split at heq
      · rename_i s4 htail
        cases heq
        exact ⟨((hs3.handleCreateTail (b := b) ho3 (hidr3 ▸ halloc) htail).1).dmaBufPut b huser,
          nofun⟩
      · rename_i h s4 htail
        obtain ⟨hs4, hnew⟩ := hs3.handleCreateTail (b := b) ho3 (hidr3 ▸ halloc) htail
        obtain ⟨hopen, hb4, hfree⟩ := hnew h rfl
        split at heq
        · rename_i s5 hadd
          cases heq
          refine ⟨(hs4.addBufHandle hopen (hb4 hb3) hfree hadd).dmaBufPut b huser,
            fun h' hh' => ?_⟩
          cases hh'
          obtain ⟨-, hadd⟩ := ite_none_right_eq_some.1 hadd
          cases hadd
          exact ⟨o, hopen, hb4 hb3⟩
        · cases heq
          exact ⟨((hs4.handleDelete_iff (h := h)).1 fun _ _ m hm hmh =>
            absurd hmh (hfree m hm)).dmaBufPut b huser, nofun⟩

lemma step {a : Action} (hlegal : Legal s a) (hstep : step a s = some s') :
    (Unambiguous s a → Inv s') ∧ (CacheOk s' → Unambiguous s a) := by
  cases a with
  | handleDelete h =>
    cases hstep
    exact hs.handleDelete_iff
  | handleToFd h exported mem fd =>
    cases hstep
    exact ⟨fun _ => hs.handleToFd hlegal, fun _ => trivial⟩
  | fdToHandle b imported alloc opened mem =>
    cases hstep
    exact ⟨fun _ => (hs.fdToHandle hlegal.2 rfl).1, fun _ => trivial⟩
  | bufCreate b =>
    cases hstep
    have hnew : Inv { s with isBuf := update s.isBuf b true } :=
      { hs with used := fun {b' o} hb' => ⟨by
          by_cases h : b' = b
          · simp [h]
          · simpa [h] using (hs.used hb').1, (hs.used hb').2⟩ }
    exact ⟨fun _ => hnew.getDmaBuf b nofun, fun _ => trivial⟩
  | handleCreate o alloc opened =>
    refine ⟨fun _ => ?_, fun _ => trivial⟩
    cases o with
    | some o =>
      cases hstep
      exact (hs.handleCreateTail (b := 0) (hlegal.1 o rfl) hlegal.2 rfl).1
    | none =>
      cases hstep
      exact (hs.newObj.handleCreateTail (b := 0) (Nat.lt_succ_self _) hlegal.2 rfl).1

end

lemma init : Inv init where
  same := .refl _
  refs _ := rfl
  entry := nofun
  sortedBufs := .nil
  sortedHandles := .nil
  unique := .nil
  ptr := nofun
  used := nofun
  bound := nofun

end Inv

/-- **The cache of a file.** In a run whose steps are all unambiguous the cache is right in every
state, and the next call leaves it right if and only if it is unambiguous as well. In all these
states `drm_gem_prime_fd_to_handle` returns a handle that is open for the object behind the
buffer. -/
theorem prime_cache_ok (hrun : Machine.Runs step (fun s a => Legal s a ∧ Unambiguous s a) init s) :
    CacheOk s ∧
      (∀ a s', Legal s a → step a s = some s' → (CacheOk s' ↔ Unambiguous s a)) ∧
      ∀ b imported alloc opened mem h s', Legal s (.fdToHandle b imported alloc opened mem) →
        fdToHandle s b imported alloc opened mem = (some h, s') →
        ∃ o, s'.objectIdr h = some o ∧ Behind s' b o := by
  have hs : Inv s := Machine.Runs.invariant Inv.init
    (fun s a s' hs ha hstep => (hs.step ha.1 hstep).1 ha.2) hrun
  refine ⟨hs.toCacheOk, fun a s' hlegal hstep => ?_,
    fun b imported alloc opened mem h s' hlegal heq => (hs.fdToHandle hlegal.2 heq).2 h rfl⟩
  exact ⟨(hs.step hlegal hstep).2, fun ha => ((hs.step hlegal hstep).1 ha).toCacheOk⟩

/-- Two handles for an object, both exported. -/
def exportTwice : List Action :=
  [.handleCreate none (some 1) true, .handleToFd 1 (some 100) true true,
    .handleCreate (some 0) (some 2) true, .handleToFd 2 none true true]

/-- Closing the first handle leaves the cache right. -/
theorem prime_cache_ok_exportTwice : ∃ s,
    Machine.execIf step (fun s a => Legal s a ∧ Unambiguous s a) init exportTwice = some s ∧
      CacheOk s ∧ Unambiguous s (.handleDelete 1) ∧ CacheOk ((handleDelete s 1).getD s) := by
  obtain ⟨s, hs, hun⟩ := map_eq_some_iff.1 (show (Machine.execIf step (fun s a => Legal s a ∧
    Unambiguous s a) init exportTwice).map (fun s => decide (Unambiguous s (.handleDelete 1))) =
      some true by decide +kernel)
  have hun := of_decide_eq_true hun
  obtain ⟨hok, hnext, -⟩ := prime_cache_ok (Machine.execIf_runs hs)
  exact ⟨s, hs, hok, hun, (hnext (.handleDelete 1) _ trivial rfl).2 hun⟩

/-- **A stale handle.** The second handle is closed, and the entry of the first one is dropped. The
buffer then gives the closed handle, also when it names another object. -/
theorem stale_handle : ∃ s, Machine.execIf step Legal init
    (exportTwice ++ [.handleDelete 2]) = some s ∧
      s.objectIdr 2 = none ∧ (fdToHandle s 100 true (some 3) true true).1 = some 2 ∧
      ∃ s', Machine.execIf step Legal s [.handleCreate none (some 2) true] = some s' ∧
        s'.objectIdr 2 = some 1 ∧ s'.priv 100 = some 0 ∧
        (fdToHandle s' 100 true (some 3) true true).1 = some 2 := by
  refine ⟨_, rfl, ?_, ?_, _, rfl, ?_, ?_, ?_⟩ <;> decide +kernel

end KmsDrm.Gem
