import KmsDrm.Lease.Basic

/-!
# Exclusive leases and revocation

In all runs the lists of lessees and the pointers to lessors match, the leases of two lessees of one
master have no object in common, and the entries of the `lessee_idr` of an owner are the masters
below it. The walk of `_drm_lease_revoke` ends in all finite trees.

## Main results

* `Lease.Sound.masterPut` — a dropped reference, with all masters that are destroyed by it.
* `Lease.Sound.leaseCreate` — a new lessee.
* `Lease.leases_exclusive_and_revoked` — exclusive leases, registered lessees and exact
  revocation in all runs.
-/

namespace KmsDrm.Lease

open KmsDrm.Lib List Option
open Function (update update_apply update_of_ne update_self)

variable {s : State} {m p o c d top : MasterId} {id : ℕ} {leases crtcIdr : List ℕ}

/-- **The invariant of the lease trees.** -/
structure Sound (s : State) : Prop extends Linked s where
  dead : ∀ {m : MasterId}, s.alive m = false → s.lessor m = none ∧ s.lessees m = []
  bound : ∀ {m : MasterId}, s.alive m = true → m < s.fresh
  order : ∀ {m p : MasterId}, s.lessor m = some p → p < m
  exclusive : ∀ {p a b : MasterId} {object : ℕ}, s.lessor a = some p → s.lessor b = some p →
    object ∈ s.leases a → object ∈ s.leases b → a = b
  entry : ∀ {o m : MasterId} {id : ℕ}, s.lesseeIdr o id = some m ↔
    s.lessor m ≠ none ∧ s.lesseeId m = id ∧ Owner s.lessor m o
  top : ∀ {m : MasterId}, s.lesseeId m = 0 ↔ s.lessor m = none
  counted : ∀ m : MasterId, (s.lessees m).length ≤ s.refcount m
  referenced : ∀ {m : MasterId}, s.alive m = true → 1 ≤ s.refcount m

namespace Owner

variable {lessor lessor' : MasterId → Option MasterId}

lemma unique {o' : MasterId} (h : Owner lessor m o) (h' : Owner lessor m o') : o = o' := by
  induction h with
  | top h => cases h' with
    | top => rfl
    | up h2 => simp [h] at h2
  | up h _ ih => cases h' with
    | top h2 => simp [h] at h2
    | up h2 hp => exact ih (mem_unique h h2 ▸ hp)

lemma congr (hlessor : ∀ k, k ≠ d → lessor' k = lessor k) (hleaf : ∀ k, lessor k ≠ some d)
    (hm : m ≠ d) (h : Owner lessor m o) : Owner lessor' m o ∧ o ≠ d := by
  induction h with
  | top h => exact ⟨.top (hlessor _ hm ▸ h), hm⟩
  | @up m p o h _ ih =>
    obtain ⟨hp, ho⟩ := ih (by rintro rfl; exact hleaf _ h)
    exact ⟨.up (hlessor _ hm ▸ h) hp, ho⟩

lemma update_iff {v : Option MasterId} (hleaf : ∀ k, lessor k ≠ some d) (hv : v ≠ some d)
    (hm : m ≠ d) : Owner (update lessor d v) m o ↔ Owner lessor m o := by
  have hlessor : ∀ k, k ≠ d → update lessor d v k = lessor k := fun k hk => update_of_ne hk ..
  refine ⟨fun h => (h.congr (fun k hk => (hlessor k hk).symm) (fun k => ?_) hm).1,
    fun h => (h.congr hlessor hleaf hm).1⟩
  by_cases hk : k = d
  · rwa [hk, update_self]
  · exact hlessor k hk ▸ hleaf k

end Owner

lemma leaseOwner_eq (horder : ∀ {m p}, s.lessor m = some p → p < m) {turns : ℕ}
    (h : m < turns) : ∃ o, leaseOwner s turns m = some o ∧ Owner s.lessor m o := by
  induction turns generalizing m with
  | zero => exact absurd h (Nat.not_lt_zero m)
  | succ turns ih =>
    cases hlessor : s.lessor m with
    | none => exact ⟨m, by simp [leaseOwner, hlessor], .top hlessor⟩
    | some p =>
      obtain ⟨o, ho, howner⟩ := ih (lt_of_lt_of_le (horder hlessor) (Nat.le_of_lt_succ h))
      exact ⟨o, by simp [leaseOwner, hlessor, ho], .up hlessor howner⟩

namespace Sound

section

variable (hs : Sound s)

include hs

lemma alive_of_lessor (h : s.lessor m = some p) : s.alive m = true ∧ s.alive p = true := by
  have hmem := hs.mem_lessees.2 h
  constructor
  · by_contra hdead
    simp [(hs.dead (by simpa using hdead)).1] at h
  · by_contra hdead
    simp [(hs.dead (by simpa using hdead)).2] at hmem

lemma leaf (h : s.lessees d = []) (k : MasterId) : s.lessor k ≠ some d := by
  rw [Ne, ← hs.mem_lessees, h]
  exact not_mem_nil

lemma fresh_dead : s.alive s.fresh = false := by
  by_contra halive
  exact lt_irrefl _ (hs.bound (by simpa using halive))

lemma setRefcount {n : ℕ} (hn : 1 ≤ n) (hlessees : (s.lessees m).length ≤ n) :
    Sound { s with refcount := update s.refcount m n } where
  __ := hs
  counted k := by
    have := hs.counted k
    simp only [update_apply]
    split_ifs with h
    · rwa [h]
    · exact this
  referenced {k} hk := by
    have := hs.referenced hk
    simp only [update_apply]
    split_ifs
    · exact hn
    · exact this

lemma masterCreate : Sound (masterCreate s) := by
  have hdead := hs.dead hs.fresh_dead
  refine { hs with
    dead := fun {k} hk => hs.dead ?_
    bound := fun {k} hk => ?_
    counted := fun k => ?_
    referenced := fun {k} hk => ?_ }
  all_goals simp only [Lease.masterCreate, update_apply] at *
  · split_ifs at hk with h
    exact hk
  · split_ifs at hk with h
    · exact h ▸ Nat.lt_succ_self _
    · exact Nat.lt_succ_of_lt (hs.bound hk)
  · split_ifs with h
    · simp [h, hdead.2]
    · exact hs.counted k
  · split_ifs at hk ⊢ with h
    · exact le_refl 1
    · exact hs.referenced hk

/-! ## Masters that leave the tree -/

lemma unregister (hd : s.alive d = true) : ∃ idr,
    unregister s d = some { s with lesseeIdr := idr } ∧
      ∀ o id, idr o id = if s.lesseeIdr o id = some d then none else s.lesseeIdr o id := by
  cases hlessor : s.lessor d with
  | none =>
    refine ⟨s.lesseeIdr, by simp [Lease.unregister, hs.top.2 hlessor], fun o id => ?_⟩
    rw [if_neg fun h => (hs.entry.1 h).1 hlessor]
  | some p =>
    have hid : s.lesseeId d ≠ 0 := fun h => by simp [hs.top.1 h] at hlessor
    obtain ⟨o, ho, howner⟩ := leaseOwner_eq hs.order (Nat.lt_succ_of_lt (hs.bound hd))
    refine ⟨_, by rw [Lease.unregister, if_pos hid, ho]; rfl, fun o' id => ?_⟩
    -- The only entry for the master is the one that is removed.
    have hentry : s.lesseeIdr o' id = some d ↔ o' = o ∧ id = s.lesseeId d := by
      rw [hs.entry]
      exact ⟨fun h => ⟨h.2.2.unique howner, h.2.1.symm⟩,
        fun h => ⟨by simp [hlessor], h.2.symm, h.1 ▸ howner⟩⟩
    simp only [update_apply]
    grind

lemma unlink {idr : MasterId → ℕ → Option MasterId} (hleaf : s.lessees d = [])
    (hidr : ∀ o id, idr o id = if s.lesseeIdr o id = some d then none else s.lesseeIdr o id) :
    Sound (unlink { s with lesseeIdr := idr } d) := by
  have hchild := hs.leaf hleaf
  have hmem : ∀ k q, k ∈ (s.lessees q).erase d ↔ k ≠ d ∧ k ∈ s.lessees q := fun k q =>
    (hs.nodup q).mem_erase_iff
  constructor
  case toLinked =>
    refine ⟨fun {k q} => ?_, fun q => (hs.nodup q).erase d⟩
    simp only [Lease.unlink, hmem, hs.mem_lessees]
    grind
  all_goals simp only [Lease.unlink, update_apply]
  case dead =>
    intro k hk
    split_ifs at hk ⊢ with h
    · simp [h, hleaf]
    · simp [hs.dead hk]
  case bound =>
    intro k hk
    split_ifs at hk
    exact hs.bound hk
  case order =>
    intro k q hk
    split_ifs at hk
    exact hs.order hk
  case exclusive =>
    intro q a b object ha hb hoa hob
    split_ifs at ha hb hoa hob
    exact hs.exclusive ha hb hoa hob
  case entry =>
    intro o k id
    by_cases hkd : k = d
    · have hne : idr o id ≠ some d := by
        rw [hidr]
        split_ifs with h
        · simp
        · exact h
      by_cases hod : o = d <;> simp [hkd, hod, hne]
    · rw [Owner.update_iff hchild (some_ne_none d).symm hkd, if_neg hkd, if_neg hkd, ← hs.entry]
      by_cases hod : o = d
      · -- Nothing is below the master, so it has had no entries.
        have hnone : s.lesseeIdr d id ≠ some k := fun h =>
          ((hs.entry.1 h).2.2.congr (fun _ _ => rfl) hchild hkd).2 rfl
        simp [hod, hnone]
      · rw [if_neg hod, hidr]
        split_ifs with h
        · simp [h, Ne.symm hkd]
        · rfl
  case top =>
    intro k
    split_ifs
    · simp
    · exact hs.top
  case counted =>
    intro k
    split_ifs with h
    · simp [h, hleaf]
    · exact length_erase_le.trans (hs.counted k)
  case referenced =>
    intro k hk
    split_ifs at hk ⊢
    exact hs.referenced hk

/-- **A dropped reference.** `drm_master_put` keeps the invariant, with all masters it destroys on
the way up.

**Proof sketch.** By induction on the name of the master: a master that is destroyed has no lessees,
since they hold references, and its lessor then has a reference that is not one of its lessees'. -/
lemma masterPut {turns : ℕ} (hm : s.alive m = true)
    (hheld : (s.lessees m).length < s.refcount m) (hturns : m < turns) :
    ∃ s', masterPut s turns m = some s' ∧ Sound s' := by
  induction turns generalizing s m with
  | zero => exact absurd hturns (Nat.not_lt_zero m)
  | succ turns ih =>
    by_cases hlast : s.refcount m = 1
    · have hleaf : s.lessees m = [] := eq_nil_of_length_eq_zero (by omega)
      obtain ⟨idr, hidr, hentry⟩ := hs.unregister hm
      have hsound := hs.unlink hleaf hentry
      rw [Lease.masterPut, if_neg (by simp [hlast]), hidr]
      cases hlessor : s.lessor m with
      | none => exact ⟨_, rfl, hsound⟩
      | some p =>
        have hmem := hs.mem_lessees.2 hlessor
        have hpm : p ≠ m := Nat.ne_of_lt (hs.order hlessor)
        refine ih hsound ?_ ?_ (lt_of_lt_of_le (hs.order hlessor) (Nat.le_of_lt_succ hturns))
        · simp [Lease.unlink, hpm, (hs.alive_of_lessor hlessor).2]
        · have hcount := hs.counted p
          have hpos := length_pos_of_mem hmem
          simp only [Lease.unlink, update_of_ne hpm, length_erase_of_mem hmem]
          omega
    · exact ⟨_, by rw [Lease.masterPut, if_pos hlast], hs.setRefcount (by omega) (by omega)⟩

/-! ## New lessees -/

/-- A new lessee is put into the tree: it is a tree of its own before, the id is not in use by the
owner, and no lessee of its lessor holds one of its leases. -/
lemma adopt (hp : s.alive p = true) (hc : s.alive c = true) (hpc : p < c)
    (hctop : s.lessor c = none) (hcleaf : s.lessees c = []) (ho : Owner s.lessor p o) (hid : id ≠ 0)
    (hidr : s.lesseeIdr o id = none)
    (hleases : ∀ object ∈ leases, ∀ b, s.lessor b = some p → object ∉ s.leases b) :
    Sound (adopt s p o c id leases) := by
  have hne : p ≠ c := Nat.ne_of_lt hpc
  have hchild := hs.leaf hcleaf
  have hnew : c ∉ s.lessees p := by simp [hs.mem_lessees, hctop]
  have howner : ∀ {k o}, k ≠ c → (Owner (update s.lessor c (some p)) k o ↔
      Owner s.lessor k o) := Owner.update_iff hchild (by simpa using hne)
  have hcowner : Owner (update s.lessor c (some p)) c o := .up (update_self ..) ((howner hne).2 ho)
  constructor
  case toLinked =>
    refine ⟨fun {k q} => ?_, fun q => ?_⟩
    all_goals simp only [Lease.adopt, update_apply]
    · have hmem := @Linked.mem_lessees s hs.toLinked
      grind
    · split_ifs with hq
      · rw [← concat_eq_append]
        exact (hs.nodup p).concat hnew
      · exact hs.nodup q
  all_goals simp only [Lease.adopt, update_apply]
  case dead =>
    intro k hk
    have hkc : k ≠ c := by rintro rfl; simp [hc] at hk
    have hkp : k ≠ p := by rintro rfl; simp [hp] at hk
    rw [if_neg hkc, if_neg hkp]
    exact hs.dead hk
  case bound => exact hs.bound
  case order =>
    intro k q hk
    split_ifs at hk with h
    · cases hk
      exact h ▸ hpc
    · exact hs.order hk
  case exclusive =>
    intro q a b object ha hb hoa hob
    have := @hs.exclusive
    grind
  case entry =>
    intro o' k id'
    by_cases hkc : k = c
    · subst hkc
      have hold : s.lesseeIdr o' id' ≠ some k := fun h => (hs.entry.1 h).1 hctop
      have htop : Owner (update s.lessor k (some p)) k o' ↔ o' = o :=
        ⟨fun h => h.unique hcowner, fun h => h ▸ hcowner⟩
      grind
    · rw [howner hkc, if_neg hkc, if_neg hkc, ← hs.entry]
      grind
  case top =>
    intro k
    split_ifs
    · simp [hid]
    · exact hs.top
  case counted =>
    intro k
    have := hs.counted k
    split_ifs with h
    · simpa [← h] using this
    · exact this
  case referenced =>
    intro k hk
    have := hs.referenced hk
    split_ifs
    · omega
    · exact this

lemma checkObject_eq_none {object : ℕ}
    (h : checkObject s crtcIdr p object = none) {b : MasterId} (hb : s.lessor b = some p) :
    object ∉ s.leases b := by
  intro hmem
  have hheld : hasLeased s p object = true :=
    any_eq_true.2 ⟨b, hs.mem_lessees.2 hb, by simp [leaseHeldMaster, hb, hmem]⟩
  rw [checkObject] at h
  split_ifs at h

/-- **Creation of a lease.** `drm_lease_create` keeps the invariant; when it succeeds, there is a
new lessee with the leases asked for. -/
theorem leaseCreate {mem : Bool} {alloc : Except Errno ℕ}
    (hlegal : Legal s (.leaseCreate p leases crtcIdr mem alloc)) :
    ∃ r s', leaseCreate s p leases crtcIdr mem alloc = some (r, s') ∧ Sound s' ∧
      ∀ lessee, r = .ok lessee → s.alive lessee = false ∧ s'.alive lessee = true ∧
        s'.lessor lessee = some p ∧ s'.leases lessee = leases := by
  obtain ⟨hp, halloc⟩ := hlegal
  have hs1 := hs.masterCreate
  have hbound := hs.bound hp
  have hdead := hs.dead hs.fresh_dead
  have halive : (Lease.masterCreate s).alive s.fresh = true := update_self ..
  -- The way out of all errors: the new master is destroyed again.
  obtain ⟨s2, hput, hs2⟩ := hs1.masterPut halive (by simp [Lease.masterCreate, hdead.2])
    (show s.fresh < (Lease.masterCreate s).fresh + 1 from Nat.lt_succ_of_lt (Nat.lt_succ_self _))
  cases mem with
  | false => exact ⟨.error .ENOMEM, s, by simp [Lease.leaseCreate], hs, by simp⟩
  | true =>
    cases hcheck : leases.findSome? (checkObject (Lease.masterCreate s) crtcIdr p) with
    | some error =>
      exact ⟨.error error, s2, by simp [Lease.leaseCreate, hcheck, hput], hs2, by simp⟩
    | none =>
      obtain ⟨o, ho, howner⟩ := leaseOwner_eq hs1.order
        (show p < (Lease.masterCreate s).fresh + 1 from
          Nat.lt_succ_of_lt (Nat.lt_succ_of_lt hbound))
      cases alloc with
      | error error =>
        exact ⟨.error error, s2, by simp [Lease.leaseCreate, hcheck, ho, hput], hs2, by simp⟩
      | ok id =>
        obtain ⟨o', ho', howner'⟩ := leaseOwner_eq hs.order (Nat.lt_succ_of_lt hbound)
        obtain rfl : o = o' := howner.unique howner'
        obtain ⟨hid, hidr⟩ := halloc o ho'
        refine ⟨.ok s.fresh, _, by simp [Lease.leaseCreate, hcheck, ho], hs1.adopt ?_ halive hbound
          hdead.1 hdead.2 howner hid hidr fun object hobject b hb => hs1.checkObject_eq_none
            (List.findSome?_eq_none_iff.1 hcheck object hobject) hb, ?_⟩
        · exact (update_of_ne (Nat.ne_of_lt hbound) ..).trans hp
        · intro lessee hlessee
          cases hlessee
          exact ⟨hs.fresh_dead, halive, update_self .., update_self ..⟩

end

end Sound

/-! ## Revocation -/

lemma foldl_erase_self (l : List ℕ) : l.foldl List.erase l = [] := by
  induction l with
  | nil => rfl
  | cons a l ih => rwa [foldl_cons, erase_cons_head]

def revoked (s : State) (l : List MasterId) : State :=
  { s with leases := fun m => if m ∈ l then [] else s.leases m }

lemma foldl_evacuate (s : State) (l : List MasterId) :
    l.foldl (fun s m => evacuate m s) s = revoked s l := by
  induction l generalizing s with
  | nil => simp [revoked]
  | cons a l ih =>
    rw [foldl_cons, ih]
    simp only [revoked, evacuate, foldl_erase_self, State.mk.injEq, true_and, and_true]
    funext m
    by_cases hm : m = a <;> simp [hm]

/-- **Revocation.** Let the lists and pointers of the trees match, and let the trees be of bounded
depth, as a numbering shows. Then `_drm_lease_revoke` ends, and it has emptied the leases of `top`
and the masters below it. -/
theorem leaseRevoke_spec (hs : Linked s) {rank : MasterId → ℕ} {bound : ℕ}
    (hrank : ∀ {m p}, s.lessor m = some p → rank p < rank m ∧ rank m < bound)
    (top : MasterId) : ∃ l : List MasterId, (∀ m, m ∈ l ↔ Descends s top m) ∧
      (∃ n, ∀ turns, n ≤ turns → leaseRevoke s turns top = some (revoked s l)) ∧
      ∀ turns s', leaseRevoke s turns top = some s' → s' = revoked s l := by
  have hkids : ∀ p, ∀ c ∈ s.lessees p, rank p < rank c ∧ rank c < bound := fun p c hc =>
    hrank (hs.mem_lessees.1 hc)
  have hw : TreeWalk.Walkable State.lessees State.lessor evacuate s.lessees rank bound
      (fun t => t.lessees = s.lessees ∧ t.lessor = s.lessor) :=
    ⟨fun t ht => ht.1, fun t ht p c hc => ht.2 ▸ hs.mem_lessees.1 hc, hs.nodup, hkids,
      fun t a ht => ht⟩
  obtain ⟨⟨n, hn⟩, huniq⟩ := hw.run_eq (s := s) ⟨rfl, rfl⟩ top
  rw [foldl_evacuate] at hn huniq
  refine ⟨TreeWalk.preorder s.lessees bound top, fun m => ?_, ⟨n, fun turns hturns => ?_⟩,
    fun turns s' h => ?_⟩
  · rw [TreeWalk.mem_preorder_iff hkids (by omega)]
    simp only [Descends, hs.mem_lessees]
  · rw [leaseRevoke, hn turns hturns]
    rfl
  · exact Option.some.inj (huniq turns _ (join_eq_some_iff.1 h))

/-! ## Runs -/

lemma sound_init : Sound init where
  mem_lessees := by simp [init]
  nodup := by simp [init]
  dead _ := ⟨rfl, rfl⟩
  bound h := by simp [init] at h
  order h := by simp [init] at h
  exclusive h := by simp [init] at h
  entry := by simp [init]
  top := by simp [init]
  counted _ := le_refl 0
  referenced h := by simp [init] at h

lemma Sound.rank (hs : Sound s) (h : s.lessor m = some p) : p < m ∧ m < s.fresh :=
  ⟨hs.order h, hs.bound (hs.alive_of_lessor h).1⟩

lemma Sound.step_isSome {a : Action} (hs : Sound s) (hlegal : Legal s a)
    (ha : ∀ top turns, a ≠ .leaseRevoke top turns) : ∃ s', step a s = some s' ∧ Sound s' := by
  cases a with
  | masterCreate mem =>
    cases mem with
    | false => exact ⟨s, rfl, hs⟩
    | true => exact ⟨_, rfl, hs.masterCreate⟩
  | leaseCreate lessor leases crtcIdr mem alloc =>
    obtain ⟨r, s', hcreate, hs', -⟩ := hs.leaseCreate hlegal
    exact ⟨s', by simp [step, hcreate], hs'⟩
  | masterGet m =>
    exact ⟨_, rfl, hs.setRefcount (Nat.le_add_left 1 _) (Nat.le_succ_of_le (hs.counted m))⟩
  | masterPut m => exact hs.masterPut hlegal.1 hlegal.2 (Nat.lt_succ_of_lt (hs.bound hlegal.1))
  | leaseRevoke top turns => exact absurd rfl (ha top turns)

lemma Reachable.sound (h : Reachable s) : Sound s := by
  refine Machine.Runs.invariant sound_init ?_ h
  intro s a s' hs hlegal hstep
  by_cases ha : ∃ top turns, a = .leaseRevoke top turns
  · obtain ⟨top, turns, rfl⟩ := ha
    obtain ⟨l, -, -, huniq⟩ := leaseRevoke_spec hs.toLinked hs.rank top
    rw [huniq turns s' hstep]
    refine { hs with exclusive := fun {q a b object} hqa hqb hoa hob => ?_ }
    simp only [revoked, mem_ite_nil_left] at hoa hob
    exact hs.exclusive hqa hqb hoa.2 hob.2
  · obtain ⟨s1, hs1, hsound⟩ := hs.step_isSome hlegal (by simpa using ha)
    exact mem_unique hs1 hstep ▸ hsound

/-- A lessee is once on the list of its lessor and on no other, and the entry under its id in the
map of its owner is the only one for it; a master that does not exist is on no list and has no
entry. -/
structure Registered (s : State) : Prop where
  lessee : ∀ m p, s.alive m = true → s.lessor m = some p →
    s.alive p = true ∧ (s.lessees p).count m = 1 ∧ (∀ q, m ∈ s.lessees q → q = p) ∧
    ∃ o, Owner s.lessor m o ∧ ∀ o' id, s.lesseeIdr o' id = some m ↔ o' = o ∧ id = s.lesseeId m
  gone : ∀ m, s.alive m = false → (∀ q, m ∉ s.lessees q) ∧ ∀ o id, s.lesseeIdr o id ≠ some m

lemma Sound.registered (hs : Sound s) : Registered s := by
  refine ⟨fun m p hm h => ?_, fun m hm => ⟨fun q h => ?_, fun o id h => ?_⟩⟩
  · obtain ⟨o, -, ho⟩ := leaseOwner_eq hs.order (Nat.lt_succ_self m)
    refine ⟨(hs.alive_of_lessor h).2,
      count_eq_one_of_mem (hs.nodup p) (hs.mem_lessees.2 h), fun q hq => ?_, o, ho,
      fun o' id => ?_⟩
    · exact Option.some.inj ((hs.mem_lessees.1 hq).symm.trans h)
    · rw [hs.entry]
      exact ⟨fun he => ⟨he.2.2.unique ho, he.2.1.symm⟩,
        fun he => ⟨by simp [h], he.2.symm, he.1 ▸ ho⟩⟩
  · simp [(hs.dead hm).1, hs.mem_lessees] at h
  · exact (hs.entry.1 h).1 (hs.dead hm).1

/-- **The lease trees.** In every state a run reaches, an object is leased by at most one lessee of
a lessor, lessees are registered exactly while they exist, every call that is not a revocation
returns, and a successful creation gives a new lessee with the leases asked for. In every tree of
bounded depth, and so in every state a run reaches, `_drm_lease_revoke` ends, empties the leases of
`top` and the masters below it, and changes nothing else. -/
theorem leases_exclusive_and_revoked :
    (∀ s, Reachable s →
      (∀ p a b object, s.lessor a = some p → s.lessor b = some p → object ∈ s.leases a →
        object ∈ s.leases b → a = b) ∧
      Registered s ∧
      (∀ a, Legal s a → (∀ top turns, a ≠ .leaseRevoke top turns) → (step a s).isSome) ∧
      (∀ p leases crtcIdr mem alloc lessee s',
        Legal s (.leaseCreate p leases crtcIdr mem alloc) →
        leaseCreate s p leases crtcIdr mem alloc = some (.ok lessee, s') →
          s.alive lessee = false ∧ s'.alive lessee = true ∧ s'.lessor lessee = some p ∧
          s'.leases lessee = leases) ∧
      Linked s ∧ ∀ m p, s.lessor m = some p → p < m ∧ m < s.fresh) ∧
    ∀ s (rank : MasterId → ℕ) bound, Linked s →
      (∀ m p, s.lessor m = some p → rank p < rank m ∧ rank m < bound) → ∀ top,
      ∃ n, ∀ turns, n ≤ turns → ∃ leases : MasterId → List ℕ,
        leaseRevoke s turns top = some { s with leases := leases } ∧
        ∀ m, (Descends s top m → leases m = []) ∧ (¬ Descends s top m → leases m = s.leases m) := by
  refine ⟨fun s h => ?_, fun s rank bound hs hrank top => ?_⟩
  · have hs := h.sound
    refine ⟨fun p a b object => hs.exclusive, hs.registered, fun a hlegal ha => ?_, ?_, hs.toLinked,
      fun m p => hs.rank⟩
    · obtain ⟨s', hs', -⟩ := hs.step_isSome hlegal ha
      simp [hs']
    · intro p leases crtcIdr mem alloc lessee s' hlegal hcreate
      obtain ⟨r, s₁, hcreate', -, hok⟩ := hs.leaseCreate hlegal
      rw [hcreate] at hcreate'
      cases hcreate'
      exact hok lessee rfl
  · obtain ⟨l, hl, ⟨n, hn⟩, -⟩ := leaseRevoke_spec hs (fun {m p} => hrank m p) top
    refine ⟨n, fun turns hturns => ⟨_, hn turns hturns, fun m => ⟨fun hm => ?_, fun hm => ?_⟩⟩⟩
    · exact if_pos ((hl m).2 hm)
    · exact if_neg (mt (hl m).1 hm)

/-- An owner, a lessee with two objects, a sub-lease of one of them, and a second lessee that asks
for an object that is leased and then for another one. -/
def threeLeases : List Action :=
  [.masterCreate true, .leaseCreate 0 [3, 5] [3, 5, 7] true (.ok 1),
    .leaseCreate 1 [5] [3, 5, 7] true (.ok 2), .leaseCreate 0 [5] [3, 5, 7] true (.ok 3),
    .leaseCreate 0 [7] [3, 5, 7] true (.ok 3)]

/-- The request for the leased object fails; a revocation of the first lease empties the sub-lease
as well and leaves the other lease alone. -/
theorem leases_exclusive_and_revoked_three : ∃ s,
    Machine.execIf step Legal init threeLeases = some s ∧ s.lessees 0 = [1, 4] ∧
      s.leases 1 = [3, 5] ∧ s.leases 2 = [5] ∧ s.leases 4 = [7] ∧
      ∃ turns leases, leaseRevoke s turns 1 = some { s with leases := leases } ∧
        leases 1 = [] ∧ leases 2 = [] ∧ leases 4 = [7] := by
  obtain ⟨s, hs, hobs⟩ := map_eq_some_iff.1 (show (Machine.execIf step Legal init
    threeLeases).map (fun s => ([s.lessees 0, s.leases 1, s.leases 2, s.leases 4],
      [s.lessor 0, s.lessor 2, s.lessor 4])) =
    some ([[1, 4], [3, 5], [5], [7]], [none, some 1, some 0]) by decide +kernel)
  simp only [Prod.mk.injEq, List.cons.injEq, and_true] at hobs
  obtain ⟨⟨h0, h1, h2, h4⟩, l0, l2, l4⟩ := hobs
  obtain ⟨hruns, hrevoke⟩ := leases_exclusive_and_revoked
  obtain ⟨-, -, -, -, hlinked, hrank⟩ := hruns s (Machine.execIf_runs hs)
  obtain ⟨n, hn⟩ := hrevoke s id s.fresh hlinked hrank 1
  obtain ⟨leases, hleases, hm⟩ := hn n (le_refl n)
  have hnot : ¬ Descends s 1 4 := by
    intro h
    rcases h.cases_tail with h | ⟨q, hq, hlast⟩
    · cases h
    · rw [l4] at hlast
      cases hlast
      rcases hq.cases_tail with h | ⟨q, -, hlast⟩
      · cases h
      · simp [l0] at hlast
  exact ⟨s, hs, h0, h1, h2, h4, n, leases, hleases, (hm 1).1 .refl, (hm 2).1 (.single l2),
    ((hm 4).2 hnot).trans h4⟩

end KmsDrm.Lease
