import KmsDrm.Lib.Machine
import KmsDrm.Lib.Loop

/-!
# The hash table of `drm_hashtab.c`

The chains of the table are sorted by key, so that searches and insertions may stop early. Of
`hash_long` only its bound matters.

## Main results

* `Hashtab.chains_sorted_and_complete` — the table in every run.
-/

namespace KmsDrm.Hashtab

open KmsDrm.Lib List
open Function (update update_of_ne update_self)

abbrev Key := BitVec 64

abbrev ItemId := ℕ

inductive Ret where
  | ok
  | einval
  deriving DecidableEq, Repr

/-- `struct drm_open_hash`: the chains by their index, and the `key` field of every item. -/
structure Table where
  table : ℕ → List ItemId
  key : ItemId → Key

/-- The item is in no chain. -/
def Table.Free (t : Table) (item : ItemId) : Prop := ∀ b, item ∉ t.table b

/-- The assignment `item->key = key`. -/
def Table.setKey (t : Table) (item : ItemId) (key : Key) : Table :=
  { t with key := update t.key item key }

/-- `hlist_del_init_rcu`: the item leaves the chain it is in, if any. -/
def Table.unlink (t : Table) (item : ItemId) : Table :=
  { t with table := fun b => (t.table b).erase item }

/-- The walk of `drm_ht_find_key` along a chain. -/
def findIn (keyOf : ItemId → Key) (key : Key) : List ItemId → Option ItemId
  | [] => none
  | entry :: rest =>
    if keyOf entry = key then some entry
    else if key < keyOf entry then none
    else findIn keyOf key rest

/-- The walk of `drm_ht_insert_item`: the item goes behind the last entry that was passed. -/
def insertIn (keyOf : ItemId → Key) (item : ItemId) : List ItemId → Option (List ItemId)
  | [] => some [item]
  | entry :: rest =>
    if keyOf entry = keyOf item then none
    else if keyOf item < keyOf entry then some (item :: entry :: rest)
    else (insertIn keyOf item rest).map (entry :: ·)

/-- What an insertion of an item under a free one of `n` keys does to what the searches find: it
fails only if there is none, and then changes nothing. -/
def Inserts (find find' : Key → Option ItemId) (item : ItemId) (n : ℕ) (keys : ℕ → Key) :
    Ret → Prop
  | .ok => ∃ k < n, find (keys k) = none ∧ find' = update find (keys k) (some item)
  | .einval => (∀ k < n, find (keys k) ≠ none) ∧ find' = find

section Functions

variable (hashLong : Key → ℕ → ℕ) (order : ℕ)

/-- `drm_ht_find_key`, and `drm_ht_find_item` around it. -/
def findKey (t : Table) (key : Key) : Option ItemId :=
  findIn t.key key (t.table (hashLong key order))

/-- `drm_ht_insert_item`. -/
def insertItem (t : Table) (item : ItemId) : Ret × Table :=
  let hashedKey := hashLong (t.key item) order
  match insertIn t.key item (t.table hashedKey) with
  | none => (.einval, t)
  | some chain => (.ok, { t with table := update t.table hashedKey chain })

/-- A turn of the loop of `drm_ht_just_insert_please`, at an `unshifted_key`. -/
def tryKey (item : ItemId) (bits shift : ℕ) (add first : Key) (s : Table × Key) :
    Loop.Turn (Table × Key) (Ret × Table) :=
  match insertItem hashLong order (s.1.setKey item (s.2 <<< shift + add)) item with
  | (.ok, t) => .leave (.ok, t)
  | (.einval, t) =>
    let unshiftedKey := (s.2 + 1) &&& ((1 : Key) <<< bits - 1)
    if unshiftedKey = first then .leave (.einval, t) else .next (t, unshiftedKey)

/-- `drm_ht_just_insert_please`, with a bound on the turns of its loop. -/
def justInsertPlease (t : Table) (item : ItemId) (seed : Key) (bits shift : ℕ) (add : Key) :
    Option (Ret × Table) :=
  let first := BitVec.ofNat 64 (hashLong seed bits)
  Loop.run (tryKey hashLong order item bits shift add first) (2 ^ bits) (t, first)

/-- `drm_ht_remove_key`. -/
def removeKey (t : Table) (key : Key) : Ret × Table :=
  match findKey hashLong order t key with
  | none => (.einval, t)
  | some item => (.ok, t.unlink item)

/-- The calls; before an insertion the driver fills in the key. -/
inductive Act where
  | insertItem (item : ItemId) (key : Key)
  | justInsertPlease (item : ItemId) (seed : Key) (bits shift : ℕ) (add : Key)
  | removeItem (item : ItemId)
  | removeKey (key : Key)

/-- What callers respect: an item is inserted once, and `1UL << bits` is defined. -/
def Act.Valid (t : Table) : Act → Prop
  | .insertItem item _ => t.Free item
  | .justInsertPlease item _ bits _ _ => t.Free item ∧ bits < 64
  | _ => True

def step : Act → Table → Option Table
  | .insertItem item key, t => some (Hashtab.insertItem hashLong order (t.setKey item key) item).2
  | .justInsertPlease item seed bits shift add, t =>
    (Hashtab.justInsertPlease hashLong order t item seed bits shift add).map (·.2)
  | .removeItem item, t => some (t.unlink item)
  | .removeKey key, t => some (Hashtab.removeKey hashLong order t key).2

/-- The chains are sorted, and an item is in the chain of its key. -/
structure Inv (t : Table) : Prop where
  sorted : ∀ b, (t.table b).Pairwise fun i j => t.key i < t.key j
  hashed : ∀ b, ∀ i ∈ t.table b, hashLong (t.key i) order = b

end Functions

variable {hashLong : Key → ℕ → ℕ} {order : ℕ} {t : Table} {item : ItemId} {key : Key}
  {keyOf : ItemId → Key} {l l' : List ItemId}

/-! ## Chains -/

/-- In a sorted chain the search may stop at the first greater key. -/
lemma findIn_eq_some (hl : l.Pairwise fun i j => keyOf i < keyOf j) {i : ItemId} :
    findIn keyOf key l = some i ↔ i ∈ l ∧ keyOf i = key := by
  induction l with
  | nil => simp [findIn]
  | cons entry rest ih =>
    rw [pairwise_cons] at hl
    rw [findIn]
    split_ifs with heq hlt
    · grind
    · grind
    · grind

/-- The insertion fails at an equal key, and keeps the chain sorted else. -/
lemma insertIn_spec (item : ItemId) (hl : l.Pairwise fun i j => keyOf i < keyOf j) :
    match insertIn keyOf item l with
    | none => ∃ i ∈ l, keyOf i = keyOf item
    | some l' => (l'.Pairwise fun i j => keyOf i < keyOf j) ∧ (∀ i, i ∈ l' ↔ i = item ∨ i ∈ l) ∧
        ∀ i ∈ l, keyOf i ≠ keyOf item := by
  induction l with
  | nil => simp [insertIn]
  | cons entry rest ih =>
    obtain ⟨hentry, hrest⟩ := pairwise_cons.1 hl
    rw [insertIn]
    split_ifs with heq hlt
    · exact ⟨entry, mem_cons_self, heq⟩
    · have hall : ∀ i ∈ entry :: rest, keyOf item < keyOf i := by
        intro i hi
        rcases mem_cons.1 hi with rfl | hi
        · exact hlt
        · exact BitVec.lt_trans hlt (hentry i hi)
      exact ⟨pairwise_cons.2 ⟨hall, hl⟩, by simp, fun i hi => (BitVec.ne_of_lt (hall i hi)).symm⟩
    · have ih := ih hrest
      cases hin : insertIn keyOf item rest with
      | none =>
        rw [hin] at ih
        obtain ⟨i, hi, hkey⟩ := ih
        exact ⟨i, .tail _ hi, hkey⟩
      | some l' =>
        rw [hin] at ih
        obtain ⟨hsorted, hmem, hne⟩ := ih
        refine ⟨pairwise_cons.2 ⟨fun i hi => ?_, hsorted⟩, fun i => ?_, ?_⟩
        · rcases (hmem i).1 hi with rfl | hi
          · bv_omega
          · exact hentry i hi
        · rw [mem_cons, hmem, mem_cons]
          tauto
        · simpa [heq] using hne

/-! ## The calls -/

lemma insertItem_einval (h : (insertItem hashLong order t item).1 = .einval) :
    (insertItem hashLong order t item).2 = t := by
  unfold insertItem at h ⊢
  cases hin : insertIn t.key item (t.table (hashLong (t.key item) order)) with
  | none => simp [hin]
  | some chain => simp [hin] at h

namespace Inv

lemma setKey (h : Inv hashLong order t) (hfree : t.Free item) (key : Key) :
    Inv hashLong order (t.setKey item key) := by
  have hkey : ∀ b, ∀ i ∈ t.table b, (t.setKey item key).key i = t.key i := fun b i hi =>
    update_of_ne (ne_of_mem_of_not_mem hi (hfree b)) ..
  refine ⟨fun b => (h.sorted b).imp_of_mem fun hi hj hlt => ?_, fun b i hi => ?_⟩
  · rwa [hkey b _ hi, hkey b _ hj]
  · rw [hkey b i hi]
    exact h.hashed b i hi

/-- The chain of a key is the only one to search. -/
lemma findKey_eq_some (h : Inv hashLong order t) {i : ItemId} :
    findKey hashLong order t key = some i ↔ (∃ b, i ∈ t.table b) ∧ t.key i = key := by
  rw [findKey, findIn_eq_some (h.sorted _)]
  constructor
  · exact fun hi => ⟨⟨_, hi.1⟩, hi.2⟩
  · rintro ⟨⟨b, hi⟩, rfl⟩
    rw [h.hashed b i hi]
    exact ⟨hi, rfl⟩

lemma findKey_setKey (h : Inv hashLong order t) (hfree : t.Free item) (key : Key) :
    findKey hashLong order (t.setKey item key) = findKey hashLong order t := by
  funext k
  ext i
  rw [(h.setKey hfree key).findKey_eq_some, h.findKey_eq_some]
  refine and_congr_right fun ⟨b, hi⟩ => ?_
  have hne : i ≠ item := ne_of_mem_of_not_mem hi (hfree b)
  simp [Table.setKey, hne]

/-- An insertion puts the item under its key, if no other item is there. -/
lemma insertItem (h : Inv hashLong order t) (item : ItemId) :
    Inv hashLong order (insertItem hashLong order t item).2 ∧
      Inserts (findKey hashLong order t)
        (findKey hashLong order (Hashtab.insertItem hashLong order t item).2) item 1
        (fun _ => t.key item) (Hashtab.insertItem hashLong order t item).1 := by
  have hspec := insertIn_spec item (h.sorted (hashLong (t.key item) order))
  rw [Hashtab.insertItem]
  cases hin : insertIn t.key item (t.table (hashLong (t.key item) order)) with
  | none =>
    rw [hin] at hspec
    obtain ⟨i, hi, hkey⟩ := hspec
    have hfound := h.findKey_eq_some.2 ⟨⟨_, hi⟩, hkey⟩
    exact ⟨h, fun _ _ => by simp [hfound], rfl⟩
  | some chain =>
    rw [hin] at hspec
    obtain ⟨hsorted, hmem, hfresh⟩ := hspec
    have hinv : Inv hashLong order
        { t with table := update t.table (hashLong (t.key item) order) chain } := by
      refine ⟨fun b => ?_, fun b i hi => ?_⟩
      · by_cases hb : b = hashLong (t.key item) order
        · simpa [hb] using hsorted
        · simpa [hb] using h.sorted b
      · by_cases hb : b = hashLong (t.key item) order
        · simp only [hb, update_self, hmem] at hi ⊢
          rcases hi with rfl | hi
          · rfl
          · exact h.hashed _ i hi
        · simp only [update_of_ne hb] at hi
          exact h.hashed b i hi
    have hnone : findKey hashLong order t (t.key item) = none := by
      rw [Option.eq_none_iff_forall_ne_some]
      intro i hi
      obtain ⟨⟨b, hb⟩, hkey⟩ := h.findKey_eq_some.1 hi
      obtain rfl := h.hashed b i hb
      rw [hkey] at hb
      exact hfresh i hb hkey
    -- the chains hold one more item
    have hmem' : ∀ i, (∃ b, i ∈ update t.table (hashLong (t.key item) order) chain b) ↔
        i = item ∨ ∃ b, i ∈ t.table b := by
      intro i
      constructor
      · rintro ⟨b, hi⟩
        by_cases hb : b = hashLong (t.key item) order
        · rw [hb, update_self, hmem] at hi
          exact hi.imp_right fun hi => ⟨_, hi⟩
        · rw [update_of_ne hb] at hi
          exact .inr ⟨b, hi⟩
      · rintro (rfl | ⟨b, hi⟩)
        · exact ⟨_, by rw [update_self, hmem]; exact .inl rfl⟩
        · by_cases hb : b = hashLong (t.key item) order
          · exact ⟨b, by rw [hb, update_self, hmem]; exact .inr (hb ▸ hi)⟩
          · exact ⟨b, by rwa [update_of_ne hb]⟩
    refine ⟨hinv, 0, Nat.one_pos, hnone, funext fun k => Option.ext fun i => ?_⟩
    rw [hinv.findKey_eq_some, hmem']
    by_cases hk : k = t.key item
    · subst hk
      rw [update_self, Option.some.injEq]
      constructor
      · rintro ⟨rfl | hi, hkey⟩
        · rfl
        · rw [h.findKey_eq_some.2 ⟨hi, hkey⟩] at hnone
          cases hnone
      · rintro rfl
        exact ⟨.inl rfl, rfl⟩
    · rw [update_of_ne hk, h.findKey_eq_some]
      exact and_congr_left fun hkey => or_iff_right fun heq => hk (by rw [← hkey, heq])

lemma insertItem_setKey (h : Inv hashLong order t) (hfree : t.Free item) (key : Key) :
    Inv hashLong order (Hashtab.insertItem hashLong order (t.setKey item key) item).2 ∧
      Inserts (findKey hashLong order t)
        (findKey hashLong order (Hashtab.insertItem hashLong order (t.setKey item key) item).2)
        item 1 (fun _ => key) (Hashtab.insertItem hashLong order (t.setKey item key) item).1 := by
  have hspec := (h.setKey hfree key).insertItem item
  rwa [h.findKey_setKey hfree, show (t.setKey item key).key item = key from update_self ..] at hspec

lemma unlink (h : Inv hashLong order t) (item : ItemId) : Inv hashLong order (t.unlink item) :=
  ⟨fun b => (h.sorted b).sublist erase_sublist, fun b i hi =>
    h.hashed b i (mem_of_mem_erase hi)⟩

/-- Only the item is not found any more. -/
lemma findKey_unlink (h : Inv hashLong order t) (item : ItemId) (key : Key) :
    findKey hashLong order (t.unlink item) key =
      (findKey hashLong order t key).filter (· ≠ item) := by
  ext i
  have hnodup : ∀ b, (t.table b).Nodup := fun b =>
    (h.sorted b).imp fun hlt heq => by simp [heq] at hlt
  rw [(h.unlink item).findKey_eq_some, Option.filter_eq_some_iff, h.findKey_eq_some]
  simp only [Table.unlink, (hnodup _).mem_erase_iff, decide_eq_true_eq]
  tauto

/-- Exactly the key is not found any more. -/
lemma findKey_removeKey (h : Inv hashLong order t) (key : Key) :
    findKey hashLong order (removeKey hashLong order t key).2 =
      update (findKey hashLong order t) key none := by
  funext k
  rw [removeKey]
  cases hfind : findKey hashLong order t key with
  | none =>
    by_cases hk : k = key
    · simp [hk, hfind]
    · simp [hk]
  | some item =>
    obtain ⟨hitem, hkey⟩ := h.findKey_eq_some.1 hfind
    rw [h.findKey_unlink]
    by_cases hk : k = key
    · simp [hk, hfind]
    · rw [update_of_ne hk]
      cases hfind' : findKey hashLong order t k with
      | none => rfl
      | some i =>
        have hne : i ≠ item := fun heq => hk (by rw [← hkey, ← heq, (h.findKey_eq_some.1 hfind').2])
        simp [hne]

end Inv

/-! ## The loop of `drm_ht_just_insert_please` -/

lemma next_unshiftedKey {bits : ℕ} (hbits : bits < 64) (a : ℕ) :
    (BitVec.ofNat 64 (a % 2 ^ bits) + 1) &&& ((1 : Key) <<< bits - 1) =
      BitVec.ofNat 64 ((a + 1) % 2 ^ bits) := by
  have hle : 2 ^ bits ≤ 2 ^ 63 := Nat.pow_le_pow_right (by omega) (by omega)
  have hpos := Nat.two_pow_pos bits
  have hmask : ((1 : Key) <<< bits - 1).toNat = 2 ^ bits - 1 := by bv_omega
  have hsum : ∀ x < 2 ^ 63, (BitVec.ofNat 64 x + 1).toNat = x + 1 := by
    intro x hx
    bv_omega
  apply BitVec.eq_of_toNat_eq
  rw [BitVec.toNat_and, hmask, hsum _ (by omega), Nat.and_two_pow_sub_one_eq_mod, Nat.mod_add_mod,
    BitVec.toNat_ofNat, Nat.mod_eq_of_lt (show (a + 1) % 2 ^ bits < 2 ^ 64 by omega)]

section Loop

variable {bits first : ℕ} (shift : ℕ) (add : Key)

/-- The key that is tried at turn `i`. -/
def candidate (bits shift first : ℕ) (add : Key) (i : ℕ) : Key :=
  BitVec.ofNat 64 ((first + i) % 2 ^ bits) <<< shift + add

section

variable (hbits : bits < 64) (hfirst : first < 2 ^ bits)

include hbits hfirst

lemma back_at_first {j : ℕ} (hj : j < 2 ^ bits) :
    BitVec.ofNat 64 ((first + (j + 1)) % 2 ^ bits) = BitVec.ofNat 64 first ↔ j + 1 = 2 ^ bits := by
  have hle : 2 ^ bits ≤ 2 ^ 63 := Nat.pow_le_pow_right (by omega) (by omega)
  rw [← BitVec.toNat_inj, BitVec.toNat_ofNat, BitVec.toNat_ofNat,
    Nat.mod_eq_of_lt (show (first + (j + 1)) % 2 ^ bits < 2 ^ 64 by omega),
    Nat.mod_eq_of_lt (show first < 2 ^ 64 by omega)]
  rcases Nat.lt_or_ge (first + (j + 1)) (2 ^ bits) with hsmall | hbig
  · rw [Nat.mod_eq_of_lt hsmall]
    omega
  · rcases Nat.lt_or_ge j (2 ^ bits - 1) with hj' | hj'
    · rw [Nat.mod_eq_sub_mod hbig, Nat.mod_eq_of_lt (by omega)]
      omega
    · have hlast : j + 1 = 2 ^ bits := by omega
      simp [hlast, Nat.mod_eq_of_lt hfirst]

lemma tryKey_eq {j : ℕ} (hj : j < 2 ^ bits) :
    tryKey hashLong order item bits shift add (BitVec.ofNat 64 first)
        (t, BitVec.ofNat 64 ((first + j) % 2 ^ bits)) =
      match insertItem hashLong order (t.setKey item (candidate bits shift first add j)) item with
      | (.ok, t') => .leave (.ok, t')
      | (.einval, t') =>
        if j + 1 = 2 ^ bits then .leave (.einval, t')
        else .next (t', BitVec.ofNat 64 ((first + (j + 1)) % 2 ^ bits)) := by
  simp only [tryKey, candidate, next_unshiftedKey hbits, Nat.add_assoc,
    back_at_first hbits hfirst hj]

/-- The loop tries one key after the other, from `first` on; `j` of them were present already. It
fails only if it gets back to `first`, and then all of them are. -/
lemma run_tryKey {n j : ℕ}
    (hj : j + n = 2 ^ bits) (hn : n ≠ 0) (h : Inv hashLong order t) (hfree : t.Free item)
    (hseen : ∀ i < j, findKey hashLong order t (candidate bits shift first add i) ≠ none) :
    ∃ out, Loop.run (tryKey hashLong order item bits shift add (BitVec.ofNat 64 first)) n
        (t, BitVec.ofNat 64 ((first + j) % 2 ^ bits)) = some out ∧ Inv hashLong order out.2 ∧
      Inserts (findKey hashLong order t) (findKey hashLong order out.2) item (2 ^ bits)
        (candidate bits shift first add) out.1 := by
  induction n generalizing j t with
  | zero => exact absurd rfl hn
  | succ n ih =>
    have hset := h.setKey hfree (candidate bits shift first add j)
    have hfind := h.findKey_setKey hfree (candidate bits shift first add j)
    obtain ⟨hinv, hinserts⟩ := h.insertItem_setKey hfree (candidate bits shift first add j)
    rw [Loop.run, tryKey_eq shift add hbits hfirst (by omega)]
    rcases hres : insertItem hashLong order (t.setKey item (candidate bits shift first add j)) item
      with ⟨_ | _, t'⟩
    · rw [hres] at hinv hinserts
      obtain ⟨_, -, hfound⟩ := hinserts
      exact ⟨_, rfl, hinv, j, by omega, hfound⟩
    · obtain rfl : t' = t.setKey item (candidate bits shift first add j) :=
        (congrArg Prod.snd hres).symm.trans (insertItem_einval (congrArg Prod.fst hres))
      rw [hres] at hinserts
      have hseen' := Nat.forall_lt_succ_right.2 ⟨hseen, hinserts.1 0 Nat.one_pos⟩
      by_cases hlast : j + 1 = 2 ^ bits
      · simp only [if_pos hlast]
        exact ⟨_, rfl, hset, hlast ▸ hseen', hfind⟩
      · simp only [if_neg hlast]
        rw [← hfind] at hseen'
        simpa only [hfind] using ih (by omega) (by omega) hset hfree hseen'

end

/-- The keys that are tried are all those of `bits` bits, shifted. -/
lemma justInsertPlease_spec (hhash : ∀ x bits, hashLong x bits < 2 ^ bits)
    (h : Inv hashLong order t) (hfree : t.Free item) (seed : Key) (hbits : bits < 64) :
    ∃ out, justInsertPlease hashLong order t item seed bits shift add = some out ∧
      Inv hashLong order out.2 ∧
      Inserts (findKey hashLong order t) (findKey hashLong order out.2) item (2 ^ bits)
        (fun k => BitVec.ofNat 64 k <<< shift + add) out.1 := by
  have hfirst := hhash seed bits
  have hpos := Nat.two_pow_pos bits
  obtain ⟨⟨ret, t'⟩, hrun, hinv, hinserts⟩ := run_tryKey shift add hbits hfirst
    (Nat.zero_add _) (NeZero.ne _) h hfree (by simp)
  rw [Nat.add_zero, Nat.mod_eq_of_lt hfirst] at hrun
  refine ⟨_, hrun, hinv, ?_⟩
  cases ret with
  | ok =>
    obtain ⟨i, -, hi⟩ := hinserts
    exact ⟨_, Nat.mod_lt _ hpos, hi⟩
  | einval =>
    refine ⟨fun k hk => ?_, hinserts.2⟩
    -- `k` is tried at the turn that is as far from the first one, modulo `2 ^ bits`
    have hk' := hinserts.1 ((k + 2 ^ bits - hashLong seed bits) % 2 ^ bits) (Nat.mod_lt _ hpos)
    rwa [candidate, Nat.add_mod_mod,
      show hashLong seed bits + (k + 2 ^ bits - hashLong seed bits) = k + 2 ^ bits by omega,
      Nat.add_mod_right, Nat.mod_eq_of_lt hk] at hk'

end Loop

/-! ## Runs -/

lemma Inv.step (hhash : ∀ x bits, hashLong x bits < 2 ^ bits) {t' : Table} {a : Act}
    (h : Inv hashLong order t) (ha : a.Valid t) (hstep : step hashLong order a t = some t') :
    Inv hashLong order t' := by
  cases a with
  | insertItem item key =>
    cases hstep
    exact (h.insertItem_setKey ha key).1
  | justInsertPlease item seed bits shift add =>
    obtain ⟨out, hout, hinv, -⟩ := justInsertPlease_spec shift add hhash h ha.1 seed ha.2
    rw [Hashtab.step, hout] at hstep
    cases hstep
    exact hinv
  | removeItem item =>
    cases hstep
    exact h.unlink item
  | removeKey key =>
    cases hstep
    rw [removeKey]
    split
    · exact h
    · exact h.unlink _

/-- **Sorted chains that searches may cut short.** In every run from an empty table the chains are
sorted, a key is in the table once, and a search finds exactly the item with the key. What the
searches find is a map from keys to items, and the calls act on it as on a map: an insertion adds
the item under its key, and fails exactly if the key is taken; `drm_ht_just_insert_please` ends, and
adds the item under one of its keys that is free, or fails if all of them are taken; a removal takes
out the item, or the key, and nothing else.

**Proof sketch.** The calls keep `Inv` (`Inv.step`). A sorted chain can be searched up to the
first greater key (`findIn_eq_some`), and the chain of the key is the only one to search. The
loop is back at its first key after exactly `2 ^ bits` turns (`back_at_first`), each of which has
found its key present (`run_tryKey`). -/
theorem chains_sorted_and_complete (hhash : ∀ x bits, hashLong x bits < 2 ^ bits)
    {keys : ItemId → Key}
    (hrun : Machine.Runs (step hashLong order) Act.Valid ⟨fun _ => [], keys⟩ t) :
    (∀ b, (t.table b).Pairwise fun i j => t.key i < t.key j) ∧
      (∀ b b' i j, i ∈ t.table b → j ∈ t.table b' → t.key i = t.key j → b = b' ∧ i = j) ∧
      (∀ key i, findKey hashLong order t key = some i ↔ (∃ b, i ∈ t.table b) ∧ t.key i = key) ∧
      (∀ item key, t.Free item → Inserts (findKey hashLong order t)
        (findKey hashLong order (insertItem hashLong order (t.setKey item key) item).2) item 1
        (fun _ => key) (insertItem hashLong order (t.setKey item key) item).1) ∧
      (∀ item seed bits shift add, t.Free item → bits < 64 →
        ∃ ret t', justInsertPlease hashLong order t item seed bits shift add = some (ret, t') ∧
          Inserts (findKey hashLong order t) (findKey hashLong order t') item (2 ^ bits)
            (fun k => BitVec.ofNat 64 k <<< shift + add) ret) ∧
      (∀ item key, findKey hashLong order (t.unlink item) key =
        (findKey hashLong order t key).filter (· ≠ item)) ∧
      ∀ key, ((removeKey hashLong order t key).1 = .ok ↔ findKey hashLong order t key ≠ none) ∧
        findKey hashLong order (removeKey hashLong order t key).2 =
          update (findKey hashLong order t) key none := by
  have h : Inv hashLong order t :=
    hrun.invariant ⟨fun _ => .nil, by simp⟩ fun _ _ _ h => h.step hhash
  refine ⟨h.sorted, fun b b' i j hi hj hkey => ⟨?_, ?_⟩, fun _ _ => h.findKey_eq_some,
    fun _ key hfree => (h.insertItem_setKey hfree key).2,
    fun item seed bits shift add hfree hbits => ?_, h.findKey_unlink,
    fun key => ⟨?_, h.findKey_removeKey key⟩⟩
  · rw [← h.hashed b i hi, ← h.hashed b' j hj, hkey]
  · have hfound := h.findKey_eq_some.2 ⟨⟨b, hi⟩, hkey⟩
    rw [h.findKey_eq_some.2 ⟨⟨b', hj⟩, rfl⟩] at hfound
    exact (Option.some.inj hfound).symm
  · obtain ⟨⟨ret, t'⟩, hout, -, hinserts⟩ :=
      justInsertPlease_spec shift add hhash h hfree seed hbits
    exact ⟨ret, t', hout, hinserts⟩
  · rw [removeKey]
    split <;> simp_all

/-- A hash function that keeps the low bits. -/
def lowBits (x : Key) (bits : ℕ) : ℕ := x.toNat % 2 ^ bits

/-- The table with the items 1 and 2 under the keys 0 and 2, in one chain. -/
def twoItems : Table :=
  ⟨update (update (fun _ => []) 0 [1]) 0 [1, 2], update (update (fun _ => 0) 1 0) 2 2⟩

/-- Both keys of one bit, shifted by one, are taken; shifted by two, one of them is free. -/
theorem chains_sorted_and_complete_twoItems :
    Machine.Runs (step lowBits 1) Act.Valid ⟨fun _ => [], fun _ => 0⟩ twoItems ∧
      (∃ t', justInsertPlease lowBits 1 twoItems 3 7 1 1 0 = some (.einval, t') ∧
        ∀ k < 2 ^ 1, findKey lowBits 1 twoItems (BitVec.ofNat 64 k <<< 1 + 0) ≠ none) ∧
      ∃ t', justInsertPlease lowBits 1 twoItems 3 7 1 2 0 = some (.ok, t') ∧
        t'.table 0 = [1, 2, 3] ∧ ∃ k < 2 ^ 1, findKey lowBits 1 t' =
          update (findKey lowBits 1 twoItems) (BitVec.ofNat 64 k <<< 2 + 0) (some 3) := by
  have hhash : ∀ x bits, lowBits x bits < 2 ^ bits := fun x bits =>
    Nat.mod_lt _ (Nat.two_pow_pos bits)
  have hone : Machine.Runs (step lowBits 1) Act.Valid ⟨fun _ => [], fun _ => 0⟩
      ⟨update (fun _ => []) 0 [1], update (fun _ => 0) 1 0⟩ :=
    .step (.insertItem 1 0) .start (fun b => by simp) rfl
  have hrun : Machine.Runs (step lowBits 1) Act.Valid ⟨fun _ => [], fun _ => 0⟩ twoItems :=
    .step (.insertItem 2 2) hone (fun b => by by_cases hb : b = 0 <;> simp [hb]) rfl
  have hfree : twoItems.Free 3 := fun b => by
    by_cases hb : b = 0 <;> simp [twoItems, hb]
  obtain ⟨-, -, -, -, hjust, -⟩ := chains_sorted_and_complete hhash hrun
  obtain ⟨ret, t', hout, hfail⟩ := hjust 3 7 1 1 0 hfree (by decide)
  obtain ⟨ret', t'', hout', hok⟩ := hjust 3 7 1 2 0 hfree (by decide)
  cases hout
  cases hout'
  obtain ⟨k, hk, -, hfound⟩ := hok
  exact ⟨hrun, ⟨_, rfl, hfail.1⟩, _, rfl, rfl, k, hk, hfound⟩

end KmsDrm.Hashtab
