import KmsDrm.Lib.Census
import KmsDrm.Ttm.Lock

/-!
# Who may hold the TTM lock together

A reader or a writer takes the lock only if no flag is set, and the VT and the suspend mode are
taken only if the counter is zero. The flags of the latter two do not tell how many clients hold
the mode, and `__ttm_vt_lock` and `__ttm_suspend_lock` do not look at them: a second client takes
the mode too, and the unlock of one of the two lets readers in while the other still holds it.

## Main results

* `Ttm.ttm_lock_excludes` — mutual exclusion in every run that meets the condition.
* `Ttm.two_holders` — two holders of the VT mode, and a reader beside a suspend holder.
-/

namespace KmsDrm.Ttm

open KmsDrm.Lib Threads
open Function (update update_of_ne update_self)

variable {f p x : BitVec 32} {l : Lock} {m : Mode} {c : Threads.Config Lock Pc} {t : ℕ}

/-! ## The flags -/

lemma and_of_set (h : p &&& f = 0#32) : (x ||| p) &&& f = x &&& f := by
  rw [BitVec.and_or_distrib_right, h, BitVec.or_zero]

lemma and_of_clear (h : ~~~p &&& f = f) : x &&& ~~~p &&& f = x &&& f := by
  rw [BitVec.and_assoc, h]

lemma and_eq_zero_of_clear (h : ~~~p &&& f = f) (hx : x &&& ~~~p = 0#32) : x &&& f = 0#32 := by
  rw [← and_of_clear h, hx, BitVec.zero_and]

/-! ## The lock and the numbers of holders -/

/-- The modes in which the lock is held. -/
inductive Mode where
  | read
  | write
  | vt
  | suspend
  deriving DecidableEq, Repr

/-- The mode in which a client holds the lock. -/
def Pc.mode : Pc → Option Mode
  | .read => some .read
  | .write => some .write
  | .vtTaken => some .vt
  | .vt => some .vt
  | .suspend => some .suspend
  | _ => none

/-- The modes that have a flag. -/
inductive Flagged : Mode → BitVec 32 → Prop
  | vt : Flagged .vt vtLockFlag
  | suspend : Flagged .suspend suspendLockFlag

lemma Flagged.disjoint {m' : Mode} {f' : BitVec 32} (h : Flagged m f) (h' : Flagged m' f')
    (hne : m' ≠ m) : f &&& f' = 0#32 ∧ ~~~f &&& f' = f' := by
  cases h <;> cases h' <;> first | exact absurd rfl hne | decide

lemma Flagged.update (h : Flagged m f) (n : Mode → ℕ) (k : ℕ) :
    update n .read k m = n m ∧ update n .write k m = n m := by
  cases h <;> exact ⟨rfl, rfl⟩

lemma Flagged.bit (h : Flagged m f) : f &&& f ≠ 0#32 ∧ ~~~f &&& f = 0#32 := by
  cases h <;> decide

/-- A flag of those who wait; it is not the flag of a mode. -/
def IsPending (p : BitVec 32) : Prop := ∀ m f, Flagged m f → p &&& f = 0#32 ∧ ~~~p &&& f = f

lemma isPending_write : IsPending writeLockPending := by
  rintro m f (_ | _) <;> decide

lemma isPending_vt : IsPending vtLockPending := by
  rintro m f (_ | _) <;> decide

lemma isPending_suspend : IsPending suspendLockPending := by
  rintro m f (_ | _) <;> decide

/-- What the lock says about the numbers of holders. -/
structure Fits (l : Lock) (n : Mode → ℕ) : Prop where
  counter : l.rw = -1 ∧ n .read = 0 ∧ n .write = 1 ∨ l.rw = n .read ∧ n .write = 0
  room : n .read < 2 ^ 31
  flag : ∀ m f, Flagged m f → n m = if l.flags &&& f = 0#32 then 0 else 1
  alone : ∀ m f, Flagged m f → 0 < n m → l.rw = 0

namespace Fits

variable {l' : Lock} {n : Mode → ℕ}

section

variable (h : Fits l n)

include h

lemma congr (hrw : l'.rw = l.rw)
    (hflag : ∀ m f, Flagged m f → l'.flags &&& f = l.flags &&& f) : Fits l' n where
  counter := hrw ▸ h.counter
  room := h.room
  flag m f hm := by rw [hflag m f hm, h.flag m f hm]
  alone := hrw ▸ h.alone

lemma setPending (hp : IsPending p) : Fits { l with flags := l.flags ||| p } n :=
  h.congr rfl fun m f hm => and_of_set (hp m f hm).1

lemma clearPending (hp : IsPending p) : Fits { l with flags := l.flags &&& ~~~p } n :=
  h.congr rfl fun m f hm => and_of_clear (hp m f hm).2

lemma eq_zero (hm : Flagged m f) (hflag : l.flags &&& f = 0#32) : n m = 0 := by
  rw [h.flag m f hm, if_pos hflag]

lemma takeRead (hrw : 0 ≤ l.rw) (hflags : l.flags = 0#32) (hroom : l.rw + 1 < 2 ^ 31) :
    Fits { l with rw := toInt32 (l.rw + 1) } (update n .read (n .read + 1)) := by
  have hint : toInt32 (l.rw + 1) = l.rw + 1 := toInt32_eq (by omega) hroom
  have hcounter := h.counter
  refine ⟨.inr ?_, ?_, fun m f hm => ?_, fun m f hm hpos => ?_⟩
  · simp
    omega
  · simp
    omega
  · rw [(hm.update ..).1]
    exact h.flag m f hm
  · have hzero : n m = 0 := h.eq_zero hm (by rw [hflags, BitVec.zero_and])
    rw [(hm.update ..).1, hzero] at hpos
    exact absurd hpos (Nat.lt_irrefl 0)

lemma leaveRead (hread : 0 < n .read) : Fits (readUnlock l) (update n .read (n .read - 1)) := by
  have hcounter := h.counter
  have hroom := h.room
  have hint : toInt32 (l.rw - 1) = l.rw - 1 := toInt32_eq (by omega) (by omega)
  refine ⟨.inr ?_, ?_, fun m f hm => ?_, fun m f hm hpos => ?_⟩
  · simp [readUnlock]
    omega
  · simp
    omega
  · rw [(hm.update ..).1]
    exact h.flag m f hm
  · rw [(hm.update ..).1] at hpos
    have hrw := h.alone m f hm hpos
    omega

lemma takeWrite (hrw : l.rw = 0) (hflags : l.flags &&& ~~~writeLockPending = 0#32) :
    Fits { l with rw := -1, flags := l.flags &&& ~~~writeLockPending }
      (update n .write (n .write + 1)) := by
  have hcounter := h.counter
  have hclear : ∀ m f, Flagged m f → l.flags &&& f = 0#32 := fun m f hm =>
    and_eq_zero_of_clear (isPending_write m f hm).2 hflags
  refine ⟨.inl ?_, h.room, fun m f hm => ?_, fun m f hm hpos => ?_⟩
  · simp
    omega
  · rw [(hm.update ..).2, h.eq_zero hm (hclear m f hm)]
    simp [hflags]
  · rw [(hm.update ..).2, h.eq_zero hm (hclear m f hm)] at hpos
    exact absurd hpos (Nat.lt_irrefl 0)

lemma leaveWrite (hwrite : 0 < n .write) :
    Fits (writeUnlock l) (update n .write (n .write - 1)) := by
  have hcounter := h.counter
  refine ⟨.inr ?_, h.room, fun m f hm => ?_, fun _ _ _ _ => rfl⟩
  · simp [writeUnlock]
    omega
  · rw [(hm.update ..).2]
    exact h.flag m f hm

lemma takeFlag (hm : Flagged m f) (hp : IsPending p) (hrw : l.rw = 0)
    (hflag : l.flags &&& f = 0#32) :
    Fits { l with flags := l.flags &&& ~~~p ||| f } (update n m (n m + 1)) := by
  refine ⟨?_, ?_, fun m' f' hm' => ?_, fun _ _ _ _ => hrw⟩
  · cases hm <;> exact h.counter
  · cases hm <;> exact h.room
  · by_cases hne : m' = m
    · subst hne
      obtain rfl : f' = f := by cases hm <;> cases hm' <;> rfl
      have hset : (l.flags &&& ~~~p ||| f') &&& f' ≠ 0#32 := by
        rw [BitVec.and_or_distrib_right, and_of_clear (hp m' f' hm).2, hflag, BitVec.zero_or]
        exact hm.bit.1
      rw [update_self, h.eq_zero hm hflag, if_neg hset]
    · rw [update_of_ne hne, and_of_set (hm.disjoint hm' hne).1, and_of_clear (hp m' f' hm').2]
      exact h.flag m' f' hm'

lemma leaveFlag (hm : Flagged m f) : Fits (flagUnlock f l) (update n m (n m - 1)) := by
  refine ⟨?_, ?_, fun m' f' hm' => ?_, fun m' f' hm' hpos => h.alone m' f' hm' ?_⟩
  · cases hm <;> exact h.counter
  · cases hm <;> exact h.room
  · by_cases hne : m' = m
    · subst hne
      obtain rfl : f' = f := by cases hm <;> cases hm' <;> rfl
      have hle : n m' ≤ 1 := by
        rw [h.flag m' f' hm]
        split_ifs <;> omega
      have hclear : l.flags &&& ~~~f' &&& f' = 0#32 := by
        rw [BitVec.and_assoc, hm.bit.2, BitVec.and_zero]
      rw [update_self, flagUnlock, if_pos hclear]
      omega
    · rw [update_of_ne hne, flagUnlock, and_of_clear (hm.disjoint hm' hne).2]
      exact h.flag m' f' hm'
  · by_cases hne : m' = m
    · rw [hne, update_self] at hpos
      rw [hne]
      omega
    · rwa [update_of_ne hne] at hpos

end

end Fits

/-! ## Runs -/

/-- The condition on an attempt to take the lock. -/
def Free (k : Call) (l : Lock) : Prop :=
  match k with
  | .readLock _ => l.rw + 1 < 2 ^ 31
  | .readTrylock _ => l.rw + 1 < 2 ^ 31
  | .writeLock _ => True
  | .vtLock _ => l.flags &&& vtLockFlag = 0#32
  | .suspendLock => l.flags &&& suspendLockFlag = 0#32

instance Free.decidable (k : Call) (l : Lock) : Decidable (Free k l) :=
  match k with
  | .readLock _ => inferInstanceAs (Decidable (_ < _))
  | .readTrylock _ => inferInstanceAs (Decidable (_ < _))
  | .writeLock _ => inferInstanceAs (Decidable True)
  | .vtLock _ => inferInstanceAs (Decidable (_ = _))
  | .suspendLock => inferInstanceAs (Decidable (_ = _))

/-- The call whose condition a step evaluates. -/
def attempted : Act → Pc → Option Call
  | .call k, _ => some k
  | .retry, .wait k _ => some k
  | _, _ => none

/-- The condition on the steps: the VT and the suspend mode are not taken while their flags are set,
and a reader finds room in the counter. -/
def Exclusive (c : Threads.Config Lock Pc) (t : ℕ) (x : Act) : Prop :=
  ∀ k ∈ attempted x (c.pc t), Free k c.shared

instance Exclusive.decidable (c : Threads.Config Lock Pc) (t : ℕ) (x : Act) :
    Decidable (Exclusive c t x) :=
  inferInstanceAs (Decidable (∀ k ∈ attempted x (c.pc t), Free k c.shared))

/-- How many clients hold the lock in each mode. -/
def Holding (c : Threads.Config Lock Pc) (n : Mode → ℕ) : Prop :=
  ∀ m, Threads.Number (fun p => p.mode = some m) c (n m)

section Holding

variable {n : Mode → ℕ} {p : Pc}

lemma Holding.stay (h : Holding c n) (hp : p.mode = (c.pc t).mode) : Holding (c.move t l p) n :=
  fun m => (h m).stay (by rw [hp])

lemma Holding.take (h : Holding c n) (ht : (c.pc t).mode = none) (hp : p.mode = some m) :
    Holding (c.move t l p) (update n m (n m + 1)) := by
  intro m'
  by_cases hm : m' = m
  · rw [hm, update_self]
    exact (h m).join (by simp [ht]) hp
  · rw [update_of_ne hm]
    refine (h m').stay (iff_of_false ?_ ?_)
    · rw [hp, Option.some.injEq]
      exact fun heq => hm heq.symm
    · simp [ht]

lemma Holding.leave (h : Holding c n) (ht : (c.pc t).mode = some m) (hp : p.mode = none) :
    Holding (c.move t l p) (update n m (n m - 1)) := by
  intro m'
  by_cases hm : m' = m
  · rw [hm, update_self]
    exact (h m).leave ht (by simp [hp])
  · rw [update_of_ne hm]
    refine (h m').stay (iff_of_false ?_ ?_)
    · simp [hp]
    · rw [ht, Option.some.injEq]
      exact fun heq => hm heq.symm

end Holding

/-- A program point at which no `BUG_ON` has failed or will fail. -/
def Pc.Sound : Pc → Prop
  | .wait _ locked => locked = false
  | .bug => False
  | _ => True

/-- The invariant. -/
def Inv (c : Threads.Config Lock Pc) : Prop :=
  (∃ n, Holding c n ∧ Fits c.shared n) ∧ ∀ t, (c.pc t).Sound

lemma Inv.move (h : Inv c) {p : Pc} (hp : p.Sound) {n : Mode → ℕ} (hn : Holding (c.move t l p) n)
    (hfits : Fits l n) :
    Inv (c.move t l p) := by
  refine ⟨⟨n, hn, hfits⟩, fun u => ?_⟩
  by_cases hu : u = t
  · rw [hu, c.move_pc_self]
    exact hp
  · rw [c.move_pc_of_ne l p hu]
    exact h.2 u

lemma readLock_cases (l : Lock) : readLock l = (l, false) ∨
    0 ≤ l.rw ∧ l.flags = 0#32 ∧ readLock l = ({ l with rw := toInt32 (l.rw + 1) }, true) := by
  unfold readLock
  split_ifs with hkill hrw
  · exact .inl rfl
  · exact .inr ⟨hrw.1, hrw.2, rfl⟩
  · exact .inl rfl

lemma readTrylock_cases (l : Lock) : (∃ ret, readTrylock l = ⟨l, ret, false⟩) ∨
    0 ≤ l.rw ∧ l.flags = 0#32 ∧
      readTrylock l = ⟨{ l with rw := toInt32 (l.rw + 1) }, true, true⟩ := by
  unfold readTrylock
  split_ifs with hkill hrw hflags
  · exact .inl ⟨_, rfl⟩
  · exact .inr ⟨hrw.1, hrw.2, rfl⟩
  · exact .inl ⟨_, rfl⟩
  · exact .inl ⟨_, rfl⟩

lemma writeLock_cases (l : Lock) : writeLock l = (l, false) ∨
    writeLock l = ({ l with flags := l.flags ||| writeLockPending }, false) ∨
    l.rw = 0 ∧ l.flags &&& ~~~writeLockPending = 0#32 ∧ writeLock l =
      ({ l with rw := -1, flags := l.flags &&& ~~~writeLockPending }, true) := by
  unfold writeLock
  split_ifs with hkill hrw
  · exact .inl rfl
  · exact .inr (.inr ⟨hrw.1, hrw.2, rfl⟩)
  · exact .inr (.inl rfl)

lemma flagLock_cases (pending flag : BitVec 32) (l : Lock) :
    flagLock pending flag l = ({ l with flags := l.flags ||| pending }, false) ∨
    l.rw = 0 ∧ flagLock pending flag l =
      ({ l with flags := l.flags &&& ~~~pending ||| flag }, true) := by
  unfold flagLock
  split_ifs with hrw
  · exact .inr ⟨hrw, rfl⟩
  · exact .inl rfl

/-- **An attempt.** It takes the lock if nobody holds it in a mode that excludes this, and otherwise
only sets the flag of those who wait. -/
theorem Inv.attempt (h : Inv c) {k : Call} (ht : (c.pc t).mode = none) (hfree : Free k c.shared) :
    Inv (c.move t (attempt k c.shared).1 (attempt k c.shared).2) := by
  obtain ⟨n, hn, hfits⟩ := h.1
  have hwait : ∀ l, Fits l n → ∀ p : Pc, p.Sound → p.mode = none → Inv (c.move t l p) :=
    fun l hl p hp hmode => h.move hp (hn.stay (by rw [hmode, ht])) hl
  have htake : ∀ l m, Fits l (update n m (n m + 1)) → ∀ p : Pc, p.Sound →
      p.mode = some m → Inv (c.move t l p) :=
    fun l m hl p hp hmode => h.move hp (hn.take ht hmode) hl
  cases k with
  | readLock i =>
    rcases readLock_cases c.shared with heq | ⟨hrw, hflags, heq⟩ <;>
      simp only [Ttm.attempt, heq]
    · exact hwait _ hfits _ rfl rfl
    · exact htake _ .read (hfits.takeRead hrw hflags hfree) _ trivial rfl
  | readTrylock i =>
    rcases readTrylock_cases c.shared with ⟨_ | _, heq⟩ | ⟨hrw, hflags, heq⟩ <;>
      simp only [Ttm.attempt, heq]
    · exact hwait _ hfits _ rfl rfl
    · exact hwait _ hfits _ trivial rfl
    · exact htake _ .read (hfits.takeRead hrw hflags hfree) _ trivial rfl
  | writeLock i =>
    rcases writeLock_cases c.shared with heq | heq | ⟨hrw, hflags, heq⟩ <;>
      simp only [Ttm.attempt, heq]
    · exact hwait _ hfits _ rfl rfl
    · exact hwait _ (hfits.setPending isPending_write) _ rfl rfl
    · exact htake _ .write (hfits.takeWrite hrw hflags) _ trivial rfl
  | vtLock i =>
    rcases flagLock_cases vtLockPending vtLockFlag c.shared with heq | ⟨hrw, heq⟩ <;>
      simp only [Ttm.attempt, vtLock, heq]
    · exact hwait _ (hfits.setPending isPending_vt) _ rfl rfl
    · exact htake _ .vt (hfits.takeFlag .vt isPending_vt hrw hfree) _ trivial rfl
  | suspendLock =>
    rcases flagLock_cases suspendLockPending suspendLockFlag c.shared with heq | ⟨hrw, heq⟩ <;>
      simp only [Ttm.attempt, suspendLock, heq]
    · exact hwait _ (hfits.setPending isPending_suspend) _ rfl rfl
    · exact htake _ .suspend (hfits.takeFlag .suspend isPending_suspend hrw hfree) _ trivial rfl

lemma Inv.interrupted (h : Inv c) {k : Call} {locked : Bool} (ht : c.pc t = .wait k locked)
    {p : Pc} (hstep : interrupted k locked c.shared = some (l, p)) : Inv (c.move t l p) := by
  obtain ⟨n, hn, hfits⟩ := h.1
  have hidle : ∀ l, Fits l n → Inv (c.move t l .idle) :=
    fun l hl => h.move trivial (hn.stay (by rw [ht]; rfl)) hl
  obtain rfl : locked = false := by
    have hsound := h.2 t
    rwa [ht] at hsound
  unfold Ttm.interrupted at hstep
  split at hstep
  · cases hstep
    exact hidle _ hfits
  · cases hstep
    exact hidle _ hfits
  · cases hstep
    exact hidle _ (hfits.clearPending isPending_write)
  · cases hstep
    exact hidle _ (hfits.clearPending isPending_vt)
  · cases hstep

lemma Fits.flag_ne_zero {n : Mode → ℕ} (h : Fits l n) (hm : Flagged m f) (hpos : 0 < n m) :
    l.flags &&& f ≠ 0#32 := by
  intro hflag
  rw [h.eq_zero hm hflag] at hpos
  exact absurd hpos (Nat.lt_irrefl 0)

lemma Inv.step (h : Inv c) {x : Act} (hx : Exclusive c t x) {p : Pc}
    (hstep : next t x c.shared (c.pc t) = some (l, p)) :
    Inv (c.move t l p) := by
  obtain ⟨n, hn, hfits⟩ := h.1
  have hleave : ∀ m l, (c.pc t).mode = some m → Fits l (update n m (n m - 1)) →
      Inv (c.move t l .idle) :=
    fun m l ht hl => h.move trivial (hn.leave ht rfl) hl
  unfold next at hstep
  split at hstep
  case h_1 k ht =>
    have hattempt := h.attempt (k := k) (by rw [ht]; rfl) (hx k rfl)
    rwa [Option.some.inj hstep] at hattempt
  case h_2 k locked ht =>
    have hattempt := h.attempt (k := k) (by rw [ht]; rfl) (hx k (by rw [ht]; rfl))
    rwa [Option.some.inj hstep] at hattempt
  case h_3 k locked ht => exact h.interrupted ht hstep
  case h_4 ok ht =>
    split_ifs at hstep
    · cases hstep
      exact h.move trivial (hn.stay (by rw [ht]; rfl)) hfits
    · cases hstep
      exact hleave .vt _ (by rw [ht]; rfl) (hfits.leaveFlag .vt)
  case h_5 ht =>
    cases hstep
    have hmode : (c.pc t).mode = some .read := by rw [ht]; rfl
    exact hleave .read _ hmode (hfits.leaveRead ((hn .read).pos hmode))
  case h_6 ht =>
    cases hstep
    have hmode : (c.pc t).mode = some .write := by rw [ht]; rfl
    exact hleave .write _ hmode (hfits.leaveWrite ((hn .write).pos hmode))
  case h_7 ht =>
    have hmode : (c.pc t).mode = some .vt := by rw [ht]; rfl
    have hset := hfits.flag_ne_zero .vt ((hn .vt).pos hmode)
    simp only [vtUnlock, if_neg hset] at hstep
    cases hstep
    exact hleave .vt _ hmode (hfits.leaveFlag .vt)
  case h_8 ht =>
    cases hstep
    exact hleave .suspend _ (by rw [ht]; rfl) (hfits.leaveFlag .suspend)
  case h_9 val =>
    cases hstep
    exact h.move (h.2 t) (hn.stay rfl) (hfits.congr rfl fun _ _ _ => rfl)
  case h_10 => cases hstep

lemma inv_init : Inv initConfig := by
  refine ⟨⟨fun _ => 0, fun m => number_zero fun t => nofun, ?_⟩, fun _ => trivial⟩
  exact ⟨.inr ⟨rfl, rfl⟩, by decide, fun m f hm => by simp [initConfig, lockInit],
    fun _ _ _ => nofun⟩

/-- **Mutual exclusion.** In every state that a run under the condition reaches, there are no writer
and reader, no two writers and no two holders of the VT mode, and while a client holds the VT or the
suspend mode, there are no readers and no writers. The counter is `-1` or the number of readers,
and no `BUG_ON` has failed.

**Proof sketch.** The counter and the two flags determine how many clients hold the lock in each
mode (`Fits`), and the sections under the spinlock change both alike. -/
theorem ttm_lock_excludes {c : Threads.Config Lock Pc}
    (h : Threads.Runs next Exclusive initConfig c) :
    (∀ t u, c.pc t = .write → c.pc u ≠ .read) ∧
      (∀ t u, c.pc t = .write → c.pc u = .write → t = u) ∧
      (∀ t u, (c.pc t).mode = some .vt → (c.pc u).mode = some .vt → t = u) ∧
      (∀ t u, (c.pc t).mode = some .vt ∨ c.pc t = .suspend → c.pc u ≠ .read ∧ c.pc u ≠ .write) ∧
      (∃ readers : Finset ℕ, (∀ t, t ∈ readers ↔ c.pc t = .read) ∧
        (c.shared.rw = -1 ∨ c.shared.rw = readers.card)) ∧
      ∀ t, c.pc t ≠ .bug := by
  obtain ⟨⟨n, hn, hfits⟩, hsound⟩ : Inv c := by
    refine Threads.Runs.invariant (P := Inv) inv_init ?_ h
    intro c t x l p hc hx hstep
    exact hc.step hx hstep
  have hcounter := hfits.counter
  have hmode : ∀ {t p m}, c.pc t = p → p.mode = some m → (c.pc t).mode = some m :=
    fun ht hm => ht ▸ hm
  have hle : ∀ m f, Flagged m f → n m ≤ 1 := by
    intro m f hm
    rw [hfits.flag m f hm]
    split_ifs <;> omega
  -- While a mode with a flag is held, the counter is zero.
  have halone : ∀ m f, Flagged m f → ∀ t, (c.pc t).mode = some m → n .read = 0 ∧ n .write = 0 := by
    intro m f hm t ht
    have hrw := hfits.alone m f hm ((hn m).pos ht)
    omega
  refine ⟨fun t u ht hu => ?_, fun t u ht hu => ?_, fun t u ht hu => ?_, fun t u ht => ?_, ?_,
    fun t ht => ?_⟩
  · have hwrite := (hn .write).pos (hmode ht rfl)
    have hread := (hn .read).pos (hmode hu rfl)
    omega
  · exact (hn .write).unique (by omega) (hmode ht rfl) (hmode hu rfl)
  · exact (hn .vt).unique (hle _ _ .vt) ht hu
  · obtain ⟨hread, hwrite⟩ : n .read = 0 ∧ n .write = 0 := by
      rcases ht with ht | ht
      · exact halone _ _ .vt t ht
      · exact halone _ _ .suspend t (hmode ht rfl)
    refine ⟨fun hu => ?_, fun hu => ?_⟩
    · have hpos := (hn .read).pos (hmode hu rfl)
      omega
    · have hpos := (hn .write).pos (hmode hu rfl)
      omega
  · obtain ⟨readers, hcard, hmem⟩ := hn .read
    refine ⟨readers, fun t => ?_, by omega⟩
    rw [hmem]
    cases c.pc t <;> simp [Pc.mode]
  · have hbug := hsound t
    rw [ht] at hbug
    exact hbug

/-- Two readers; a writer waits and is interrupted; the VT mode is taken after the readers have
left, the file of its holder is closed, and a writer comes. -/
def readersThenVt : List (ℕ × Act) :=
  [(0, .call (.readLock true)), (1, .call (.readTrylock false)), (2, .call (.writeLock true)),
    (3, .call (.vtLock false)), (2, .interrupt), (0, .unlock), (1, .unlock), (3, .retry),
    (3, .baseObjectInit true), (3, .unlock), (4, .call (.writeLock false))]

/-- At the end the writer is alone. -/
theorem ttm_lock_excludes_readersThenVt : ∃ c,
    execIf next Exclusive initConfig readersThenVt = some c ∧ c.pc 4 = .write ∧
      c.shared.rw = -1 ∧ c.pc 0 ≠ .read := by
  obtain ⟨c, hc, hobs⟩ := Option.map_eq_some_iff.1
    (show (execIf next Exclusive initConfig readersThenVt).map
      (fun c => (c.pc 4, c.shared.rw)) = some (.write, -1) by decide +kernel)
  obtain ⟨hpc, hrw⟩ := Prod.mk.inj hobs
  exact ⟨c, hc, hpc, hrw,
    (ttm_lock_excludes (execIf_runs .start hc)).1 4 0 hpc⟩

/-- **Two holders.** A second client takes the VT mode while the first one holds it. The suspend
mode is taken twice too, and when one of the two holders has left, a reader comes in beside the
other. -/
theorem two_holders :
    (∃ c, exec next initConfig [(0, .call (.vtLock false)), (0, .baseObjectInit true),
        (1, .call (.vtLock false)), (1, .baseObjectInit true)] = some c ∧
      c.pc 0 = .vt ∧ c.pc 1 = .vt) ∧
    ∃ c, exec next initConfig [(0, .call .suspendLock), (1, .call .suspendLock),
        (0, .unlock), (2, .call (.readLock true))] = some c ∧
      c.pc 1 = .suspend ∧ c.pc 2 = .read := by
  refine ⟨⟨_, rfl, ?_, ?_⟩, ⟨_, rfl, ?_, ?_⟩⟩ <;> decide +kernel

end KmsDrm.Ttm
