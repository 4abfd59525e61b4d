import KmsDrm.DmaFence.Basic

/-!
# Callbacks of a fence are called exactly once

Over every interleaving of signaling, adding and removing callbacks and waiting: a callback that
was added is called once or removed, once the fence is signaled and all calls have returned; and
a callback whose addition failed is never called.

## Main results

* `DmaFence.reachable_signalInv`, `DmaFence.reachable_historyInv`.
* `DmaFence.callback_once` — the property of a whole run.
-/

namespace KmsDrm.DmaFence

open KmsDrm.Lib List

variable {p pc : Pc} {s s' : State} {c : Threads.Config State Pc} {t u : ℕ} {calls : ℕ → Call}

/-! ## What a step can do -/

/-- The thread holds the lock at this program point. -/
def Pc.holds : Pc → Bool
  | .lockedTas _ | .lockedStamp _ | .drain _ | .unlock _ | .addEnable | .addCheck _ | .addInsert
  | .removeDel _ | .enableCall | .waitEnter | .waitEnable | .waitCheck _ | .waitInsert
  | .waitLoop _ | .waitWoken _ | .waitExit _ => true
  | _ => false

/-- The thread has signaled the fence and is going to empty the list, unless it finds the bit
`ENABLE_SIGNAL` not set. -/
def Pc.drains : Pc → Bool
  | .stamp | .testEnable | .lockDrain | .lockedStamp _ | .drain _ | .invoke _ _ | .relock _ => true
  | _ => false

/-- The thread has found the fence not signaled and is about to put its callback in the list. -/
def Pc.inserts : Pc → Bool
  | .addInsert | .waitInsert => true
  | _ => false

/-- The thread has set the bit `ENABLE_SIGNAL` in the section it is in. -/
def Pc.afterEnable : Pc → Bool
  | .addCheck _ | .addInsert | .waitCheck _ | .waitInsert => true
  | _ => false

/-- The thread will not put its callback in the list any more. -/
def Pc.past : Pc → Bool
  | .unlock _ | .waitLoop _ | .waitSleep | .waitRelock _ | .waitWoken _ | .waitExit _ | .done =>
    true
  | _ => false

/-- What a thread is going to return or has returned. -/
def outcome (pc : Pc) (returned : Option Ret) : Option Ret :=
  match pc with
  | .unlock r => some r
  | _ => returned

/-- The program points of a call. -/
def Call.admits : Call → Pc → Bool
  | _, .start | _, .done => true
  | .signal, .stamp | .signal, .testEnable | .signal, .lockDrain => true
  | .addCallback, .addLock | .addCallback, .addEnable | .addCallback, .addCheck _
  | .addCallback, .addInsert => true
  | .removeCallback cb, .removeDel cb' => cb == cb'
  | .removeCallback _, .unlock (.found _) => true
  | .enableSwSignaling, .enableTest | .enableSwSignaling, .enableLock
  | .enableSwSignaling, .enableCall => true
  | .defaultWait _ _, .waitLock | .defaultWait _ _, .waitEnter | .defaultWait _ _, .waitEnable
  | .defaultWait _ _, .waitCheck _ | .defaultWait _ _, .waitInsert | .defaultWait _ _, .waitLoop _
  | .defaultWait _ _, .waitSleep | .defaultWait _ _, .waitRelock _ | .defaultWait _ _, .waitWoken _
  | .defaultWait _ _, .waitExit _ => true
  | .addCallback, .unlock r => r == .zero || r == .enoent
  | .addCallback, .lockedTas r => r == some .enoent
  | .addCallback, .lockedStamp r | .addCallback, .drain r | .addCallback, .invoke _ r
  | .addCallback, .relock r => r == .enoent
  | .removeCallback _, _ => false
  | _, .lockedTas _ | _, .lockedStamp _ | _, .drain _ | _, .invoke _ _ | _, .relock _
  | _, .unlock _ => true
  | _, _ => false

/-- The steps of thread `t`, one rule for each way `next` can go. -/
inductive Step (calls : ℕ → Call) (t : ℕ) (s : State) : Pc → State → Pc → Prop
  -- the first steps of the calls
  | signalSet (hc : calls t = .signal) (h : s.signaled = false) :
      Step calls t s .start s.setSignaled .stamp
  | signalTwice (hc : calls t = .signal) (h : s.signaled = true) :
      Step calls t s .start (s.finish t .einval) .done
  | signalLocked (hc : calls t = .signalLocked) (hl : s.lock = none) :
      Step calls t s .start (s.take t) (.lockedTas none)
  | addEarly (hc : calls t = .addCallback) (h : s.signaled = true) :
      Step calls t s .start (s.finish t .enoent) .done
  | add (hc : calls t = .addCallback) (h : s.signaled = false) : Step calls t s .start s .addLock
  | removeLock (cb : ℕ) (hc : calls t = .removeCallback cb) (hcb : calls cb = .addCallback)
      (hret : s.returned cb ≠ none) (hl : s.lock = none) :
      Step calls t s .start (s.take t) (.removeDel cb)
  | enableTwice (hc : calls t = .enableSwSignaling) (h : s.enableSignal = true) :
      Step calls t s .start (s.finish t .void) .done
  | enableSet (hc : calls t = .enableSwSignaling) (h : s.enableSignal = false) :
      Step calls t s .start s.setEnable .enableTest
  | waitEarly (intr : Bool) (timeout : ℤ) (hc : calls t = .defaultWait intr timeout)
      (h : s.signaled = true) : Step calls t s .start (s.finish t (.time timeout)) .done
  | wait (intr : Bool) (timeout : ℤ) (hc : calls t = .defaultWait intr timeout)
      (h : s.signaled = false) : Step calls t s .start s .waitLock
  -- signaling
  | stamp : Step calls t s .stamp s.setTimestamp .testEnable
  | testSet (h : s.enableSignal = true) : Step calls t s .testEnable s .lockDrain
  | testUnset (h : s.enableSignal = false) :
      Step calls t s .testEnable (s.finish t .zero) .done
  | lockDrain (hl : s.lock = none) : Step calls t s .lockDrain (s.take t) (.drain .zero)
  | lockedTwice (r : Option Ret) (h : s.signaled = true) :
      Step calls t s (.lockedTas r) s (.drain (r.getD .einval))
  | lockedSet (r : Option Ret) (h : s.signaled = false) :
      Step calls t s (.lockedTas r) s.setSignaled (.lockedStamp (r.getD .zero))
  | lockedStamp (r : Ret) : Step calls t s (.lockedStamp r) s.setTimestamp (.drain r)
  | drained (r : Ret) (h : s.cbList = []) : Step calls t s (.drain r) s (.unlock r)
  | pop (r : Ret) (cb : ℕ) (rest : List ℕ) (h : s.cbList = cb :: rest) :
      Step calls t s (.drain r) (s.pop t cb rest) (.invoke cb r)
  | invoke (cb : ℕ) (r : Ret) : Step calls t s (.invoke cb r) (s.invoke t cb) (.relock r)
  | relock (r : Ret) (hl : s.lock = none) : Step calls t s (.relock r) (s.take t) (.drain r)
  | unlock (r : Ret) : Step calls t s (.unlock r) (s.release.finish t r) .done
  -- adding
  | addLock (hl : s.lock = none) : Step calls t s .addLock (s.take t) .addEnable
  | addEnable : Step calls t s .addEnable s.setEnable (.addCheck s.enableSignal)
  | addLate (w : Bool) (h : s.signaled = true) :
      Step calls t s (.addCheck w) s (.unlock .enoent)
  | addRefused (w : Bool) (h : s.signaled = false) :
      Step calls t s (.addCheck w) s (.lockedTas (some .enoent))
  | addChecked (w : Bool) (h : s.signaled = false) : Step calls t s (.addCheck w) s .addInsert
  | addInsert : Step calls t s .addInsert (s.addTail t) (.unlock .zero)
  -- removing
  | removed (cb : ℕ) (h : cb ∈ s.cbList) :
      Step calls t s (.removeDel cb) (s.delete cb) (.unlock (.found true))
  | notFound (cb : ℕ) (h : cb ∉ s.cbList) :
      Step calls t s (.removeDel cb) s (.unlock (.found false))
  -- enabling
  | enableLate (h : s.signaled = true) : Step calls t s .enableTest (s.finish t .void) .done
  | enableTested (h : s.signaled = false) : Step calls t s .enableTest s .enableLock
  | enableLock (hl : s.lock = none) : Step calls t s .enableLock (s.take t) .enableCall
  | enabled : Step calls t s .enableCall s (.unlock .void)
  | enableRefused : Step calls t s .enableCall s (.lockedTas (some .void))
  -- waiting
  | waitLock (hl : s.lock = none) : Step calls t s .waitLock (s.take t) .waitEnter
  | waitPending : Step calls t s .waitEnter s (.unlock .restart)
  | waitEnter : Step calls t s .waitEnter s .waitEnable
  | waitEnable : Step calls t s .waitEnable s.setEnable (.waitCheck s.enableSignal)
  | waitLate (w : Bool) (r : ℤ) (h : s.signaled = true) :
      Step calls t s (.waitCheck w) s (.unlock (.time r))
  | waitRefused (w : Bool) (r : ℤ) (h : s.signaled = false) :
      Step calls t s (.waitCheck w) s (.lockedTas (some (.time r)))
  | waitChecked (w : Bool) (h : s.signaled = false) : Step calls t s (.waitCheck w) s .waitInsert
  | waitInsert (r : ℤ) : Step calls t s .waitInsert (s.addHead t) (.waitLoop (.time r))
  | waitSleep (r : Ret) : Step calls t s (.waitLoop r) s.release .waitSleep
  | waitLeave (r : Ret) (h : s.signaled = false → r.left ≤ 0) :
      Step calls t s (.waitLoop r) s (.waitExit r)
  | waitWake (ret : ℤ) : Step calls t s .waitSleep s (.waitRelock ret)
  | waitRelock (ret : ℤ) (hl : s.lock = none) :
      Step calls t s (.waitRelock ret) (s.take t) (.waitWoken ret)
  | waitInterrupted (ret : ℤ) : Step calls t s (.waitWoken ret) s (.waitLoop .restart)
  | waitWoken (ret : ℤ) : Step calls t s (.waitWoken ret) s (.waitLoop (.time ret))
  | waitRemoved (r : Ret) (h : t ∈ s.cbList) :
      Step calls t s (.waitExit r) (s.delete t) (.unlock r)
  | waitCalled (r : Ret) (h : t ∉ s.cbList) : Step calls t s (.waitExit r) s (.unlock r)

lemma next_step {x : Choice} (h : next calls t x s pc = some (s', p)) :
    Step calls t s pc s' p := by
  cases pc
  all_goals simp only [next, begin, acquire, leave] at h
  all_goals repeat' split at h
  all_goals
    try simp only [Option.some.injEq, Prod.mk.injEq, reduceCtorEq] at h
  all_goals
    obtain ⟨rfl, rfl⟩ := h
    constructor
  all_goals try assumption
  all_goals simp_all

/-! ## The two bits -/

section

variable (h : Step calls t s pc s' p)

include h

lemma Step.lock :
    (s'.lock = s.lock ∧ p.holds = pc.holds) ∨
      (s.lock = none ∧ s'.lock = some t ∧ p.holds = true) ∨
      (pc.holds = true ∧ s'.lock = none ∧ p.holds = false) := by
  cases h <;> simp [Pc.holds, *]

lemma Step.signaled (hs : s'.signaled = true) : s.signaled = true ∨ p.drains = true := by
  cases h <;> simp_all [Pc.drains]

lemma Step.drains (hd : pc.drains = true) :
    p.drains = true ∨ s.enableSignal = false ∧ s'.cbList = s.cbList ∨
      s'.cbList = [] ∧ pc.holds = true := by
  cases h <;> simp_all [Pc.drains, Pc.holds]

lemma Step.inserts (hp : p.inserts = true) : s'.signaled = false := by
  cases h <;> simp_all [Pc.inserts]

lemma Step.cbList_ne (hne : s'.cbList ≠ []) : s.cbList ≠ [] ∨ pc.inserts = true := by
  cases h <;> simp_all [Pc.inserts]

lemma Step.enable_mono (he : s.enableSignal = true) : s'.enableSignal = true := by
  cases h <;> simp_all

lemma Step.enable (hp : p.afterEnable = true) :
    s'.enableSignal = true ∨ pc.afterEnable = true := by
  cases h <;> simp_all [Pc.afterEnable]

end

/-- The invariant of the bits and the lock. -/
structure SignalInv (c : Threads.Config State Pc) : Prop where
  /-- The threads that hold the lock are the owner of the lock. -/
  lock : ∀ t, (c.pc t).holds = true ↔ c.shared.lock = some t
  /-- Whoever has added a callback, or is about to, has set the bit `ENABLE_SIGNAL`. -/
  enable : (c.shared.cbList ≠ [] ∨ ∃ t, (c.pc t).afterEnable = true) →
    c.shared.enableSignal = true
  /-- A signaled fence has a thread that is going to empty the list, or the list is empty and
  nothing is about to be added. -/
  drained : c.shared.signaled = true → (∃ t, (c.pc t).drains = true) ∨
    c.shared.cbList = [] ∧ ∀ t, (c.pc t).inserts = false

lemma initial_signalInv : SignalInv initial where
  lock := by simp [initial, Pc.holds]
  enable := by simp [initial, Pc.afterEnable]
  drained := by simp [initial]

lemma Pc.afterEnable_of_inserts (h : pc.inserts = true) :
    pc.afterEnable = true ∧ pc.holds = true := by
  cases pc <;> simp_all [Pc.inserts, Pc.afterEnable, Pc.holds]

section

variable (hi : SignalInv c) (h : Step calls t c.shared (c.pc t) s p)

include hi h

lemma SignalInv.step_lock (u : ℕ) :
    ((c.move t s p).pc u).holds = true ↔ s.lock = some u := by
  have hold := hi.lock
  by_cases hu : u = t
  · subst hu
    rw [c.move_pc_self]
    rcases h.lock with ⟨hl, hh⟩ | ⟨-, hl, hh⟩ | ⟨-, hl, hh⟩
    · rw [hl, hh, hold u]
    · simp [hl, hh]
    · simp [hl, hh]
  · rw [c.move_pc_of_ne s p hu, hold u]
    rcases h.lock with ⟨hl, -⟩ | ⟨hfree, hl, -⟩ | ⟨hown, hl, -⟩
    · rw [hl]
    · simp [hfree, hl, Ne.symm hu]
    · rw [(hold t).1 hown, hl]
      simp [Ne.symm hu]

lemma SignalInv.step_enable
    (hadd : s.cbList ≠ [] ∨ ∃ u, ((c.move t s p).pc u).afterEnable = true) :
    s.enableSignal = true := by
  rcases hadd with hne | ⟨u, hu⟩
  · rcases h.cbList_ne hne with hne | hins
    · exact h.enable_mono (hi.enable (.inl hne))
    · exact h.enable_mono (hi.enable (.inr ⟨t, (Pc.afterEnable_of_inserts hins).1⟩))
  · by_cases hut : u = t
    · subst hut
      rw [c.move_pc_self] at hu
      rcases h.enable hu with he | he
      · exact he
      · exact h.enable_mono (hi.enable (.inr ⟨u, he⟩))
    · rw [c.move_pc_of_ne s p hut] at hu
      exact h.enable_mono (hi.enable (.inr ⟨u, hu⟩))

/-- A signaled fence stays drained or keeps a thread that empties the list.

**Proof sketch.** If the bit was set in this step, the thread itself is going to empty the list.
Otherwise look at who was going to before. If it is another thread, or still this one, nothing
changes. If this thread stops, it found the list empty with the lock held, and then nobody else
is about to add; or it found `ENABLE_SIGNAL` not set, and then nothing was ever added and nobody
is about to. If nobody was going to, then the list was empty, nobody was about to add, and to be
about to add now a thread would have had to find the fence not signaled. -/
lemma SignalInv.step_drained
    (hsig : s.signaled = true) : (∃ u, ((c.move t s p).pc u).drains = true) ∨
      s.cbList = [] ∧ ∀ u, ((c.move t s p).pc u).inserts = false := by
  have hself : p.inserts = false := by
    cases hp : p.inserts with
    | false => rfl
    | true =>
      rw [h.inserts hp] at hsig
      simp at hsig
  by_cases hpd : p.drains = true
  · exact .inl ⟨t, by rwa [c.move_pc_self]⟩
  -- it is enough that the list is empty and that no other thread is about to add
  have hquiet : s.cbList = [] → (∀ u, u ≠ t → (c.pc u).inserts = false) →
      s.cbList = [] ∧ ∀ u, ((c.move t s p).pc u).inserts = false := by
    intro hnil hothers
    refine ⟨hnil, fun u => ?_⟩
    by_cases hut : u = t
    · subst hut
      rwa [c.move_pc_self]
    · rw [c.move_pc_of_ne s p hut]
      exact hothers u hut
  rcases h.signaled hsig with hold | hnew
  · rcases hi.drained hold with ⟨u, hu⟩ | ⟨hnil, hnone⟩
    · by_cases hut : u = t
      · subst hut
        right
        rcases h.drains hu with hp | ⟨hunset, hlist⟩ | ⟨hnil, hlock⟩
        · exact absurd hp hpd
        · have hno : ¬(c.shared.cbList ≠ [] ∨ ∃ v, (c.pc v).afterEnable = true) := by
            intro hadd
            rw [hi.enable hadd] at hunset
            simp at hunset
          push Not at hno
          refine hquiet (hlist.trans hno.1) fun v _ => ?_
          cases hv : (c.pc v).inserts with
          | false => rfl
          | true => exact absurd (Pc.afterEnable_of_inserts hv).1 (hno.2 v)
        · refine hquiet hnil fun v hv => ?_
          cases hins : (c.pc v).inserts with
          | false => rfl
          | true =>
            have h1 := (hi.lock v).1 (Pc.afterEnable_of_inserts hins).2
            have h2 := (hi.lock u).1 hlock
            rw [h1] at h2
            exact absurd (Option.some.inj h2) hv
      · exact .inl ⟨u, by rwa [c.move_pc_of_ne s p hut]⟩
    · right
      refine hquiet ?_ fun u _ => hnone u
      by_contra hne
      rcases h.cbList_ne hne with h0 | hins
      · exact h0 hnil
      · rw [hnone t] at hins
        simp at hins
  · exact absurd hnew hpd

lemma SignalInv.step :
    SignalInv (c.move t s p) :=
  ⟨hi.step_lock h, hi.step_enable h, hi.step_drained h⟩

end

lemma reachable_signalInv (h : Threads.Reachable (next calls) initial c) : SignalInv c :=
  Threads.Runs.invariant initial_signalInv (fun _ _ _ _ _ hi _ hn => hi.step (next_step hn)) h

/-! ## The places of a callback -/

/-- What a step of thread `t` does to the callbacks. -/
inductive Effect (t : ℕ) (s : State) (pc : Pc) (s' : State) (p : Pc) : Prop
  /-- Nothing. -/
  | quiet (hlist : s'.cbList = s.cbList) (hadded : s'.added = s.added)
      (hflying : s'.flying = s.flying) (hinvoked : s'.invoked = s.invoked)
      (hremoved : s'.removed = s.removed) (hpc : ∀ cb r, pc ≠ .invoke cb r)
      (hp : ∀ cb r, p ≠ .invoke cb r) (hadd : pc ≠ .addInsert)
      (hdel : ∀ cb, pc = .removeDel cb → cb ∉ s.cbList)
  /-- A callback is unlinked in order to be called. -/
  | pop (cb : ℕ) (rest : List ℕ) (r : Ret) (hpc : pc = .drain r) (hlist : s.cbList = cb :: rest)
      (hs : s' = s.pop t cb rest) (hp : p = .invoke cb r)
  /-- A callback is called. -/
  | invoke (cb : ℕ) (r : Ret) (hpc : pc = .invoke cb r) (hs : s' = s.invoke t cb)
      (hp : p = .relock r)
  /-- The thread adds its callback. -/
  | addTail (hpc : pc = .addInsert) (hs : s' = s.addTail t) (hp : p = .unlock .zero)
  | addHead (r : Ret) (hpc : pc = .waitInsert) (hs : s' = s.addHead t) (hp : p = .waitLoop r)
  /-- A callback is removed. -/
  | remove (cb : ℕ) (hpc : pc = .removeDel cb) (hmem : cb ∈ s.cbList) (hs : s' = s.delete cb)
      (hp : p = .unlock (.found true))
  | removeOwn (r : Ret) (hpc : pc = .waitExit r) (hmem : t ∈ s.cbList) (hs : s' = s.delete t)
      (hp : p = .unlock r)

section

variable (h : Step calls t s pc s' p)

include h

lemma Step.effect : Effect t s pc s' p := by
  cases h
  case pop r cb rest hl => exact .pop cb rest r rfl hl rfl rfl
  case invoke cb r => exact .invoke cb r rfl rfl rfl
  case addInsert => exact .addTail rfl rfl rfl
  case waitInsert r => exact .addHead _ rfl rfl rfl
  case removed cb hm => exact .remove cb rfl hm rfl rfl
  case waitRemoved r hm => exact .removeOwn r rfl hm rfl rfl
  all_goals
    apply Effect.quiet <;> simp [*]

lemma Step.past (hp : pc.past = true) : p.past = true := by
  cases h <;> simp_all [Pc.past]

lemma Step.returned_of_ne (hu : u ≠ t) : s'.returned u = s.returned u := by
  cases h <;> simp [hu]

lemma Step.returned_self :
    pc ≠ .done ∧ (p ≠ .done ∧ s'.returned t = s.returned t ∨ p = .done ∧ s'.returned t ≠ none) := by
  cases h <;> simp

lemma Step.admits (ha : (calls t).admits pc = true) : (calls t).admits p = true := by
  cases h <;> cases hc : calls t <;> simp_all [Call.admits]

lemma Step.outcome_add (hc : calls t = .addCallback)
    (ha : (calls t).admits pc = true) (hr : s.returned t = none) :
    outcome p (s'.returned t) = some .zero ↔
      outcome pc (s.returned t) = some .zero ∨ pc = .addInsert := by
  cases h <;> simp_all [Call.admits, outcome]

lemma Step.outcome_remove {cb : ℕ}
    (hc : calls t = .removeCallback cb) (ha : (calls t).admits pc = true)
    (hr : s.returned t = none) :
    outcome p (s'.returned t) = some (.found true) ↔
      outcome pc (s.returned t) = some (.found true) ∨ pc = .removeDel cb ∧ cb ∈ s.cbList := by
  cases h <;> simp_all [Call.admits, outcome]

end

/-- The callbacks that are at one of the four places of a callback. -/
def State.places (s : State) (cb : ℕ) : ℕ :=
  s.cbList.count cb + (s.flying.map Prod.snd).count cb + s.invoked.count cb + s.removed.count cb

structure HistoryInv (calls : ℕ → Call) (c : Threads.Config State Pc) : Prop where
  /-- A callback that was put in the list is at exactly one place, another one is nowhere. -/
  places : ∀ cb, c.shared.added.count cb = c.shared.places cb
  nodup : c.shared.added.Nodup
  flying : ∀ t cb, (t, cb) ∈ c.shared.flying ↔ ∃ r, c.pc t = .invoke cb r
  past : ∀ t ∈ c.shared.added, (c.pc t).past = true
  returned : ∀ t, c.shared.returned t ≠ none ↔ c.pc t = .done
  admits : ∀ t, (calls t).admits (c.pc t) = true
  add : ∀ t, calls t = .addCallback →
    (t ∈ c.shared.added ↔ outcome (c.pc t) (c.shared.returned t) = some .zero)
  remove : ∀ cb, calls cb = .addCallback →
    (cb ∈ c.shared.removed ↔ ∃ u, calls u = .removeCallback cb ∧
      outcome (c.pc u) (c.shared.returned u) = some (.found true))

lemma initial_historyInv (calls : ℕ → Call) : HistoryInv calls initial where
  places := by simp [initial, State.places]
  nodup := by simp [initial]
  flying := by simp [initial]
  past := by simp [initial]
  returned := by simp [initial]
  admits := by
    intro t
    cases h : calls t <;> simp [initial, Call.admits]
  add := by simp [initial, outcome]
  remove := by simp [initial, outcome]

lemma HistoryInv.returned_none (hi : HistoryInv calls c)
    (h : Step calls t c.shared (c.pc t) s p) : c.shared.returned t = none := by
  by_contra hne
  exact h.returned_self.1 ((hi.returned t).1 hne)

lemma HistoryInv.fresh (hi : HistoryInv calls c) (hpc : (c.pc t).inserts = true) :
    t ∉ c.shared.added := by
  intro hmem
  have hpast := hi.past t hmem
  cases hp : c.pc t <;> simp_all [Pc.past, Pc.inserts]

lemma HistoryInv.step_places (hi : HistoryInv calls c)
    (h : Step calls t c.shared (c.pc t) s p) (cb : ℕ) : s.added.count cb = s.places cb := by
  have hold := hi.places cb
  rw [State.places] at hold ⊢
  cases h.effect with
  | quiet hlist hadded hflying hinvoked hremoved =>
    rw [hlist, hadded, hflying, hinvoked, hremoved, hold]
  | pop a rest r hpc hlist hs =>
    subst hs
    simp only [State.pop_added, State.pop_cbList, State.pop_flying, State.pop_invoked,
      State.pop_removed, map_cons, count_cons]
    rw [hlist, count_cons] at hold
    omega
  | invoke a r hpc hs =>
    subst hs
    have hmem : (t, a) ∈ c.shared.flying := (hi.flying t a).2 ⟨r, hpc⟩
    have hperm := ((perm_cons_erase hmem).map Prod.snd).count_eq cb
    simp only [map_cons, count_cons] at hperm
    simp only [State.invoke_added, State.invoke_cbList, State.invoke_flying,
      State.invoke_invoked, State.invoke_removed, count_cons]
    omega
  | addTail hpc hs =>
    subst hs
    simp only [State.addTail_added, State.addTail_cbList, State.addTail_flying,
      State.addTail_invoked, State.addTail_removed, count_append, count_cons,
      count_nil]
    omega
  | addHead r hpc hs =>
    subst hs
    simp only [State.addHead_added, State.addHead_cbList, State.addHead_flying,
      State.addHead_invoked, State.addHead_removed, count_cons]
    omega
  | remove a hpc hmem hs | removeOwn r hpc hmem hs =>
    subst hs
    have hperm := (perm_cons_erase hmem).count_eq cb
    rw [count_cons] at hperm
    simp only [State.delete_added, State.delete_cbList, State.delete_flying,
      State.delete_invoked, State.delete_removed, count_cons]
    omega

lemma Effect.added (h : Effect t s pc s' p) :
    s'.added = s.added ∧ pc ≠ .addInsert ∨
      pc.inserts = true ∧ s'.added = t :: s.added ∧ p.past = true := by
  cases h <;> simp_all [Pc.inserts, Pc.past]

lemma Effect.removed (h : Effect t s pc s' p) :
    s'.removed = s.removed ∧ (∀ cb, pc = .removeDel cb → cb ∉ s.cbList) ∨
      ∃ cb, s'.removed = cb :: s.removed ∧ cb ∈ s.cbList ∧
        (pc = .removeDel cb ∨ cb = t ∧ ∃ r, pc = .waitExit r) := by
  cases h <;> simp_all

section

variable (hi : HistoryInv calls c) (h : Step calls t c.shared (c.pc t) s p)

include hi h

lemma HistoryInv.step_flying (u cb : ℕ) :
    (u, cb) ∈ s.flying ↔ ∃ r, (c.move t s p).pc u = .invoke cb r := by
  have hold := hi.flying u cb
  by_cases hut : u = t
  · subst hut
    rw [c.move_pc_self]
    cases h.effect with
    | quiet _ _ hflying _ _ hpc hp =>
      rw [hflying, hold]
      simp [hpc, hp]
    | pop a rest r hpc _ hs hp =>
      simp_all [eq_comm]
    | invoke a r hpc hs hp =>
      subst hs hp
      -- it was about to call this one only, and once
      have hcount : c.shared.flying.count (u, a) ≤ 1 := by
        have h1 := hi.places a
        have h2 : c.shared.added.count a ≤ 1 := nodup_iff_count_le_one.1 hi.nodup a
        have h3 : c.shared.flying.count (u, a) ≤ (c.shared.flying.map Prod.snd).count a :=
          count_le_count_map (f := Prod.snd) (x := (u, a))
        rw [State.places] at h1
        omega
      simp only [State.invoke_flying, reduceCtorEq, exists_false, iff_false]
      intro hmem
      have hin := mem_of_mem_erase hmem
      obtain ⟨r', hr'⟩ := hold.1 hin
      rw [hpc] at hr'
      obtain ⟨rfl, -⟩ := Pc.invoke.inj hr'
      have := count_pos_iff.2 hmem
      rw [count_erase_self] at this
      omega
    | addTail hpc hs hp | addHead r hpc hs hp | remove a hpc _ hs hp | removeOwn r hpc _ hs hp =>
      subst hs hp
      rw [hpc] at hold
      simpa using hold
  · rw [c.move_pc_of_ne s p hut, ← hold]
    cases h.effect with
    | quiet _ _ hflying => rw [hflying]
    | pop a rest r _ _ hs => simp [hs, hut]
    | invoke a r _ hs =>
      subst hs
      simp [hut]
    | addTail _ hs => simp [hs]
    | addHead _ _ hs => simp [hs]
    | remove _ _ _ hs => simp [hs]
    | removeOwn _ _ _ hs => simp [hs]

lemma HistoryInv.step_past (hu : u ∈ s.added) : ((c.move t s p).pc u).past = true := by
  by_cases hut : u = t
  · subst hut
    rw [c.move_pc_self]
    rcases h.effect.added with ⟨ha, -⟩ | ⟨-, -, hp⟩
    · exact h.past (hi.past u (ha ▸ hu))
    · exact hp
  · rw [c.move_pc_of_ne s p hut]
    rcases h.effect.added with ⟨ha, -⟩ | ⟨-, ha, -⟩
    · exact hi.past u (ha ▸ hu)
    · rw [ha, mem_cons] at hu
      exact hi.past u (hu.resolve_left hut)

lemma HistoryInv.step_nodup : s.added.Nodup := by
  rcases h.effect.added with ⟨ha, -⟩ | ⟨hins, ha, -⟩
  · rw [ha]
    exact hi.nodup
  · rw [ha]
    exact nodup_cons.2 ⟨hi.fresh hins, hi.nodup⟩

lemma HistoryInv.step_returned (u : ℕ) : s.returned u ≠ none ↔ (c.move t s p).pc u = .done := by
  by_cases hut : u = t
  · subst hut
    rcases h.returned_self.2 with ⟨hp, hr⟩ | ⟨hp, hr⟩
    · simp [hp, hr, hi.returned_none h]
    · simp [hp, hr]
  · rw [c.move_pc_of_ne s p hut, h.returned_of_ne hut]
    exact hi.returned u

lemma HistoryInv.step_add (hu : calls u = .addCallback) :
    u ∈ s.added ↔ outcome ((c.move t s p).pc u) (s.returned u) = some .zero := by
  by_cases hut : u = t
  · subst hut
    rw [c.move_pc_self, h.outcome_add hu (hi.admits u) (hi.returned_none h), ← hi.add u hu]
    rcases h.effect.added with ⟨ha, hne⟩ | ⟨hins, ha, -⟩
    · rw [ha]
      simp [hne]
    · -- an addition inserts at `addInsert` only
      have hpc : c.pc u = .addInsert := by
        have hadm := hi.admits u
        cases hp : c.pc u <;> simp_all [Pc.inserts, Call.admits]
      rw [ha]
      simp [hpc]
  · rw [c.move_pc_of_ne s p hut, h.returned_of_ne hut, ← hi.add u hu]
    rcases h.effect.added with ⟨ha, -⟩ | ⟨-, ha, -⟩
    · rw [ha]
    · rw [ha, mem_cons]
      simp [hut]

lemma HistoryInv.step_remove {cb : ℕ} (hcb : calls cb = .addCallback) :
    cb ∈ s.removed ↔ ∃ u, calls u = .removeCallback cb ∧
      outcome ((c.move t s p).pc u) (s.returned u) = some (.found true) := by
  -- only this thread's value can change, and only where it finds the callback
  have hout : (∃ u, calls u = .removeCallback cb ∧
      outcome ((c.move t s p).pc u) (s.returned u) = some (.found true)) ↔
      cb ∈ c.shared.removed ∨
        calls t = .removeCallback cb ∧ c.pc t = .removeDel cb ∧ cb ∈ c.shared.cbList := by
    rw [hi.remove cb hcb]
    constructor
    · rintro ⟨u, hu, ho⟩
      by_cases hut : u = t
      · subst hut
        rw [c.move_pc_self, h.outcome_remove hu (hi.admits u) (hi.returned_none h)] at ho
        rcases ho with ho | ⟨hpc, hmem⟩
        · exact .inl ⟨u, hu, ho⟩
        · exact .inr ⟨hu, hpc, hmem⟩
      · rw [c.move_pc_of_ne s p hut, h.returned_of_ne hut] at ho
        exact .inl ⟨u, hu, ho⟩
    · rintro (⟨u, hu, ho⟩ | ⟨ht, hpc, hmem⟩)
      · refine ⟨u, hu, ?_⟩
        by_cases hut : u = t
        · subst hut
          rw [c.move_pc_self, h.outcome_remove hu (hi.admits u) (hi.returned_none h)]
          exact .inl ho
        · rwa [c.move_pc_of_ne s p hut, h.returned_of_ne hut]
      · refine ⟨t, ht, ?_⟩
        rw [c.move_pc_self, h.outcome_remove ht (hi.admits t) (hi.returned_none h)]
        exact .inr ⟨hpc, hmem⟩
  rw [hout]
  rcases h.effect.removed with ⟨hr, hno⟩ | ⟨a, hr, hmem, hpc⟩
  · rw [hr]
    constructor
    · exact .inl
    · rintro (hold | ⟨-, hpc, hmem⟩)
      · exact hold
      · exact absurd hmem (hno cb hpc)
  · have hadm := hi.admits t
    rw [hr, mem_cons]
    rcases hpc with hpc | ⟨rfl, r, hpc⟩
    · have ht : calls t = .removeCallback a := by
        cases hc : calls t <;> simp_all [Call.admits]
      constructor
      · rintro (rfl | hold)
        · exact .inr ⟨ht, hpc, hmem⟩
        · exact .inl hold
      · rintro (hold | ⟨ht', -, -⟩)
        · exact .inr hold
        · rw [ht] at ht'
          exact .inl (Call.removeCallback.inj ht').symm
    · -- a wait removes its own callback, which is not one of `dma_fence_add_callback`
      have hne : cb ≠ a := by
        rintro rfl
        simp [hcb, hpc, Call.admits] at hadm
      simp [hne, hpc]

lemma HistoryInv.step : HistoryInv calls (c.move t s p) where
  places := hi.step_places h
  nodup := hi.step_nodup h
  flying := hi.step_flying h
  past := fun _ hu => hi.step_past h hu
  returned := hi.step_returned h
  admits := by
    intro u
    by_cases hut : u = t
    · subst hut
      rw [c.move_pc_self]
      exact h.admits (hi.admits u)
    · rw [c.move_pc_of_ne s p hut]
      exact hi.admits u
  add := fun _ hu => hi.step_add h hu
  remove := fun _ hcb => hi.step_remove h hcb

end

lemma reachable_historyInv (h : Threads.Reachable (next calls) initial c) : HistoryInv calls c :=
  Threads.Runs.invariant (initial_historyInv calls)
    (fun _ _ _ _ _ hi _ hn => hi.step (next_step hn)) h

/-! ## The property of a run -/

lemma HistoryInv.not_invoked (hi : HistoryInv calls c) (ht : t ∉ c.shared.added) :
    t ∉ c.shared.invoked := by
  have h := hi.places t
  rw [count_eq_zero_of_not_mem ht, State.places] at h
  rw [← count_eq_zero]
  omega

/-- **Every callback is called exactly once or removed.** In every state an interleaving of calls
on one fence reaches: a callback whose addition returned `-ENOENT` is not called; and if the
fence is signaled and every call that was started has returned, then a callback whose addition
returned zero was called exactly once and no removal found it, or it was not called and a
removal found it.

**Proof sketch.** The callback was put in the list once (`HistoryInv.add`) and is at exactly one
of four places (`HistoryInv.places`). No thread is about to call it, since none is under way. It
is not in the list: a signaled fence with no thread under way has an empty list
(`SignalInv.drained`). So it was called, or it was removed, and then by a removal
(`HistoryInv.remove`). -/
theorem callback_once {calls : ℕ → Call} {c : Threads.Config State Pc}
    (h : Threads.Reachable (next calls) initial c) :
    (∀ t, calls t = .addCallback → c.shared.returned t = some .enoent → t ∉ c.shared.invoked) ∧
      (c.shared.signaled = true → (∀ t, c.pc t = .start ∨ c.pc t = .done) →
        ∀ t, calls t = .addCallback → c.shared.returned t = some .zero →
          (c.shared.invoked.count t = 1 ∧
            ∀ u, calls u = .removeCallback t → c.shared.returned u ≠ some (.found true)) ∨
          (c.shared.invoked.count t = 0 ∧
            ∃ u, calls u = .removeCallback t ∧ c.shared.returned u = some (.found true))) := by
  have hi := reachable_historyInv h
  refine ⟨fun t ht hret => hi.not_invoked ?_, fun hsig hend t ht hret => ?_⟩
  · intro hmem
    have hdone : c.pc t = .done := (hi.returned t).1 (by simp [hret])
    have hzero := (hi.add t ht).1 hmem
    rw [hdone, hret] at hzero
    simp [outcome] at hzero
  -- with no call under way, what a call is going to return it has returned
  have hout : ∀ u, outcome (c.pc u) (c.shared.returned u) = c.shared.returned u := by
    intro u
    rcases hend u with hu | hu <;> rw [hu] <;> rfl
  have hnil : c.shared.cbList = [] := by
    rcases (reachable_signalInv h).drained hsig with ⟨u, hu⟩ | ⟨hnil, -⟩
    · rcases hend u with hs | hs <;> simp [hs, Pc.drains] at hu
    · exact hnil
  have hfly : c.shared.flying = [] := by
    rw [eq_nil_iff_forall_not_mem]
    rintro ⟨u, cb⟩ hmem
    obtain ⟨r, hr⟩ := (hi.flying u cb).1 hmem
    rcases hend u with hs | hs <;> simp [hs] at hr
  have hmem : t ∈ c.shared.added := by
    rw [hi.add t ht, hout, hret]
  have hone : c.shared.invoked.count t + c.shared.removed.count t = 1 := by
    have hplaces := hi.places t
    rw [count_eq_one_of_mem hi.nodup hmem, State.places, hnil, hfly] at hplaces
    simpa using hplaces.symm
  have hrem : t ∈ c.shared.removed ↔
      ∃ u, calls u = .removeCallback t ∧ c.shared.returned u = some (.found true) := by
    rw [hi.remove t ht]
    simp only [hout]
  by_cases hr : t ∈ c.shared.removed
  · have hpos := count_pos_iff.2 hr
    exact .inr ⟨by omega, hrem.1 hr⟩
  · have hzero := count_eq_zero.2 hr
    exact .inl ⟨by omega, fun u hu hfound => hr (hrem.2 ⟨u, hu, hfound⟩)⟩

/-- Thread 0 adds a callback, thread 1 signals the fence, and the others add callbacks later. -/
def addThenSignal : ℕ → Call
  | 1 => .signal
  | _ => .addCallback

/-- The schedule: the addition, then the signal with the call of the callback, then an addition
that comes too late. -/
def addThenSignalSchedule : List (ℕ × Choice) :=
  (List.replicate 6 0 ++ List.replicate 9 1 ++ [2]).map fun t => (t, ⟨true, 0⟩)

theorem callback_once_addThenSignal :
    ∃ c, Threads.Reachable (next addThenSignal) initial c ∧ c.shared.signaled = true ∧
      c.shared.returned 0 = some .zero ∧ c.shared.invoked.count 0 = 1 ∧
      c.shared.returned 2 = some .enoent ∧ 2 ∉ c.shared.invoked := by
  have hrun : ∃ c, Threads.exec (next addThenSignal) initial addThenSignalSchedule = some c ∧
      c.shared.signaled = true ∧ c.shared.returned 0 = some .zero ∧
      c.shared.returned 2 = some .enoent ∧ c.shared.removed = [] ∧
      ∀ t, c.pc t = .start ∨ c.pc t = .done := by
    refine ⟨_, rfl, rfl, rfl, rfl, rfl, fun t => ?_⟩
    match t with
    | 0 => exact .inr rfl
    | 1 => exact .inr rfl
    | 2 => exact .inr rfl
    | t + 3 => exact .inl rfl
  obtain ⟨c, hexec, hsig, h0, h2, hrem, hend⟩ := hrun
  have hreach := Threads.exec_runs .start hexec
  obtain ⟨hlate, honce⟩ := callback_once hreach
  refine ⟨c, hreach, hsig, h0, ?_, h2, hlate 2 rfl h2⟩
  rcases honce hsig hend 0 rfl h0 with ⟨hcount, -⟩ | ⟨-, u, hu, -⟩
  · exact hcount
  · match u with
    | 0 | 1 | _ + 2 => simp [addThenSignal] at hu

end KmsDrm.DmaFence
