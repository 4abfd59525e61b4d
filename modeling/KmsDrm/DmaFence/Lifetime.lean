import KmsDrm.DmaFence.Callback

/-!
# When a callback may still be called

`dma_fence_signal_locked_sub` unlinks a callback, releases the lock and calls the callback. A
removal or a wait that takes the lock in between finds the callback not in the list and returns,
and the callback is called after that. For a wait the callback is on the stack of the caller.

This does not happen in a run where no removal and no wait looks at the list between the two
steps, and nothing else is needed.

## Main results

* `DmaFence.no_call_after_return` — no callback is called after its removal or wait has returned, if
  none of them looks between the two steps.
* `DmaFence.call_after_return` — a run in which it is.
-/

namespace KmsDrm.DmaFence

open KmsDrm.Lib List Threads Prod

variable {c : Threads.Config State Pc} {cb : ℕ} {calls : ℕ → Call}

/-- A thread looks for a callback in the list, in a removal or at the end of a wait, only while no
thread is about to call this callback. -/
def LooksBetweenCalls (c : Threads.Config State Pc) (t : ℕ) (_ : Choice) : Prop :=
  (∀ cb, c.pc t = .removeDel cb → cb ∉ c.shared.flying.map snd) ∧
    ∀ r, c.pc t = .waitExit r → t ∉ c.shared.flying.map snd

/-- The callers that rely on the callback `cb` not being called after they return: those who
remove it, and the wait it belongs to. -/
def ReliesOn (calls : ℕ → Call) (u cb : ℕ) : Prop :=
  calls u = .removeCallback cb ∨ u = cb ∧ ∃ intr timeout, calls u = .defaultWait intr timeout

/-- The call has nothing left to do but release the lock. -/
def Pc.settled : Pc → Bool
  | .unlock _ | .done => true
  | _ => false

/-! ## What a step can do -/

section Facts

variable {t : ℕ} {s s' : State} {pc p : Pc}

lemma Step.settles (h : Step calls t s pc s' p) (hr : ReliesOn calls t cb)
    (ha : (calls t).admits pc = true) (hp : p.settled = true) :
    pc.settled = true ∨ pc = .removeDel cb ∨
      t = cb ∧ ((∃ r, pc = .waitExit r) ∨ pc.past = false ∧ s'.added = s.added) := by
  rcases hr with hc | ⟨rfl, intr, timeout, hc⟩
  · cases h <;> simp_all [Pc.settled, Call.admits]
  · cases h <;> simp_all [Pc.settled, Call.admits, Pc.past]

lemma Step.removal (h : Step calls t s pc s' p) (hc : calls t = .removeCallback cb) :
    pc ≠ .start ∨ s.returned cb ≠ none ∧ calls cb = .addCallback := by
  cases h <;> simp_all

lemma Effect.mem_cbList (h : Effect t s pc s' p) (hcb : cb ∈ s'.cbList) :
    cb ∈ s.cbList ∨ cb = t ∧ pc.inserts = true := by
  cases h with
  | quiet hlist => exact .inl (hlist ▸ hcb)
  | pop a rest r hpc hlist hs => simp_all
  | invoke a r hpc hs => simp_all
  | addTail hpc hs => simp_all [Pc.inserts]
  | addHead r hpc hs =>
    simp_all only [State.addHead_cbList, mem_cons, Pc.inserts, and_true]
    exact hcb.symm
  | remove a hpc hmem hs | removeOwn r hpc hmem hs =>
    rw [hs] at hcb
    exact .inl (mem_of_mem_erase hcb)

lemma Effect.mem_flying (h : Effect t s pc s' p) (hcb : cb ∈ s'.flying.map snd) :
    cb ∈ s.cbList ∨ cb ∈ s.flying.map snd := by
  cases h with
  | quiet _ _ hflying => exact .inr (hflying ▸ hcb)
  | pop a rest r hpc hlist hs =>
    rw [hs, State.pop_flying, map_cons, mem_cons] at hcb
    rw [hlist]
    rcases hcb with rfl | hcb
    · exact .inl (.head _)
    · exact .inr hcb
  | invoke a r hpc hs =>
    rw [hs] at hcb
    exact .inr ((erase_sublist.map snd).subset hcb)
  | addTail hpc hs | addHead r hpc hs | remove a hpc hmem hs | removeOwn r hpc hmem hs =>
    rw [hs] at hcb
    exact .inr hcb

end Facts

/-- The callback will not be called any more, unless it is added. -/
def State.Quiet (s : State) (cb : ℕ) : Prop := cb ∉ s.cbList ∧ cb ∉ s.flying.map snd

lemma Step.quiet {t : ℕ} {s s' : State} {pc p : Pc} (h : Step calls t s pc s' p) (hq : s.Quiet cb)
    (hadd : cb = t → pc.inserts = false) :
    s'.Quiet cb := by
  constructor
  · intro hmem
    rcases h.effect.mem_cbList hmem with hold | ⟨hcb, hins⟩
    · exact hq.1 hold
    · simp [hadd hcb] at hins
  · intro hmem
    rcases h.effect.mem_flying hmem with hold | hold
    · exact hq.1 hold
    · exact hq.2 hold

lemma HistoryInv.quiet_of_not_added (hi : HistoryInv calls c) (h : cb ∉ c.shared.added) :
    c.shared.Quiet cb := by
  have hplaces := hi.places cb
  rw [count_eq_zero_of_not_mem h, State.places] at hplaces
  rw [State.Quiet, ← count_eq_zero, ← count_eq_zero]
  omega

lemma HistoryInv.quiet_of_removed (hi : HistoryInv calls c) (h : cb ∈ c.shared.removed) :
    c.shared.Quiet cb := by
  have hplaces := hi.places cb
  have hone := nodup_iff_count_le_one.1 hi.nodup cb
  have hpos := count_pos_iff.2 h
  rw [State.places] at hplaces
  rw [State.Quiet, ← count_eq_zero, ← count_eq_zero]
  omega

/-! ## The invariant of the runs -/

/-- The invariant of the runs that meet the condition. -/
structure LifetimeInv (calls : ℕ → Call) (c : Threads.Config State Pc) : Prop where
  history : HistoryInv calls c
  /-- A removal runs after the addition of its callback. -/
  removal : ∀ u cb, calls u = .removeCallback cb → c.pc u ≠ .start → c.pc cb = .done
  /-- A callback whose removal or wait has settled is quiet. -/
  settled : ∀ u cb, ReliesOn calls u cb → (c.pc u).settled = true → c.shared.Quiet cb

lemma initial_lifetimeInv (calls : ℕ → Call) : LifetimeInv calls initial where
  history := initial_historyInv calls
  removal := by simp [initial]
  settled := by simp [initial, Pc.settled]

section LifetimeStep

variable {t : ℕ} {x : Choice} {s : State} {p : Pc}

section

variable (hi : LifetimeInv calls c) (h : Step calls t c.shared (c.pc t) s p)

include hi h

lemma LifetimeInv.step_removal
    {u : ℕ} (hu : calls u = .removeCallback cb) (hne : (c.move t s p).pc u ≠ .start) :
    (c.move t s p).pc cb = .done := by
  have hdone : c.pc cb = .done := by
    by_cases hut : u = t
    · subst hut
      rcases h.removal hu with hstart | ⟨hret, -⟩
      · exact hi.removal u cb hu hstart
      · exact (hi.history.returned cb).1 hret
    · rw [c.move_pc_of_ne s p hut] at hne
      exact hi.removal u cb hu hne
  have hcbt : cb ≠ t := by
    rintro rfl
    exact h.returned_self.1 hdone
  rw [c.move_pc_of_ne s p hcbt, hdone]

lemma LifetimeInv.step_looks (hcond : LooksBetweenCalls c t x)
    (hpc : c.pc t = .removeDel cb ∨ t = cb ∧ ∃ r, c.pc t = .waitExit r) : s.Quiet cb := by
  have hstep : cb ∈ s.removed → s.Quiet cb := (hi.history.step h).quiet_of_removed
  rcases hpc with hpc | ⟨rfl, r, hpc⟩
  · have hfly := hcond.1 cb hpc
    rw [hpc] at h
    cases h with
    | removed _ hmem => exact hstep (.head _)
    | notFound _ hmem => exact ⟨hmem, hfly⟩
  · have hfly := hcond.2 r hpc
    rw [hpc] at h
    cases h with
    | waitRemoved _ hmem => exact hstep (.head _)
    | waitCalled _ hmem => exact ⟨hmem, hfly⟩

lemma LifetimeInv.step_settled
    (hcond : LooksBetweenCalls c t x) {u : ℕ} (hu : ReliesOn calls u cb)
    (hset : ((c.move t s p).pc u).settled = true) : s.Quiet cb := by
  by_cases hut : u = t
  · subst hut
    rw [c.move_pc_self] at hset
    rcases h.settles hu (hi.history.admits u) hset with hold | hpc | ⟨rfl, hpc | ⟨hpast, hadd⟩⟩
    · refine h.quiet (hi.settled u cb hu hold) fun _ => ?_
      cases hp : c.pc u <;> simp_all [Pc.settled, Pc.inserts]
    · exact hi.step_looks h hcond (.inl hpc)
    · exact hi.step_looks h hcond (.inr ⟨rfl, hpc⟩)
    · -- the wait returns without having added its callback
      apply (hi.history.step h).quiet_of_not_added
      rw [c.move_shared, hadd]
      intro hmem
      simp [hi.history.past u hmem] at hpast
  · rw [c.move_pc_of_ne s p hut] at hset
    refine h.quiet (hi.settled u cb hu hset) ?_
    rintro rfl
    rcases hu with hrem | ⟨hcb, -⟩
    · have hstart : c.pc u ≠ .start := by
        intro hpc
        simp [hpc, Pc.settled] at hset
      rw [hi.removal u cb hrem hstart]
      rfl
    · exact absurd hcb hut

lemma LifetimeInv.step (hcond : LooksBetweenCalls c t x) : LifetimeInv calls (c.move t s p) where
  history := hi.history.step h
  removal := fun _ _ hu hne => hi.step_removal h hu hne
  settled := fun _ _ hu hset => hi.step_settled h hcond hu hset

end

end LifetimeStep

lemma runs_lifetimeInv (h : Threads.Runs (next calls) LooksBetweenCalls initial c) :
    LifetimeInv calls c :=
  Threads.Runs.invariant (initial_lifetimeInv calls)
    (fun _ _ _ _ _ hi hcond hn => hi.step (next_step hn) hcond) h

/-! ## The property of a run -/

/-- **No call after the return, if nobody looks in between.** In every run in which removals and
waits look at the list only while no thread is about to call their callback: a step that calls
the callback `cb` is taken before any removal of `cb` has returned, and, if `cb` belongs to a
wait, before the wait has returned.

**Proof sketch.** A thread that calls `cb` has unlinked it, so `cb` is not quiet. A removal or a
wait that has returned is settled, and leaves its callback quiet (`LifetimeInv.settled`). -/
theorem no_call_after_return {calls : ℕ → Call} {c c' : Threads.Config State Pc}
    (h : Threads.Runs (next calls) LooksBetweenCalls initial c) {t cb : ℕ} {x : Choice}
    (hfire : fire (next calls) c t x = some c')
    (hcall : c'.shared.invoked = cb :: c.shared.invoked) :
    (∀ u, calls u = .removeCallback cb → c.shared.returned u = none) ∧
      ∀ intr timeout, calls cb = .defaultWait intr timeout → c.shared.returned cb = none := by
  have hi := runs_lifetimeInv h
  obtain ⟨s, p, hnext, rfl⟩ := fire_eq_some hfire
  -- the step is the call of `cb`, which the thread has unlinked before
  have hfly : cb ∈ c.shared.flying.map snd := by
    rw [c.move_shared] at hcall
    cases (next_step hnext).effect with
    | invoke a r hpc hs =>
      rw [hs, State.invoke_invoked, List.cons.injEq] at hcall
      obtain ⟨rfl, -⟩ := hcall
      exact mem_map.2 ⟨(t, a), (hi.history.flying t a).2 ⟨r, hpc⟩, rfl⟩
    | quiet _ _ _ hinv =>
      rw [hinv] at hcall
      exact absurd hcall.symm (cons_ne_self _ _)
    | pop _ _ _ _ _ hs | addTail _ hs | addHead _ _ hs | remove _ _ _ hs | removeOwn _ _ _ hs =>
      rw [hs] at hcall
      exact absurd hcall.symm (cons_ne_self _ _)
  have hnone : ∀ u, ReliesOn calls u cb → c.shared.returned u = none := by
    intro u hu
    by_contra hne
    have hdone := (hi.history.returned u).1 hne
    exact (hi.settled u cb hu (by simp [hdone, Pc.settled])).2 hfly
  exact ⟨fun u hu => hnone u (.inl hu), fun i n hw => hnone cb (.inr ⟨rfl, i, n, hw⟩)⟩

/-- Thread 0 adds a callback, thread 1 signals the fence, thread 2 removes the callback and
thread 3 waits. -/
def removeAndWait : ℕ → Call
  | 1 => .signal
  | 2 => .removeCallback 0
  | 3 => .defaultWait false 5
  | _ => .addCallback

/-- The steps of the threads in this order, each one with the driver's consent and with one tick
left of every sleep. -/
def inOrder (threads : List ℕ) : List (ℕ × Choice) := threads.map fun t => (t, ⟨true, 1⟩)

instance (c : Threads.Config State Pc) (t : ℕ) (x : Choice) : Decidable (LooksBetweenCalls c t x) :=
  decidable_of_iff ((∀ cb ∈ c.shared.flying.map snd, c.pc t ≠ .removeDel cb) ∧
      ((c.pc t matches .waitExit _) = true → t ∉ c.shared.flying.map snd)) <| by
    unfold LooksBetweenCalls
    cases c.pc t <;> simp
    aesop

/-- Two runs in which somebody looks at the list while no callback is in flight. The wait looks,
and then the callback of thread 0 is called before it is removed; the removal looks, and then the
callback of the wait is called before the wait returns. -/
theorem no_call_after_return_removeAndWait :
    (∃ c c', Threads.Runs (next removeAndWait) LooksBetweenCalls initial c ∧
      c.shared.removed = [3] ∧ fire (next removeAndWait) c 1 ⟨true, 1⟩ = some c' ∧
      c'.shared.invoked = 0 :: c.shared.invoked ∧
      ∀ u, removeAndWait u = .removeCallback 0 → c.shared.returned u = none) ∧
    ∃ c c', Threads.Runs (next removeAndWait) LooksBetweenCalls initial c ∧
      c.shared.returned 2 = some (.found true) ∧
      fire (next removeAndWait) c 1 ⟨true, 1⟩ = some c' ∧
      c'.shared.invoked = 3 :: c.shared.invoked ∧ c.shared.returned 3 = none := by
  have hwait : ∃ c c', execIf (next removeAndWait) LooksBetweenCalls initial
        (inOrder (replicate 6 0 ++ replicate 7 3) ++ (3, ⟨true, 0⟩) ::
          inOrder (replicate 5 3 ++ replicate 5 1)) = some c ∧
      fire (next removeAndWait) c 1 ⟨true, 1⟩ = some c' ∧
      c'.shared.invoked = 0 :: c.shared.invoked ∧ c.shared.removed = [3] :=
    ⟨_, _, rfl, rfl, rfl, rfl⟩
  have hremove : ∃ c c', execIf (next removeAndWait) LooksBetweenCalls initial
        (inOrder (replicate 6 0 ++ replicate 7 3 ++ replicate 3 2 ++ replicate 5 1)) = some c ∧
      fire (next removeAndWait) c 1 ⟨true, 1⟩ = some c' ∧
      c'.shared.invoked = 3 :: c.shared.invoked ∧ c.shared.returned 2 = some (.found true) :=
    ⟨_, _, rfl, rfl, rfl, rfl⟩
  obtain ⟨c, c', hexec, hfire, hcall, hlook⟩ := hwait
  obtain ⟨d, d', hexec', hfire', hcall', hlook'⟩ := hremove
  have hruns := execIf_runs .start hexec
  have hruns' := execIf_runs .start hexec'
  exact ⟨⟨c, c', hruns, hlook, hfire, hcall, (no_call_after_return hruns hfire hcall).1⟩,
    ⟨d, d', hruns', hlook', hfire', hcall', (no_call_after_return hruns' hfire' hcall').2 _ _ rfl⟩⟩

/-- **A callback called after the return.** The callback is unlinked by the signal; then the
removal, or the wait, runs to its end; and the next step of the signal calls the callback. -/
theorem call_after_return :
    (∃ c c', Threads.Reachable (next removeAndWait) initial c ∧
      fire (next removeAndWait) c 1 ⟨true, 1⟩ = some c' ∧
      c'.shared.invoked = 0 :: c.shared.invoked ∧
      removeAndWait 2 = .removeCallback 0 ∧ c.shared.returned 2 = some (.found false)) ∧
    (∃ c c', Threads.Reachable (next removeAndWait) initial c ∧
      fire (next removeAndWait) c 1 ⟨true, 1⟩ = some c' ∧
      c'.shared.invoked = 3 :: c.shared.invoked ∧
      removeAndWait 3 = .defaultWait false 5 ∧ c.shared.returned 3 = some (.time 1)) := by
  have hremove : ∃ c c', exec (next removeAndWait) initial
        (inOrder (List.replicate 6 0 ++ List.replicate 5 1 ++ List.replicate 3 2)) = some c ∧
      fire (next removeAndWait) c 1 ⟨true, 1⟩ = some c' ∧
      c'.shared.invoked = 0 :: c.shared.invoked ∧
      c.shared.returned 2 = some (.found false) := ⟨_, _, rfl, rfl, rfl, rfl⟩
  have hwait : ∃ c c', exec (next removeAndWait) initial
        (inOrder (List.replicate 7 3 ++ List.replicate 5 1 ++ List.replicate 6 3)) = some c ∧
      fire (next removeAndWait) c 1 ⟨true, 1⟩ = some c' ∧
      c'.shared.invoked = 3 :: c.shared.invoked ∧
      c.shared.returned 3 = some (.time 1) := ⟨_, _, rfl, rfl, rfl, rfl⟩
  obtain ⟨c, c', hexec, hfire, hcall, hret⟩ := hremove
  obtain ⟨d, d', hexec', hfire', hcall', hret'⟩ := hwait
  exact ⟨⟨c, c', exec_runs .start hexec, hfire, hcall, rfl, hret⟩,
    ⟨d, d', exec_runs .start hexec', hfire', hcall', rfl, hret'⟩⟩

end KmsDrm.DmaFence
