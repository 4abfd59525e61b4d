import KmsDrm.DmaFence.Callback

/-!
# The result of a wait

A positive result of `dma_fence_default_wait` says that the fence is signaled, in every
interleaving of calls on the fence. This is what the functions that wait for the fences of a
reservation object rely on.

## Main results

* `DmaFence.defaultWait_signaled` — the property of a whole run.
-/

namespace KmsDrm.DmaFence

open KmsDrm.Lib

/-- The wait has decided on the value it returns. -/
def Pc.leavesWith (r : Ret) (pc : Pc) : Prop := pc = .unlock r ∨ pc = .waitExit r

section Facts

variable {calls : ℕ → Call} {t : ℕ} {s s' : State} {pc p : Pc}

section

variable (h : Step calls t s pc s' p)

include h

lemma Step.signaled_mono (hs : s.signaled = true) : s'.signaled = true := by
  cases h <;> simp_all

lemma Step.drains_signaled (hp : p.drains = true) : pc.drains = true ∨ s'.signaled = true := by
  cases h <;> simp_all [Pc.drains]

lemma Step.leavesWith {r : ℤ} (hr : 0 < r) (hp : p.leavesWith (.time r)) :
    pc.leavesWith (.time r) ∨ pc.drains = true ∨ s'.signaled = true := by
  cases h
  case waitLeave r' hleft =>
    right
    right
    by_contra hns
    obtain rfl : r' = .time r := by simpa [Pc.leavesWith] using hp
    have := hleft (by simpa using hns)
    simp only [Ret.left] at this
    omega
  all_goals simp_all [Pc.leavesWith, Pc.drains]

lemma Step.returned_time {r : ℤ} (hr : s'.returned t = some (.time r)) :
    s.returned t = some (.time r) ∨ pc.leavesWith (.time r) ∨ s.signaled = true := by
  cases h <;> simp_all [Pc.leavesWith]

end

end Facts

/-- The invariant of the values that waits return. -/
structure WaitInv (c : Threads.Config State Pc) : Prop where
  drains : ∀ t, (c.pc t).drains = true → c.shared.signaled = true
  leaves : ∀ t r, 0 < r → (c.pc t).leavesWith (.time r) → c.shared.signaled = true
  returned : ∀ t r, 0 < r → c.shared.returned t = some (.time r) → c.shared.signaled = true

lemma WaitInv.step {calls : ℕ → Call} {c : Threads.Config State Pc} {t : ℕ} {s : State} {p : Pc}
    (hi : WaitInv c) (h : Step calls t c.shared (c.pc t) s p) : WaitInv (c.move t s p) := by
  refine ⟨fun u hu => ?_, fun u r hr hu => ?_, fun u r hr hu => ?_⟩
  · by_cases hut : u = t
    · subst hut
      rw [c.move_pc_self] at hu
      rcases h.drains_signaled hu with hold | hnew
      · exact h.signaled_mono (hi.drains u hold)
      · exact hnew
    · rw [c.move_pc_of_ne s p hut] at hu
      exact h.signaled_mono (hi.drains u hu)
  · by_cases hut : u = t
    · subst hut
      rw [c.move_pc_self] at hu
      rcases h.leavesWith hr hu with hold | hdrains | hnew
      · exact h.signaled_mono (hi.leaves u r hr hold)
      · exact h.signaled_mono (hi.drains u hdrains)
      · exact hnew
    · rw [c.move_pc_of_ne s p hut] at hu
      exact h.signaled_mono (hi.leaves u r hr hu)
  · by_cases hut : u = t
    · subst hut
      rcases h.returned_time hu with hold | hleaves | hsig
      · exact h.signaled_mono (hi.returned u r hr hold)
      · exact h.signaled_mono (hi.leaves u r hr hleaves)
      · exact h.signaled_mono hsig
    · rw [c.move_shared, h.returned_of_ne hut] at hu
      exact h.signaled_mono (hi.returned u r hr hu)

/-- **A positive result says that the fence is signaled.** -/
theorem defaultWait_signaled {calls : ℕ → Call} {c : Threads.Config State Pc}
    (h : Threads.Reachable (next calls) initial c) {t : ℕ} {r : ℤ} (hr : 0 < r)
    (hret : c.shared.returned t = some (.time r)) : c.shared.signaled = true := by
  have hinit : WaitInv initial :=
    ⟨by simp [initial, Pc.drains], by simp [initial, Pc.leavesWith], by simp [initial]⟩
  have hi : WaitInv c :=
    Threads.Runs.invariant hinit (fun _ _ _ _ _ hi _ hn => hi.step (next_step hn)) h
  exact hi.returned t r hr hret

/-- The fence is signaled during a wait. -/
theorem defaultWait_signaled_asleep :
    ((Threads.exec (next fun t => if t = 0 then .signal else .defaultWait false 5) initial
      ((List.replicate 7 1 ++ 0 :: List.replicate 6 1).map fun t => (t, ⟨true, 3⟩))).get
        rfl).shared.signaled = true :=
  defaultWait_signaled (t := 1) (r := 3) (Threads.exec_runs .start (Option.some_get _).symm)
    (by decide) rfl

end KmsDrm.DmaFence
