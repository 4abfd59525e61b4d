import KmsDrm.Sched.Order

/-!
# The number of jobs on the hardware

`hw_rq_count` counts the jobs whose hardware fence has not called back. A reset takes back the
callbacks that have not run, and the recovery hands all jobs of the mirror list to the hardware
again, also those that were finished before the reset but not yet taken from the list. If there
are such jobs, the recovery may exceed the submission limit, and it overwrites their `parent`
without dropping the reference.

## Main results

* `Sched.hw_rq_count_balanced` — the count, the limit and the references in every careful
  run.
* `Sched.recovery_of_finished` — a run that exceeds the limit and loses a reference.
-/

namespace KmsDrm.Sched

open KmsDrm.Lib List Option CircList
open Function (update update_of_ne update_self)

variable {queued : Entity → List Job} {j : Job} {l rest : List Job} {hw : Option ℕ} {s s' : State}
  {limit : ℕ} {d : ℤ}

/-! ## Counting -/

lemma countP_insert_one {α : Type} [DecidableEq α] {l : List α} (hl : l.Nodup) {a : α}
    (ha : a ∈ l) {p q : α → Bool} (hp : p a = false) (hq : q a = true)
    (heq : ∀ b, b ≠ a → q b = p b) : l.countP q = l.countP p + 1 := by
  obtain ⟨xs, ys, rfl⟩ := append_of_mem ha
  have hnodup := nodup_middle.1 hl
  have hnot := (nodup_cons.1 hnodup).1
  rw [mem_append, not_or] at hnot
  have hxs : xs.countP q = xs.countP p :=
    countP_congr fun b hb => by rw [heq b (ne_of_mem_of_not_mem hb hnot.1)]
  have hys : ys.countP q = ys.countP p :=
    countP_congr fun b hb => by rw [heq b (ne_of_mem_of_not_mem hb hnot.2)]
  rw [countP_append, countP_append, countP_cons_of_pos hq,
    countP_cons_of_neg (by simp [hp])]
  omega

/-! ## The invariants -/

/-- A job that was not run. -/
structure Untouched (s : State) (j : Job) : Prop where
  cb : s.cb j = none
  parent : s.parent j = none
  mirror : j ∉ s.mirror
  finished : s.signaled (.finished j) = false

/-- The invariant that relates the count, the callbacks and the references; `d` is how much the
count is ahead in the middle of a step. -/
structure Sane (s : State) (queued : Entity → List Job) (d : ℤ) : Prop where
  holds : ∀ e, (s.queue e).Holds (queued e)
  queued : ∀ e, ∀ j ∈ queued e,
    j.entity = e ∧ j.seqno ≤ s.fenceSeq e ∧ s.signaled (.scheduled j) = false
  fresh : ∀ j : Job, s.fenceSeq j.entity < j.seqno → s.signaled (.scheduled j) = false
  ran : ∀ j, j ∈ s.ran ↔ s.signaled (.scheduled j) = true
  untouched : ∀ j, s.signaled (.scheduled j) = false → Untouched s j
  nodup : s.mirror.Nodup
  cb : ∀ j f, s.cb j = some f →
    s.parent j = some f ∧ j ∈ s.mirror ∧ s.signaled (.finished j) = false
  work : ∀ j, s.finishWork j = true ∨ s.jobFreed j = true → s.signaled (.finished j) = true
  count : s.hwRqCount = (s.mirror.countP fun j => (s.cb j).isSome : ℕ) + d
  refs : ∀ j, s.taken j = s.dropped j + if (s.parent j).isSome then 1 else 0
  freed : ∀ j, s.fenceFreed j = true → s.signaled (.finished j) = true ∧ s.parent j = none

/-- A job that was reset and not run again. -/
structure Idle (s : State) (j : Job) : Prop where
  cb : s.cb j = none
  parent : s.parent j = none
  finished : s.signaled (.finished j) = false

/-- A job that was submitted: its callback is registered or has run. -/
def Busy (s : State) (j : Job) : Prop := (s.cb j).isSome = true ∨ s.signaled (.finished j) = true

/-- Where the scheduler is between two resets; `rest` is the part of the mirror list that is still
to be run again. -/
structure Phase (s : State) (rest : List Job) : Prop where
  normal : s.resetPending = false → s.recovery = none ∧ s.hwRqCount ≤ s.limit ∧ rest = []
  length : s.resetPending = true → s.mirror.length ≤ s.limit
  suffix : rest <:+ s.mirror
  idle : ∀ j ∈ rest, Idle s j
  busy : ∀ j ∈ s.mirror, j ∉ rest → Busy s j
  cursor : ∀ r, s.recovery = some r → r.sJob = rest.head? ∧ r.tmp = rest.tail.head?
  start : s.resetPending = true → s.recovery = none → rest = s.mirror

/-- The condition on the steps: the thread of the scheduler is parked from a reset to the end of its
recovery, recoveries follow resets, and a reset finds no finished job on the mirror list. -/
def Careful (s : State) : Act → Prop
  | .main _ _ => s.resetPending = false
  | .reset _ => s.recovery = none ∧ ∀ j ∈ s.mirror, s.signaled (.finished j) = false
  | .recoveryStart => s.resetPending = true
  | _ => True

instance (s : State) : DecidablePred (Careful s)
  | .main _ _ => inferInstanceAs (Decidable (_ = _))
  | .reset _ => inferInstanceAs (Decidable (_ ∧ _))
  | .recoveryStart => inferInstanceAs (Decidable (_ = _))
  | .push _ => inferInstanceAs (Decidable True)
  | .signal _ => inferInstanceAs (Decidable True)
  | .callback _ => inferInstanceAs (Decidable True)
  | .depCallback _ => inferInstanceAs (Decidable True)
  | .jobFinish _ => inferInstanceAs (Decidable True)
  | .fenceFree _ => inferInstanceAs (Decidable True)
  | .recoveryTurn _ => inferInstanceAs (Decidable True)

lemma Sane.count_le (h : Sane s queued 0) : s.hwRqCount ≤ s.mirror.length := by
  have hle : s.mirror.countP (fun j => (s.cb j).isSome) ≤ s.mirror.length := countP_le_length
  rw [h.count]
  omega

lemma Sane.scheduled (h : Sane s queued d) (hj : j ∈ s.mirror) :
    s.signaled (.scheduled j) = true := by
  rw [← Bool.not_eq_false]
  exact fun hunsig => (h.untouched j hunsig).mirror hj

lemma Sane.cb_eq_none (h : Sane s queued d) (hj : s.signaled (.finished j) = true) :
    s.cb j = none := by
  cases hcb : s.cb j with
  | none => rfl
  | some f =>
    rw [(h.cb j f hcb).2.2] at hj
    cases hj

lemma Sane.congr (h : Sane s queued d)
    (hscheduled : ∀ j, s'.signaled (.scheduled j) = s.signaled (.scheduled j))
    (hfinished : ∀ j, s'.signaled (.finished j) = s.signaled (.finished j))
    (hqueue : s'.queue = s.queue := by rfl) (hseq : s'.fenceSeq = s.fenceSeq := by rfl)
    (hran : s'.ran = s.ran := by rfl) (hmirror : s'.mirror = s.mirror := by rfl)
    (hcb : s'.cb = s.cb := by rfl) (hparent : s'.parent = s.parent := by rfl)
    (hwork : s'.finishWork = s.finishWork := by rfl) (hfreed : s'.jobFreed = s.jobFreed := by rfl)
    (hcount : s'.hwRqCount = s.hwRqCount := by rfl) (htaken : s'.taken = s.taken := by rfl)
    (hdropped : s'.dropped = s.dropped := by rfl)
    (hfenceFreed : s'.fenceFreed = s.fenceFreed := by rfl) : Sane s' queued d where
  holds := hqueue ▸ h.holds
  queued e j hj := by
    rw [hseq, hscheduled]
    exact h.queued e j hj
  fresh j hj := by
    rw [hseq] at hj
    rw [hscheduled]
    exact h.fresh j hj
  ran j := by
    rw [hran, hscheduled]
    exact h.ran j
  untouched j hj := by
    rw [hscheduled] at hj
    obtain ⟨hcb', hparent', hmirror', hfinished'⟩ := h.untouched j hj
    exact ⟨hcb ▸ hcb', hparent ▸ hparent', hmirror ▸ hmirror', (hfinished j).trans hfinished'⟩
  nodup := hmirror ▸ h.nodup
  cb j f hj := by
    rw [hparent, hmirror, hfinished]
    exact h.cb j f (hcb ▸ hj)
  work j hj := by
    rw [hwork, hfreed] at hj
    rw [hfinished]
    exact h.work j hj
  count := by
    rw [hcount, hmirror, hcb]
    exact h.count
  refs j := by
    rw [htaken, hdropped, hparent]
    exact h.refs j
  freed j hj := by
    rw [hfinished, hparent]
    exact h.freed j (hfenceFreed ▸ hj)

/-! ## Changes of one job -/

/-- Two states that differ in one job, apart from what the invariant does not look at. -/
structure SameElse (s s' : State) (j : Job) : Prop where
  queue : s'.queue = s.queue
  fenceSeq : s'.fenceSeq = s.fenceSeq
  ran : s'.ran = s.ran
  mirror : s'.mirror = s.mirror
  scheduled : ∀ k, s'.signaled (.scheduled k) = s.signaled (.scheduled k)
  cb : ∀ k, k ≠ j → s'.cb k = s.cb k
  parent : ∀ k, k ≠ j → s'.parent k = s.parent k
  finished : ∀ k, k ≠ j → s'.signaled (.finished k) = s.signaled (.finished k)
  work : ∀ k, k ≠ j → s'.finishWork k = s.finishWork k
  freed : ∀ k, k ≠ j → s'.jobFreed k = s.jobFreed k
  taken : ∀ k, k ≠ j → s'.taken k = s.taken k
  dropped : ∀ k, k ≠ j → s'.dropped k = s.dropped k
  fenceFreed : ∀ k, k ≠ j → s'.fenceFreed k = s.fenceFreed k

lemma Sane.change {d' : ℤ} (h : Sane s queued d) (hsame : SameElse s s' j)
    (hj : s.signaled (.scheduled j) = true) (hcb : ∀ f, s'.cb j = some f →
      s'.parent j = some f ∧ j ∈ s.mirror ∧ s'.signaled (.finished j) = false)
    (hwork : s'.finishWork j = true ∨ s'.jobFreed j = true → s'.signaled (.finished j) = true)
    (hrefs : s'.taken j = s'.dropped j + if (s'.parent j).isSome then 1 else 0)
    (hfreed : s'.fenceFreed j = true → s'.signaled (.finished j) = true ∧ s'.parent j = none)
    (hcount : s'.hwRqCount = (s.mirror.countP fun k => (s'.cb k).isSome : ℕ) + d') :
    Sane s' queued d' where
  holds := hsame.queue ▸ h.holds
  queued e k hk := by
    rw [hsame.fenceSeq, hsame.scheduled]
    exact h.queued e k hk
  fresh k hk := by
    rw [hsame.fenceSeq] at hk
    rw [hsame.scheduled]
    exact h.fresh k hk
  ran k := by
    rw [hsame.ran, hsame.scheduled]
    exact h.ran k
  untouched k hk := by
    rw [hsame.scheduled] at hk
    have hkj : k ≠ j := by
      rintro rfl
      rw [hj] at hk
      cases hk
    obtain ⟨hcb', hparent', hmirror', hfinished'⟩ := h.untouched k hk
    exact ⟨(hsame.cb k hkj).trans hcb', (hsame.parent k hkj).trans hparent',
      hsame.mirror ▸ hmirror', (hsame.finished k hkj).trans hfinished'⟩
  nodup := hsame.mirror ▸ h.nodup
  cb k f hk := by
    rw [hsame.mirror]
    by_cases hkj : k = j
    · rw [hkj] at hk ⊢
      exact hcb f hk
    · rw [hsame.cb k hkj] at hk
      rw [hsame.parent k hkj, hsame.finished k hkj]
      exact h.cb k f hk
  work k hk := by
    by_cases hkj : k = j
    · rw [hkj] at hk ⊢
      exact hwork hk
    · rw [hsame.work k hkj, hsame.freed k hkj] at hk
      rw [hsame.finished k hkj]
      exact h.work k hk
  count := by rw [hsame.mirror, hcount]
  refs k := by
    by_cases hkj : k = j
    · rw [hkj]
      exact hrefs
    · rw [hsame.taken k hkj, hsame.dropped k hkj, hsame.parent k hkj]
      exact h.refs k
  freed k hk := by
    by_cases hkj : k = j
    · rw [hkj] at hk ⊢
      exact hfreed hk
    · rw [hsame.fenceFreed k hkj] at hk
      rw [hsame.finished k hkj, hsame.parent k hkj]
      exact h.freed k hk

lemma sameElse_processJob (s : State) (j : Job) : SameElse s (processJob s j) j := by
  unfold processJob fenceFinished
  split_ifs
  · constructor <;> simp
  · constructor <;> simp +contextual

lemma processJob_spec (s : State) (j : Job) :
    (processJob s j).signaled (.finished j) = true ∧
      (processJob s j).hwRqCount = s.hwRqCount - 1 ∧ (processJob s j).cb = s.cb ∧
      (processJob s j).parent = s.parent ∧ (processJob s j).taken = s.taken ∧
      (processJob s j).dropped = s.dropped ∧ (processJob s j).fenceFreed = s.fenceFreed := by
  unfold processJob fenceFinished
  split_ifs with hsig
  · exact ⟨hsig, rfl, rfl, rfl, rfl, rfl, rfl⟩
  · exact ⟨update_self .., rfl, rfl, rfl, rfl, rfl, rfl⟩

lemma Sane.processJob (h : Sane s queued (d + 1)) (hj : s.signaled (.scheduled j) = true)
    (hcb : s.cb j = none) :
    Sane (processJob s j) queued d := by
  obtain ⟨hfinished, hcount, hcbs, hparent, htaken, hdropped, hfreed⟩ := processJob_spec s j
  refine h.change (sameElse_processJob s j) hj (fun f hf => ?_) (fun _ => hfinished) ?_
    (fun hf => ?_) ?_
  · rw [hcbs, hcb] at hf
    cases hf
  · rw [htaken, hdropped, hparent]
    exact h.refs j
  · rw [hparent]
    exact ⟨hfinished, (h.freed j (hfreed ▸ hf)).2⟩
  · rw [hcount, hcbs, h.count]
    omega

/-- **The submission of a job.** The count is one ahead when `run_job` has returned; then the
callback is registered, or the job is finished at once. -/
theorem Sane.submit (h : Sane s queued (d + 1)) (hj : j ∈ s.mirror) (hidle : Idle s j)
    (hw : Option ℕ) :
    Sane (submit s j hw) queued d := by
  have hscheduled := h.scheduled hj
  cases hw with
  | none => exact h.processJob hscheduled hidle.cb
  | some f =>
    have hrefs := h.refs j
    rw [hidle.parent] at hrefs
    have hnotFreed : s.fenceFreed j ≠ true := by
      intro hf
      have hfinished := (h.freed j hf).1
      rw [hidle.finished] at hfinished
      cases hfinished
    unfold Sched.submit
    dsimp only
    split_ifs
    · refine Sane.processJob (s := { s with
        parent := update s.parent j (some f)
        taken := update s.taken j (s.taken j + 1) }) ?_ hscheduled hidle.cb
      refine h.change (j := j) ?_ hscheduled (fun g hg => ?_) (h.work j) ?_ (absurd · hnotFreed)
        h.count
      · constructor <;> simp +contextual
      · exact absurd (hidle.cb.symm.trans hg) nofun
      · simpa using hrefs
    · refine h.change (j := j) ?_ hscheduled (fun g hg => ?_) (h.work j) ?_ (absurd · hnotFreed) ?_
      · constructor <;> simp +contextual
      · simp only [update_self] at hg ⊢
        exact ⟨hg, hj, hidle.finished⟩
      · simpa using hrefs
      · have hone : s.mirror.countP (fun k => (update s.cb j (some f) k).isSome) =
            s.mirror.countP (fun k => (s.cb k).isSome) + 1 := by
          refine countP_insert_one h.nodup hj ?_ ?_ fun k hk => ?_
          · simp [hidle.cb]
          · simp
          · rw [update_of_ne hk]
        rw [h.count]
        push_cast
        omega

lemma Sane.countP_unregister (h : Sane s queued d) {f : ℕ} (hf : s.cb j = some f) :
    s.mirror.countP (fun k => (s.cb k).isSome) =
      s.mirror.countP (fun k => (update s.cb j none k).isSome) + 1 := by
  refine countP_insert_one h.nodup (h.cb j f hf).2.1 ?_ ?_ fun k hk => ?_
  · simp
  · simp [hf]
  · rw [update_of_ne hk]

/-! ## The steps -/

section

variable (h : Sane s queued 0)

include h

lemma Sane.push (e : Entity) :
    Sane (pushJob s e) (update queued e (queued e ++ [⟨e, s.fenceSeq e + 1⟩])) 0 := by
  have hnew : (⟨e, s.fenceSeq e + 1⟩ : Job) ∉ queued e := fun hmem =>
    absurd (h.queued e _ hmem).2.1 (Nat.not_succ_le_self _)
  have hseq : ∀ e', s.fenceSeq e' ≤ (pushJob s e).fenceSeq e' := by
    intro e'
    by_cases he : e' = e
    · simp [pushJob, he]
    · simp [pushJob, he]
  refine ⟨fun e' => ?_, fun e' j hj => ?_, fun j hj => h.fresh j (lt_of_le_of_lt (hseq _) hj),
    h.ran, fun j hj => ?_, h.nodup, h.cb, h.work, h.count, h.refs, h.freed⟩
  · by_cases he : e' = e
    · subst he
      simpa [pushJob] using ((h.holds e').push hnew).1
    · simpa [pushJob, he] using h.holds e'
  · by_cases he : e' = e
    · subst he
      rw [update_self, mem_append, mem_singleton] at hj
      rcases hj with hj | rfl
      · obtain ⟨hentity, hseqno, hsig⟩ := h.queued e' j hj
        exact ⟨hentity, hseqno.trans (hseq e'), hsig⟩
      · exact ⟨rfl, by simp [pushJob], h.fresh _ (Nat.lt_succ_self _)⟩
    · rw [update_of_ne he] at hj
      obtain ⟨hentity, hseqno, hsig⟩ := h.queued e' j hj
      exact ⟨hentity, hseqno.trans (hseq e'), hsig⟩
  · exact { h.untouched j hj with }

/-- An iteration of `drm_sched_main` up to `run_job`: the count is one ahead. -/
lemma Sane.startJob {e : Entity} (hq : queued e = j :: l) :
    Sane (startJob s e j) (update queued e l) 1 ∧ Idle (startJob s e j) j := by
  obtain ⟨hentity, hseqno, hunsig⟩ := h.queued e j (by simp [hq])
  obtain ⟨hcb, hparent, hmirror, hfinished⟩ := h.untouched j hunsig
  have hnodup := (h.holds e).nodup
  rw [hq, nodup_cons] at hnodup
  have hsame : ∀ k, k ≠ j → (Sched.startJob s e j).signaled (.scheduled k) =
      s.signaled (.scheduled k) := by
    intro k hk
    simp [Sched.startJob, jobBegin, hk]
  have hself : (Sched.startJob s e j).signaled (.scheduled j) = true := by
    simp [Sched.startJob]
  have hfin : ∀ k, (Sched.startJob s e j).signaled (.finished k) = s.signaled (.finished k) := by
    simp [Sched.startJob, jobBegin]
  refine ⟨⟨fun e' => ?_, fun e' k hk => ?_, fun k hk => ?_, fun k => ?_, fun k hk => ?_, ?_,
    fun k f hk => ?_, fun k hk => ?_, ?_, h.refs, fun k hk => ?_⟩,
    ⟨hcb, hparent, (hfin j).trans hfinished⟩⟩
  · by_cases he : e' = e
    · subst he
      simpa [Sched.startJob, jobBegin] using ((hq ▸ h.holds e').pop).1
    · simpa [Sched.startJob, jobBegin, he] using h.holds e'
  · have hk' : k ∈ queued e' ∧ k ≠ j := by
      by_cases he : e' = e
      · subst he
        rw [update_self] at hk
        exact ⟨by simp [hq, hk], ne_of_mem_of_not_mem hk hnodup.1⟩
      · rw [update_of_ne he] at hk
        refine ⟨hk, ?_⟩
        rintro rfl
        exact he ((h.queued e' k hk).1.symm.trans hentity)
    rw [hsame k hk'.2]
    exact h.queued e' k hk'.1
  · have hkj : k ≠ j := by
      rintro rfl
      rw [hentity] at hk
      exact absurd hseqno (not_le.2 hk)
    rw [hsame k hkj]
    exact h.fresh k hk
  · by_cases hkj : k = j
    · rw [hkj]
      simp [Sched.startJob]
    · rw [hsame k hkj, ← h.ran]
      simp [Sched.startJob, jobBegin, hkj]
  · have hkj : k ≠ j := by
      rintro rfl
      rw [hself] at hk
      cases hk
    rw [hsame k hkj] at hk
    obtain ⟨hcb', hparent', hmirror', hfinished'⟩ := h.untouched k hk
    refine ⟨hcb', hparent', ?_, (hfin k).trans hfinished'⟩
    simpa [Sched.startJob, jobBegin, hkj] using hmirror'
  · change (s.mirror ++ [j]).Nodup
    rw [← concat_eq_append]
    exact h.nodup.concat hmirror
  · obtain ⟨hparent', hmirror', hfinished'⟩ := h.cb k f hk
    exact ⟨hparent', mem_append_left _ hmirror', (hfin k).trans hfinished'⟩
  · exact h.work k hk
  · change s.hwRqCount + 1 = ((s.mirror ++ [j]).countP fun k => (s.cb k).isSome : ℕ) + 1
    rw [h.count]
    simp [hcb]
  · exact h.freed k hk

lemma Sane.callback (hstep : callback s j = some s') : Sane s' queued 0 := by
  unfold Sched.callback at hstep
  split at hstep
  · rename_i f hf
    obtain ⟨-, hstep⟩ := ite_none_right_eq_some.1 hstep
    cases hstep
    obtain ⟨hparent, hmirror, hfinished⟩ := h.cb j f hf
    have hscheduled := h.scheduled hmirror
    refine Sane.processJob (s := { s with cb := update s.cb j none }) ?_ hscheduled
      (update_self ..)
    refine h.change (j := j) ?_ hscheduled (fun g hg => ?_) (h.work j) (h.refs j) (h.freed j) ?_
    · constructor <;> simp +contextual
    · simp at hg
    · rw [h.count, h.countP_unregister hf]
      push_cast
      omega
  · cases hstep

lemma Sane.jobFinish (hstep : jobFinish s j = some s') :
    Sane s' queued 0 ∧ s'.mirror = s.mirror.erase j ∧ s.signaled (.finished j) = true := by
  obtain ⟨hwork, hstep⟩ := ite_none_right_eq_some.1 hstep
  cases hstep
  have hfinished := h.work j (.inl hwork)
  have hcb := h.cb_eq_none hfinished
  refine ⟨⟨h.holds, h.queued, h.fresh, h.ran, fun k hk => ?_, h.nodup.erase j, fun k f hk => ?_,
    fun k hk => ?_, ?_, h.refs, h.freed⟩, rfl, hfinished⟩
  · obtain ⟨hcb', hparent', hmirror', hfinished'⟩ := h.untouched k hk
    exact ⟨hcb', hparent', fun hmem => hmirror' (mem_of_mem_erase hmem), hfinished'⟩
  · obtain ⟨hparent', hmirror', hfinished'⟩ := h.cb k f hk
    refine ⟨hparent', (mem_erase_of_ne ?_).2 hmirror', hfinished'⟩
    rintro rfl
    exact absurd (hcb.symm.trans hk) nofun
  · by_cases hkj : k = j
    · rw [hkj]
      exact hfinished
    · simp only [update_of_ne hkj] at hk
      exact h.work k hk
  · rw [h.count]
    by_cases hmem : j ∈ s.mirror
    · rw [(perm_cons_erase hmem).countP_eq, countP_cons_of_neg (by simp [hcb])]
    · rw [erase_of_not_mem hmem]

lemma Sane.fenceFree (hstep : fenceFree s j = some s') : Sane s' queued 0 := by
  obtain ⟨⟨hfreed, -⟩, hstep⟩ := ite_none_right_eq_some.1 hstep
  cases hstep
  have hfinished := h.work j (.inr hfreed)
  have hcb := h.cb_eq_none hfinished
  have hscheduled : s.signaled (.scheduled j) = true := by
    rw [← Bool.not_eq_false]
    intro hunsig
    rw [(h.untouched j hunsig).finished] at hfinished
    cases hfinished
  refine h.change (j := j) ?_ hscheduled (fun g hg => ?_) (h.work j) ?_
    (fun _ => ⟨hfinished, update_self ..⟩) h.count
  · constructor <;> (try split_ifs) <;> simp +contextual
  · exact absurd (hcb.symm.trans hg) nofun
  · have hrefs := h.refs j
    by_cases hparent : (s.parent j).isSome
    · rw [if_pos hparent] at hrefs ⊢
      simpa using hrefs
    · rw [if_neg hparent] at hrefs ⊢
      simpa using hrefs

/-! ## Reset -/

lemma Sane.resetJob (hj : Idle s j ∨ (s.cb j).isSome = true) :
    Sane (resetJob s j) queued 0 ∧ SameElse s (resetJob s j) j ∧ Idle (resetJob s j) j := by
  unfold Sched.resetJob
  rcases hj with hidle | hcb
  · rw [if_neg (by simp [hidle.cb])]
    exact ⟨h, by constructor <;> simp, hidle⟩
  · obtain ⟨f, hf⟩ := isSome_iff_exists.1 hcb
    obtain ⟨hparent, hmirror, hfinished⟩ := h.cb j f hf
    rw [if_pos ⟨by simp [hparent], hcb⟩]
    have hsame : SameElse s { s with
        parent := update s.parent j none
        cb := update s.cb j none
        dropped := update s.dropped j (s.dropped j + 1)
        hwRqCount := s.hwRqCount - 1 } j := by
      constructor <;> simp +contextual
    refine ⟨h.change hsame (h.scheduled hmirror) (fun g hg => ?_) (h.work j) ?_
      (fun hfreed => ⟨(h.freed j hfreed).1, update_self ..⟩) ?_, hsame,
      ⟨update_self .., update_self .., hfinished⟩⟩
    · simp at hg
    · have hrefs := h.refs j
      simpa [hparent] using hrefs
    · rw [h.count, h.countP_unregister hf]
      push_cast
      omega

end

lemma SameElse.idle {k : Job} (h : SameElse s s' j) (hk : k ≠ j) (hidle : Idle s k) : Idle s' k :=
  ⟨(h.cb k hk).trans hidle.cb, (h.parent k hk).trans hidle.parent,
    (h.finished k hk).trans hidle.finished⟩

lemma SameElse.busy {k : Job} (h : SameElse s s' j) (hk : k ≠ j) (hbusy : Busy s k) :
    Busy s' k := by
  unfold Busy at hbusy ⊢
  rw [h.cb k hk, h.finished k hk]
  exact hbusy

/-- The fields of the scheduler itself. -/
structure SameSched (s s' : State) : Prop where
  limit : s'.limit = s.limit
  mirror : s'.mirror = s.mirror
  recovery : s'.recovery = s.recovery
  resetPending : s'.resetPending = s.resetPending

lemma Sane.foldl_resetJob (l : List Job) (h : Sane s queued 0)
    (hl : ∀ j ∈ l, Idle s j ∨ (s.cb j).isSome = true) :
    Sane (l.foldl Sched.resetJob s) queued 0 ∧ SameSched s (l.foldl Sched.resetJob s) ∧
      (∀ j, Idle s j → Idle (l.foldl Sched.resetJob s) j) ∧
      ∀ j ∈ l, Idle (l.foldl Sched.resetJob s) j := by
  induction l generalizing s with
  | nil => exact ⟨h, ⟨rfl, rfl, rfl, rfl⟩, fun _ hj => hj, nofun⟩
  | cons j l ih =>
    obtain ⟨hreset, hsame, hidle⟩ := h.resetJob (hl j mem_cons_self)
    have hstays : ∀ k, Idle s k → Idle (Sched.resetJob s j) k := by
      intro k hk
      by_cases hkj : k = j
      · exact hkj ▸ hidle
      · exact hsame.idle hkj hk
    have hsched : SameSched s (Sched.resetJob s j) := by
      unfold Sched.resetJob
      split_ifs <;> exact ⟨rfl, rfl, rfl, rfl⟩
    obtain ⟨hsane, hsched', hidle', hl'⟩ := ih hreset fun k hk => by
      by_cases hkj : k = j
      · exact .inl (hkj ▸ hidle)
      · rw [hsame.cb k hkj]
        exact (hl k (.tail _ hk)).imp (hstays k) id
    refine ⟨hsane, ⟨hsched'.limit.trans hsched.limit, hsched'.mirror.trans hsched.mirror,
      hsched'.recovery.trans hsched.recovery, hsched'.resetPending.trans hsched.resetPending⟩,
      fun k hk => hidle' k (hstays k hk), fun k hk => ?_⟩
    rcases mem_cons.1 hk with rfl | hk
    · exact hidle' k hidle
    · exact hl' k hk

/-! ## The phases -/

lemma Phase.mono (h : Phase s rest) (hsched : SameSched s s')
    (hcount : s'.hwRqCount ≤ s.hwRqCount) (hidle : ∀ j ∈ rest, Idle s j → Idle s' j)
    (hbusy : ∀ j ∈ s.mirror, Busy s j → Busy s' j) : Phase s' rest where
  normal hpending := by
    rw [hsched.resetPending] at hpending
    obtain ⟨hrecovery, hle, hrest⟩ := h.normal hpending
    rw [hsched.limit, hsched.recovery]
    exact ⟨hrecovery, Int.le_trans hcount hle, hrest⟩
  length hpending := by
    rw [hsched.mirror, hsched.limit]
    exact h.length (hsched.resetPending ▸ hpending)
  suffix := hsched.mirror ▸ h.suffix
  idle j hj := hidle j hj (h.idle j hj)
  busy j hj hrest := by
    rw [hsched.mirror] at hj
    exact hbusy j hj (h.busy j hj hrest)
  cursor r hr := h.cursor r (hsched.recovery ▸ hr)
  start hpending hrecovery := by
    rw [hsched.mirror]
    exact h.start (hsched.resetPending ▸ hpending) (hsched.recovery ▸ hrecovery)

lemma Phase.of_normal (hpending : s.resetPending = false) (hrecovery : s.recovery = none)
    (hcount : s.hwRqCount ≤ s.limit) (hbusy : ∀ j ∈ s.mirror, Busy s j) : Phase s [] where
  normal _ := ⟨hrecovery, hcount, rfl⟩
  length h := absurd (h.symm.trans hpending) nofun
  suffix := nil_suffix
  idle := nofun
  busy j hj _ := hbusy j hj
  cursor _ hr := absurd (hrecovery.symm.trans hr) nofun
  start h := absurd (h.symm.trans hpending) nofun

lemma sameSched_processJob (s : State) (j : Job) : SameSched s (processJob s j) := by
  unfold processJob fenceFinished
  split_ifs <;> exact ⟨rfl, rfl, rfl, rfl⟩

lemma submit_spec (s : State) (j : Job) (hw : Option ℕ) :
    SameElse s (submit s j hw) j ∧ SameSched s (submit s j hw) ∧ Busy (submit s j hw) j ∧
      (submit s j hw).hwRqCount ≤ s.hwRqCount := by
  have hprocess : ∀ t : State, SameElse t (processJob t j) j ∧ SameSched t (processJob t j) ∧
      Busy (processJob t j) j ∧ (processJob t j).hwRqCount ≤ t.hwRqCount := by
    intro t
    obtain ⟨hfinished, hcount, -⟩ := processJob_spec t j
    refine ⟨sameElse_processJob t j, sameSched_processJob t j, .inr hfinished, ?_⟩
    omega
  cases hw with
  | none => exact hprocess s
  | some f =>
    unfold submit
    dsimp only
    split_ifs
    · obtain ⟨hsame, hsched, hbusy, hcount⟩ := hprocess { s with
        parent := update s.parent j (some f)
        taken := update s.taken j (s.taken j + 1) }
      refine ⟨{ hsame with parent := fun k hk => ?_, taken := fun k hk => ?_ }, { hsched with },
        hbusy, hcount⟩
      · rw [hsame.parent k hk]
        exact update_of_ne hk ..
      · rw [hsame.taken k hk]
        exact update_of_ne hk ..
    · exact ⟨by constructor <;> simp +contextual, ⟨rfl, rfl, rfl, rfl⟩, .inl (by simp),
        Int.le_refl _⟩

lemma next_of_suffix (hn : l.Nodup) (h : rest <:+ l) :
    (rest.head?.bind fun j => CircList.next l (some j)) = rest.tail.head? := by
  obtain ⟨front, rfl⟩ := h
  cases rest with
  | nil => rfl
  | cons j rest => exact nextAfter_eq hn rfl

/-! ## Runs -/

/-- The whole invariant. -/
def Balanced (limit : ℕ) (s : State) : Prop :=
  s.limit = limit ∧ ∃ queued rest, Sane s queued 0 ∧ Phase s rest

lemma balanced_init (limit : ℕ) (hangLimit : ℤ) (priority : Entity → ℕ)
    (guilty : Entity → Option Bool) : Balanced limit (init limit hangLimit priority guilty) := by
  refine ⟨rfl, fun _ => [], [], ⟨fun _ => Spsc.Queue.holds_init, nofun, fun _ _ => rfl, fun j => ?_,
    fun j _ => ⟨rfl, rfl, nofun, rfl⟩, nodup_nil, nofun, nofun, rfl, fun _ => rfl, nofun⟩,
    .of_normal rfl rfl (Int.natCast_nonneg _) nofun⟩
  simp [init]

lemma Balanced.runJob (hsane : Sane s queued 0) (hphase : Phase s [])
    (hpending : s.resetPending = false) (hroom : s.hwRqCount < s.limit) {e : Entity}
    (hq : queued e = j :: l) (hw : Option ℕ) :
    Balanced s.limit (runJob s e j hw) := by
  obtain ⟨hstart, hidle⟩ := hsane.startJob hq
  obtain ⟨hsame, hsched, hbusy, hle⟩ := submit_spec (startJob s e j) j hw
  refine ⟨hsched.limit, update queued e l, [],
    hstart.submit (mem_append_right _ mem_cons_self) hidle hw,
    .of_normal (hsched.resetPending.trans hpending)
      (hsched.recovery.trans (hphase.normal hpending).1) ?_ fun k hk => ?_⟩
  · have hlimit : (Sched.runJob s e j hw).limit = s.limit := hsched.limit
    rw [hlimit]
    exact Int.le_trans hle (Int.add_one_le_of_lt hroom)
  · by_cases hkj : k = j
    · exact hkj ▸ hbusy
    · refine hsame.busy hkj ?_
      have hmirror : (Sched.runJob s e j hw).mirror = s.mirror ++ [j] := hsched.mirror
      rw [hmirror, mem_append, mem_singleton, or_iff_left hkj] at hk
      rcases hphase.busy k hk not_mem_nil with hcb | hfinished
      · exact .inl hcb
      · refine .inr ?_
        simpa [Sched.startJob, jobBegin] using hfinished

/-- **An iteration of `drm_sched_main`.** Outside of a reset the count is the number that
`drm_sched_ready` compares, so that there is room for one more job. -/
theorem Balanced.main (hlimit : limit < 2 ^ 32) (h : Balanced limit s) {polls : List Fence}
    (hpending : s.resetPending = false) (hstep : mainIteration s polls hw = some s') :
    Balanced limit s' := by
  obtain ⟨rfl, queued, rest, hsane, hphase⟩ := h
  obtain ⟨hrecovery, hcount, rfl⟩ := hphase.normal hpending
  obtain ⟨i, e, j, hready, hpeek, -, hcases⟩ := mainIteration_cases hstep
  rcases hcases with ⟨pre, f, g, -, -, rfl⟩ | ⟨-, rfl⟩
  · refine ⟨rfl, queued, [], hsane.congr
      (fun _ => rfl) fun _ => rfl, hphase.mono ⟨rfl, rfl, rfl, rfl⟩ (Int.le_refl _) nofun
      fun _ _ hk => hk⟩
  · rw [(hsane.holds e).peek] at hpeek
    obtain ⟨l, hq⟩ := List.head?_eq_some_iff.1 hpeek
    refine Balanced.runJob (s := asked s i e j polls) (hsane.congr (fun _ => rfl) fun _ => rfl)
      (hphase.mono ⟨rfl, rfl, rfl, rfl⟩ (Int.le_refl _) nofun fun _ _ hk => hk) hpending ?_ hq hw
    have hmod : s.hwRqCount % 2 ^ 32 < s.limit := of_decide_eq_true hready
    change s.hwRqCount < s.limit
    omega

lemma Balanced.callback (h : Balanced limit s) (hstep : callback s j = some s') :
    Balanced limit s' := by
  obtain ⟨rfl, queued, rest, hsane, hphase⟩ := h
  have hsane' := hsane.callback hstep
  unfold Sched.callback at hstep
  split at hstep
  · rename_i f hf
    obtain ⟨-, hstep⟩ := ite_none_right_eq_some.1 hstep
    cases hstep
    obtain ⟨hfinished, hcount, hcb, -⟩ := processJob_spec { s with cb := update s.cb j none } j
    have hsched := sameSched_processJob { s with cb := update s.cb j none } j
    have hsame := sameElse_processJob { s with cb := update s.cb j none } j
    have hj : j ∉ rest := fun hj => absurd (hf.symm.trans (hphase.idle j hj).cb) nofun
    refine ⟨hsched.limit, queued, rest, hsane',
      hphase.mono { hsched with } ?_ (fun k hk hidle => ?_) fun k _ hbusy => ?_⟩
    · rw [hcount]
      exact Int.sub_le_self _ Int.one_nonneg
    · have hkj : k ≠ j := ne_of_mem_of_not_mem hk hj
      exact hsame.idle hkj { hidle with cb := (update_of_ne hkj ..).trans hidle.cb }
    · by_cases hkj : k = j
      · exact .inr (hkj ▸ hfinished)
      · refine hsame.busy hkj (hbusy.imp (fun hcb' => ?_) id)
        dsimp only
        rw [update_of_ne hkj]
        exact hcb'
  · cases hstep

lemma Phase.notMem_of_finished (h : Phase s rest) (hj : s.signaled (.finished j) = true) :
    j ∉ rest := by
  intro hmem
  rw [(h.idle j hmem).finished] at hj
  cases hj

lemma Balanced.jobFinish (h : Balanced limit s) (hstep : jobFinish s j = some s') :
    Balanced limit s' := by
  obtain ⟨rfl, queued, rest, hsane, hphase⟩ := h
  obtain ⟨hsane', -, hfinished⟩ := hsane.jobFinish hstep
  obtain ⟨-, hstep⟩ := ite_none_right_eq_some.1 hstep
  cases hstep
  have hj : j ∉ rest := hphase.notMem_of_finished hfinished
  refine ⟨rfl, queued, rest, hsane', hphase.normal, fun hpending => ?_, ?_, fun k hk => ?_,
    fun k hk hrest => ?_, hphase.cursor, fun hpending hrecovery => ?_⟩
  · exact Nat.le_trans length_erase_le (hphase.length hpending)
  · obtain ⟨front, hfront⟩ := hphase.suffix
    rw [← hfront]
    by_cases hmem : j ∈ front
    · rw [erase_append_left _ hmem]
      exact suffix_append ..
    · rw [erase_of_not_mem (by simp [hmem, hj])]
      exact suffix_append ..
  · exact { hphase.idle k hk with }
  · exact hphase.busy k (mem_of_mem_erase hk) hrest
  · have hall := hphase.start hpending hrecovery
    rw [← hall, erase_of_not_mem hj]

lemma Balanced.fenceFree (h : Balanced limit s) (hstep : fenceFree s j = some s') :
    Balanced limit s' := by
  obtain ⟨rfl, queued, rest, hsane, hphase⟩ := h
  have hsane' := hsane.fenceFree hstep
  obtain ⟨⟨hfreed, -⟩, hstep⟩ := ite_none_right_eq_some.1 hstep
  cases hstep
  have hj : j ∉ rest := hphase.notMem_of_finished (hsane.work j (.inr hfreed))
  refine ⟨rfl, queued, rest, hsane', hphase.mono ⟨rfl, rfl, rfl, rfl⟩ (Int.le_refl _)
    (fun k hk hidle => ?_) fun _ _ hbusy => hbusy⟩
  have hkj : k ≠ j := ne_of_mem_of_not_mem hk hj
  exact { hidle with parent := (update_of_ne hkj ..).trans hidle.parent }

lemma hwJobReset_eq (s : State) (bad : Option Job) : ∃ karma guilty,
    hwJobReset s bad = { s.mirror.reverse.foldl resetJob s with
      karma := karma
      guilty := guilty
      resetPending := true } := by
  unfold hwJobReset blame
  cases bad with
  | none => exact ⟨_, _, rfl⟩
  | some j =>
    dsimp only
    split_ifs <;> exact ⟨_, _, rfl⟩

lemma Phase.idle_or_cb (h : Phase s rest) (hj : j ∈ s.mirror)
    (hfinished : s.signaled (.finished j) = false) :
    Idle s j ∨ (s.cb j).isSome = true := by
  by_cases hrest : j ∈ rest
  · exact .inl (h.idle j hrest)
  · refine .inr ((h.busy j hj hrest).resolve_right ?_)
    rw [hfinished]
    exact Bool.false_ne_true

lemma Sane.length_le (h : Sane s queued 0) (hphase : Phase s rest)
    (hfinished : ∀ j ∈ s.mirror, s.signaled (.finished j) = false) : s.mirror.length ≤ s.limit := by
  cases hpending : s.resetPending with
  | true => exact hphase.length hpending
  | false =>
    obtain ⟨-, hle, rfl⟩ := hphase.normal hpending
    have hall : s.mirror.countP (fun j => (s.cb j).isSome) = s.mirror.length := by
      rw [countP_eq_length]
      intro j hj
      refine (hphase.busy j hj not_mem_nil).resolve_right ?_
      rw [hfinished j hj]
      exact Bool.false_ne_true
    rw [h.count] at hle
    omega

/-- **A reset.** All jobs of the mirror list lose their callbacks and wait to be run again. -/
theorem Balanced.reset (h : Balanced limit s) (bad : Option Job) (hrecovery : s.recovery = none)
    (hfinished : ∀ j ∈ s.mirror, s.signaled (.finished j) = false) :
    Balanced limit (hwJobReset s bad) := by
  obtain ⟨rfl, queued, rest, hsane, hphase⟩ := h
  obtain ⟨karma, guilty, heq⟩ := hwJobReset_eq s bad
  obtain ⟨hsane', hsched, -, hidle⟩ := hsane.foldl_resetJob s.mirror.reverse fun j hj => by
    rw [mem_reverse] at hj
    exact hphase.idle_or_cb hj (hfinished j hj)
  have hmirror := hsched.mirror
  rw [heq]
  refine ⟨hsched.limit, queued, s.mirror, hsane'.congr (fun _ => rfl) fun _ => rfl, nofun,
    fun _ => ?_, ?_, fun j hj => ?_, fun j hj hrest => ?_, fun r hr => ?_,
    fun _ _ => hmirror.symm⟩
  · rw [hmirror, hsched.limit]
    exact hsane.length_le hphase hfinished
  · simp only [hmirror, suffix_rfl]
  · exact { hidle j (mem_reverse.2 hj) with }
  · exact absurd (hmirror ▸ hj) hrest
  · exact absurd (hrecovery.symm.trans (hsched.recovery.symm.trans hr)) nofun

lemma Balanced.recoveryStart (h : Balanced limit s) (hpending : s.resetPending = true)
    (hstep : recoveryStart s = some s') :
    Balanced limit s' := by
  obtain ⟨rfl, queued, rest, hsane, hphase⟩ := h
  obtain ⟨hrecovery, hstep⟩ := ite_none_right_eq_some.1 hstep
  cases hstep
  obtain rfl := hphase.start hpending hrecovery
  refine ⟨rfl, queued, s.mirror, hsane.congr
    (fun _ => rfl) fun _ => rfl, fun h => absurd (h.symm.trans hpending) nofun, hphase.length,
    suffix_rfl, fun k hk => ?_, hphase.busy, fun r hr => ?_, nofun⟩
  · exact { hphase.idle k hk with }
  · cases hr
    exact ⟨rfl, next_of_suffix hsane.nodup suffix_rfl⟩

/-- The state in which a recovery has called `run_job`. -/
def rerun (s : State) (j : Job) (recovery : Recovery) (canceled : Job → Bool) : State :=
  { s with
    recovery := some recovery
    canceled := canceled
    ran := s.ran ++ [j]
    hwRqCount := s.hwRqCount + 1 }

lemma recoveryTurn_cases (h : recoveryTurn s hw = some s') :
    ∃ r, s.recovery = some r ∧
      (r.sJob = none ∧ s' = { s with recovery := none, resetPending := false } ∨
        ∃ j guilty canceled, r.sJob = some j ∧ j ∈ s.mirror ∧
          s' = submit (rerun s j
            ⟨r.tmp, r.tmp.bind fun t => CircList.next s.mirror (some t), guilty⟩ canceled)
            j hw) := by
  obtain ⟨r, hr, hstep⟩ := bind_eq_some_iff.1 h
  refine ⟨r, hr, ?_⟩
  cases hjob : r.sJob with
  | none =>
    rw [hjob] at hstep
    cases hstep
    exact .inl ⟨rfl, rfl⟩
  | some j =>
    rw [hjob] at hstep
    obtain ⟨⟨hj, -⟩, hstep⟩ := ite_none_right_eq_some.1 hstep
    cases hstep
    exact .inr ⟨j, _, _, rfl, hj, rfl⟩

lemma Sane.rerun (h : Sane s queued 0) (hj : j ∈ s.mirror) (recovery : Recovery)
    (canceled : Job → Bool) :
    Sane (rerun s j recovery canceled) queued 1 := by
  have hscheduled := h.scheduled hj
  refine { h with ran := fun k => ?_, untouched := fun k hk => ?_, count := ?_ }
  · change k ∈ s.ran ++ [j] ↔ s.signaled (.scheduled k) = true
    rw [mem_append, mem_singleton, h.ran]
    constructor
    · rintro (hk | rfl)
      · exact hk
      · exact hscheduled
    · exact .inl
  · exact { h.untouched k hk with }
  · change s.hwRqCount + 1 = (s.mirror.countP fun k => (s.cb k).isSome : ℕ) + 1
    rw [h.count]
    omega

/-- **A turn of the loop of a recovery.** The job is the first one of those to be run again, and the
variable `tmp` leads to the second one. After the last job the count is at most the length of the
mirror list. -/
theorem Balanced.recoveryTurn (h : Balanced limit s) (hstep : recoveryTurn s hw = some s') :
    Balanced limit s' := by
  obtain ⟨rfl, queued, rest, hsane, hphase⟩ := h
  obtain ⟨r, hr, hcases⟩ := recoveryTurn_cases hstep
  obtain ⟨hjob, htmp⟩ := hphase.cursor r hr
  have hpending : s.resetPending = true := by
    rw [← Bool.not_eq_false]
    exact fun hpending => absurd ((hphase.normal hpending).1.symm.trans hr) nofun
  rcases hcases with ⟨hnone, rfl⟩ | ⟨j, guilty, canceled, hsome, hj, rfl⟩
  · obtain rfl : rest = [] := List.head?_eq_none_iff.1 (hjob.symm.trans hnone)
    refine ⟨rfl, queued, [], hsane.congr
      (fun _ => rfl) fun _ => rfl, .of_normal rfl rfl ?_ fun k hk => ?_⟩
    · exact Int.le_trans hsane.count_le (Int.ofNat_le.2 (hphase.length hpending))
    · exact hphase.busy k hk not_mem_nil
  · obtain ⟨rest, rfl⟩ := List.head?_eq_some_iff.1 (hjob.symm.trans hsome)
    obtain ⟨recovery, hrecovery⟩ : ∃ recovery : Recovery, (⟨r.tmp, r.tmp.bind fun t =>
      CircList.next s.mirror (some t), guilty⟩ : Recovery) = recovery := ⟨_, rfl⟩
    obtain ⟨hsame, hsched, hbusy, -⟩ := submit_spec (rerun s j recovery canceled) j hw
    have hsuffix : rest <:+ s.mirror := (suffix_cons j rest).trans hphase.suffix
    have hnodup := hsane.nodup.sublist hphase.suffix.sublist
    rw [nodup_cons] at hnodup
    have hidle : Idle (rerun s j recovery canceled) j :=
      { hphase.idle j mem_cons_self with }
    have hmem : j ∈ (rerun s j recovery canceled).mirror := hj
    rw [hrecovery]
    refine ⟨hsched.limit, queued, rest, (hsane.rerun hj recovery canceled).submit hmem hidle hw,
      fun h => ?_, fun _ => ?_, ?_, fun k hk => ?_, fun k hk hrest => ?_, fun r' hr' => ?_,
      fun _ h => ?_⟩
    · exact absurd (h.symm.trans (hsched.resetPending.trans hpending)) nofun
    · rw [hsched.mirror, hsched.limit]
      exact hphase.length hpending
    · rw [hsched.mirror]
      exact hsuffix
    · exact hsame.idle (ne_of_mem_of_not_mem hk hnodup.1)
        { hphase.idle k (.tail _ hk) with }
    · by_cases hkj : k = j
      · exact hkj ▸ hbusy
      · rw [hsched.mirror] at hk
        refine hsame.busy hkj (hphase.busy k hk ?_)
        rw [mem_cons, not_or]
        exact ⟨hkj, hrest⟩
    · obtain rfl : recovery = r' := mem_unique hsched.recovery hr'
      rw [← hrecovery]
      rw [htmp]
      exact ⟨rfl, next_of_suffix hsane.nodup hsuffix⟩
    · exact absurd (hsched.recovery.symm.trans h) nofun

lemma Balanced.step (hlimit : limit < 2 ^ 32) (h : Balanced limit s) {a : Act} (ha : Careful s a)
    (hstep : step a s = some s') : Balanced limit s' := by
  cases a with
  | main polls hw => exact h.main hlimit ha hstep
  | callback j => exact h.callback hstep
  | jobFinish j => exact h.jobFinish hstep
  | fenceFree j => exact h.fenceFree hstep
  | recoveryStart => exact h.recoveryStart ha hstep
  | recoveryTurn hw => exact h.recoveryTurn hstep
  | reset bad =>
    cases hstep
    exact h.reset bad ha.1 ha.2
  | push e =>
    cases hstep
    obtain ⟨rfl, queued, rest, hsane, hphase⟩ := h
    exact ⟨rfl, _, rest, hsane.push e, hphase.mono ⟨rfl, rfl, rfl, rfl⟩ (Int.le_refl _)
      (fun _ _ hk => { hk with }) fun _ _ hk => hk⟩
  | signal id =>
    cases hstep
    obtain ⟨rfl, queued, rest, hsane, hphase⟩ := h
    refine ⟨rfl, queued, rest, hsane.congr
      (fun _ => ?_) fun _ => ?_, hphase.mono ⟨rfl, rfl, rfl, rfl⟩ (Int.le_refl _)
      (fun _ _ hk => ⟨hk.cb, hk.parent, ?_⟩) fun _ _ hk => hk.imp (fun hcb => hcb) fun hf => ?_⟩
    · simp
    · simp
    · simpa using hk.finished
    · simpa using hf
  | depCallback e =>
    change depCallback s e = some s' at hstep
    unfold depCallback at hstep
    split at hstep
    · obtain ⟨-, hstep⟩ := ite_none_right_eq_some.1 hstep
      cases hstep
      obtain ⟨rfl, queued, rest, hsane, hphase⟩ := h
      exact ⟨rfl, queued, rest, hsane.congr
        (fun _ => rfl) fun _ => rfl, hphase.mono ⟨rfl, rfl, rfl, rfl⟩ (Int.le_refl _)
        (fun _ _ hk => { hk with }) fun _ _ hk => hk⟩
    · cases hstep

lemma Sane.count_ran (h : Sane s queued 0) :
    s.hwRqCount = (s.ran.dedup.countP fun j => (s.cb j).isSome : ℕ) := by
  have hperm : (s.mirror.filter fun j => (s.cb j).isSome).Perm
      (s.ran.dedup.filter fun j => (s.cb j).isSome) := by
    refine (perm_ext_iff_of_nodup (h.nodup.filter _) ((nodup_dedup _).filter _)).2
      fun j => ?_
    rw [mem_filter, mem_filter, mem_dedup, and_congr_left_iff]
    intro hcb
    obtain ⟨f, hf⟩ := isSome_iff_exists.1 hcb
    have hmirror := (h.cb j f hf).2.1
    exact ⟨fun _ => (h.ran j).2 (h.scheduled hmirror), fun _ => hmirror⟩
  rw [h.count, countP_eq_length_filter, countP_eq_length_filter, hperm.length_eq]
  omega

/-- **The count of submitted jobs.** In every state that a careful run reaches, `hw_rq_count` is the
number of jobs that were run and whose callback is registered, is not negative and does not exceed
the limit; it is zero when the hardware fences of all jobs are signaled and their callbacks have
run. Of the references to hardware fences that a job has taken, all are dropped but the one that
`parent` holds, and none is left when the fences of the job are freed.

**Proof sketch.** The count is compared with the callbacks of the jobs on the mirror list. A reset
turns each of these into a job without a hardware fence, and the recovery goes through the list from
the head and makes each of them busy again; the part of the list that is still to be run is the
invariant of its loop. -/
theorem hw_rq_count_balanced {limit : ℕ} {hangLimit : ℤ} {priority : Entity → ℕ}
    {guilty : Entity → Option Bool} {s : State} (hlimit : limit < 2 ^ 32)
    (h : Machine.Runs step Careful (init limit hangLimit priority guilty) s) :
    s.hwRqCount = (s.ran.dedup.countP fun j => (s.cb j).isSome : ℕ) ∧
      0 ≤ s.hwRqCount ∧ s.hwRqCount ≤ limit ∧
      ((∀ j f, s.cb j = some f → s.signaled (.other f) = true) → (∀ j, callback s j = none) →
        s.hwRqCount = 0) ∧
      (∀ j, s.taken j = s.dropped j + if (s.parent j).isSome then 1 else 0) ∧
      ∀ j, s.fenceFreed j = true → s.taken j = s.dropped j := by
  obtain ⟨rfl, queued, rest, hsane, hphase⟩ : Balanced limit s :=
    Machine.Runs.invariant (P := Balanced limit) (balanced_init limit hangLimit priority guilty)
      (fun _ _ _ hbal ha hstep => hbal.step hlimit ha hstep) h
  have hcount := hsane.count_ran
  refine ⟨hcount, ?_, ?_, fun hsignaled hrun => ?_, hsane.refs, fun j hj => ?_⟩
  · rw [hcount]
    exact Int.natCast_nonneg _
  · cases hpending : s.resetPending with
    | true => exact Int.le_trans hsane.count_le (Int.ofNat_le.2 (hphase.length hpending))
    | false => exact (hphase.normal hpending).2.1
  · rw [hcount, countP_eq_zero.2]
    · rfl
    · intro j _ hcb
      obtain ⟨f, hf⟩ := isSome_iff_exists.1 hcb
      have hnone := hrun j
      simp [callback, hf, hsignaled j f hf] at hnone
  · have hrefs := hsane.refs j
    rw [(hsane.freed j hj).2] at hrefs
    exact hrefs

/-- Two jobs are on the hardware when it is reset; the recovery runs both again, and the first one
is finished and freed. -/
def resetOfTwo : List Act :=
  [.push 0, .main [] (some 0), .push 0, .main [] (some 1), .reset (some ⟨0, 1⟩), .recoveryStart,
    .recoveryTurn (some 2), .recoveryTurn (some 3), .signal 2, .callback ⟨0, 1⟩, .recoveryTurn none,
    .jobFinish ⟨0, 1⟩, .fenceFree ⟨0, 1⟩]

/-- The second job is left on the hardware; the first one has dropped both references. -/
theorem hw_rq_count_balanced_resetOfTwo : ∃ s,
    Machine.execIf step Careful (init 2 0 (fun _ => 1) fun _ => none) resetOfTwo = some s ∧
      s.hwRqCount = 1 ∧ s.taken ⟨0, 1⟩ = 2 ∧ s.fenceFreed ⟨0, 1⟩ = true ∧
      s.hwRqCount ≤ (2 : ℕ) ∧ s.taken ⟨0, 1⟩ = s.dropped ⟨0, 1⟩ := by
  obtain ⟨s, hs, hobs⟩ := map_eq_some_iff.1
    (show (Machine.execIf step Careful (init 2 0 (fun _ => 1) fun _ => none) resetOfTwo).map
      (fun s => (s.hwRqCount, s.taken ⟨0, 1⟩, s.fenceFreed ⟨0, 1⟩)) = some (1, 2, true) by
        decide +kernel)
  obtain ⟨hcount, htaken, hfreed⟩ : s.hwRqCount = 1 ∧ s.taken ⟨0, 1⟩ = 2 ∧
      s.fenceFreed ⟨0, 1⟩ = true := by simpa using hobs
  obtain ⟨-, -, hle, -, -, hdropped⟩ := hw_rq_count_balanced (by decide) (Machine.execIf_runs hs)
  exact ⟨s, hs, hcount, htaken, hfreed, hle, hdropped _ hfreed⟩

/-- **The recovery of a finished job.** With a limit of one job, the first job is finished but still
on the mirror list when the hardware is reset for the second one. The recovery submits both of
them, and the first reference of the first job is lost. -/
theorem recovery_of_finished : ∃ s,
    Machine.exec step (init 1 0 (fun _ => 1) fun _ => none)
        [.push 0, .main [] (some 0), .signal 0, .callback ⟨0, 1⟩, .push 0, .main [] (some 1),
          .reset none, .recoveryStart, .recoveryTurn (some 2), .recoveryTurn (some 3)] = some s ∧
      s.limit = 1 ∧ s.hwRqCount = 2 ∧ s.taken ⟨0, 1⟩ = 2 ∧ s.dropped ⟨0, 1⟩ = 0 ∧
      s.parent ⟨0, 1⟩ = some 2 := by
  refine ⟨_, rfl, ?_, ?_, ?_, ?_, ?_⟩ <;> decide +kernel

end KmsDrm.Sched
