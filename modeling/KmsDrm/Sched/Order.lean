import KmsDrm.Sched.Basic
import KmsDrm.Spsc.Safety

/-!
# The order of the jobs of an entity

Without resets the jobs of an entity are run in the order in which they were pushed, each once, and
the fence `finished` of a job is signaled once, after the job was run. A job waits for the fences
that its dependency callback returns, with two exceptions that the code makes on purpose: fences of
the entity itself are ignored, and for a job of the same scheduler it is enough that it is
scheduled.

## Main results

* `Sched.mainIteration_cases` — what an iteration of `drm_sched_main` does.
* `Sched.sched_order` — order, dependencies and completion in every run without a reset.
* `Sched.run_before_finished` — a job is run before a fence it depends on is signaled.
-/

namespace KmsDrm.Sched

open KmsDrm.Lib List Option
open Function (update update_eq_self update_idem update_of_ne update_self)

variable {e : Entity} {queued : Entity → List Job} {j : Job} {polls : List Fence} {hw : Option ℕ}
  {s s' : State}

/-! ## What the functions do -/

/-- The entity does not have to wait for the fence. -/
def Met (s : State) (e : Entity) (f : Fence) : Prop :=
  ∀ g, waitFor e f = some g → s.signaled g = true

/-- The loop of `drm_sched_entity_pop_job` gets to its end if all fences are met, and stops at the
first one that is not. -/
lemma pollDependencies_cases (s : State) (e : Entity) (j : Job) (fs : List Fence) :
    (pollDependencies s e j fs =
        ({ s with returned := update s.returned j (s.returned j ++ fs) }, false) ∧
      ∀ f ∈ fs, Met s e f) ∨
    ∃ pre f g, pollDependencies s e j fs =
        ({ s with
            returned := update s.returned j (s.returned j ++ (pre ++ [f]))
            dep := update s.dep e (some g) }, true) ∧
      waitFor e f = some g ∧ ∀ f ∈ pre, Met s e f := by
  induction fs generalizing s with
  | nil =>
    left
    simp [pollDependencies]
  | cons f fs ih =>
    by_cases hmet : Met s e f
    · -- the fence is ignored or signaled, so the next one is asked for
      have hpass : addDependencyCb
          { s with returned := update s.returned j (s.returned j ++ [f]) } e f =
          ({ s with returned := update s.returned j (s.returned j ++ [f]) }, false) := by
        unfold addDependencyCb
        split
        · rfl
        · rename_i g hg
          rw [if_pos (hmet g hg)]
      simp only [pollDependencies, hpass]
      rcases ih { s with returned := update s.returned j (s.returned j ++ [f]) } with
        ⟨heq, hall⟩ | ⟨pre, f', g, heq, hwait, hall⟩
      · left
        simp only [update_self, update_idem, append_assoc] at heq
        exact ⟨heq, forall_mem_cons.2 ⟨hmet, hall⟩⟩
      · right
        simp only [update_self, update_idem, append_assoc] at heq
        exact ⟨f :: pre, f', g, heq, hwait, forall_mem_cons.2 ⟨hmet, hall⟩⟩
    · right
      obtain ⟨g, hg, hsig⟩ : ∃ g, waitFor e f = some g ∧ s.signaled g = false := by
        simpa [Met] using hmet
      refine ⟨[], f, g, ?_, hg, by simp⟩
      simp [pollDependencies, addDependencyCb, hg, hsig]

lemma submit_cases (h : s.signaled (.finished j) = false) (hw : Option ℕ) :
    (∃ f, hw = some f ∧ submit s j hw = { s with
        parent := update s.parent j (some f)
        taken := update s.taken j (s.taken j + 1)
        cb := update s.cb j (some f) }) ∨
    ∃ p t, (hw = none ∧ p = s.parent ∧ t = s.taken ∨ ∃ f, hw = some f ∧
          p = update s.parent j (some f) ∧
          t = update s.taken j (s.taken j + 1)) ∧
        submit s j hw = { s with
          parent := p
          taken := t
          hwRqCount := s.hwRqCount - 1
          signaled := update s.signaled (.finished j) true
          finishWork := update s.finishWork j (s.finishWork j || s.finishCb j)
          finishCb := update s.finishCb j false
          finishes := s.finishes ++ [j] } := by
  cases hw with
  | none =>
    refine .inr ⟨s.parent, s.taken, .inl ⟨rfl, rfl, rfl⟩, ?_⟩
    simp [submit, processJob, fenceFinished, h]
  | some f =>
    by_cases hsig : s.signaled (.other f) = true
    · refine .inr ⟨_, _, .inr ⟨f, rfl, rfl, rfl⟩, ?_⟩
      simp [submit, processJob, fenceFinished, h, hsig]
    · refine .inl ⟨f, rfl, ?_⟩
      simp [submit, hsig]

lemma signal_mono {f g : Fence} (hg : s.signaled g = true) :
    update s.signaled f true g = true := by
  by_cases hgf : g = f
  · rw [hgf, update_self]
  · rw [update_of_ne hgf, hg]

lemma submit_frame (s : State) (j : Job) (hw : Option ℕ) :
    (submit s j hw).queue = s.queue ∧ (submit s j hw).pushed = s.pushed ∧
      (submit s j hw).ran = s.ran ∧ (submit s j hw).fenceSeq = s.fenceSeq ∧
      (submit s j hw).returned = s.returned ∧ (submit s j hw).dep = s.dep ∧
      ∀ g, s.signaled g = true → (submit s j hw).signaled g = true := by
  unfold submit processJob fenceFinished
  cases hw with
  | none =>
    split_ifs
    · exact ⟨rfl, rfl, rfl, rfl, rfl, rfl, fun _ hg => hg⟩
    · exact ⟨rfl, rfl, rfl, rfl, rfl, rfl, fun _ => signal_mono⟩
  | some f =>
    dsimp only
    split_ifs
    · exact ⟨rfl, rfl, rfl, rfl, rfl, rfl, fun _ hg => hg⟩
    · exact ⟨rfl, rfl, rfl, rfl, rfl, rfl, fun _ => signal_mono⟩
    · exact ⟨rfl, rfl, rfl, rfl, rfl, rfl, fun _ hg => hg⟩

lemma selectEntity_ready {i : ℕ} (h : selectEntity s = some (i, e)) :
    schedReady s = true ∧ (∃ j, (s.queue e).peek = some j) ∧ s.dep e = none := by
  obtain ⟨hready, h⟩ := ite_none_right_eq_some.1 h
  obtain ⟨k, -, hk⟩ := exists_of_findSome?_eq_some h
  obtain ⟨e', he', heq⟩ := map_eq_some_iff.1 hk
  obtain ⟨rfl, rfl⟩ := Prod.mk.inj heq
  have hent : entityIsReady s e' = true := by
    unfold rqSelectEntity at he'
    split at he'
    · rcases or_eq_some_iff.1 he' with hfind | ⟨-, hfind⟩
      · exact List.find?_some hfind
      · exact List.find?_some hfind
    · exact List.find?_some he'
  rw [entityIsReady, Bool.and_eq_true, isSome_iff_exists, isNone_iff_eq_none] at hent
  exact ⟨hready, hent⟩

/-- The state after an entity was selected and asked for the dependencies of its job. -/
def asked (s : State) (i : ℕ) (e : Entity) (j : Job) (polls : List Fence) : State :=
  { s with
    rq := update s.rq i { s.rq i with currentEntity := some e }
    returned := update s.returned j (s.returned j ++ polls) }

/-- **What an iteration of `drm_sched_main` does.** It selects an entity that has a job and waits
for nothing, and asks for the dependencies of the job. Then either the entity has to wait for one
of them, or all are met and the job is run. -/
theorem mainIteration_cases (h : mainIteration s polls hw = some s') :
    ∃ i e j, schedReady s = true ∧ (s.queue e).peek = some j ∧ s.dep e = none ∧
      ((∃ pre f g, waitFor e f = some g ∧ (∀ f ∈ pre, Met s e f) ∧
          s' = { asked s i e j (pre ++ [f]) with dep := update s.dep e (some g) }) ∨
        (∀ f ∈ polls, Met s e f) ∧ s' = runJob (asked s i e j polls) e j hw) := by
  obtain ⟨⟨i, e⟩, hsel, rfl⟩ := map_eq_some_iff.1 h
  obtain ⟨hready, ⟨j, hpeek⟩, hdep⟩ := selectEntity_ready hsel
  refine ⟨i, e, j, hready, hpeek, hdep, ?_⟩
  simp only [entityTurn, hpeek]
  rcases pollDependencies_cases { s with
      rq := update s.rq i { s.rq i with currentEntity := some e } } e j polls with
    ⟨heq, hall⟩ | ⟨pre, f, g, heq, hwait, hall⟩
  · right
    refine ⟨hall, ?_⟩
    rw [heq]
    rfl
  · left
    refine ⟨pre, f, g, hwait, hall, ?_⟩
    rw [heq]
    rfl

/-! ## The invariants -/

/-- The jobs of an entity: those that were run, and those that are in its queue. -/
structure Queues (s : State) (queued : Entity → List Job) : Prop where
  holds : ∀ e, (s.queue e).Holds (queued e)
  pushed : ∀ e, s.pushed e = s.ran.filter (fun j => j.entity = e) ++ queued e
  nodup : ∀ e, (s.pushed e).Nodup
  entity : ∀ e, ∀ j ∈ s.pushed e, j.entity = e ∧ j.seqno ≤ s.fenceSeq e

/-- The dependency callback was asked for the first job of a queue only; of what it returned for
this job all is met, apart from the fence that the entity waits for. -/
structure Deps (s : State) (queued : Entity → List Job) : Prop where
  fresh : ∀ j : Job, s.fenceSeq j.entity < j.seqno → s.returned j = []
  tail : ∀ e, ∀ j ∈ (queued e).tail, s.returned j = []
  head : ∀ e j, (queued e).head? = some j → ∀ f ∈ s.returned j, ∀ g, waitFor e f = some g →
    s.signaled g = true ∨ s.dep e = some g

/-- A job that was run is finished, or the callback of its hardware fence is registered. -/
structure Finish (s : State) : Prop where
  nodup : s.finishes.Nodup
  signaled : ∀ j, s.signaled (.finished j) = true ↔ j ∈ s.finishes
  ran : ∀ j ∈ s.finishes, j ∈ s.ran
  pending : ∀ j ∈ s.ran, j ∉ s.finishes → (s.cb j).isSome = true
  cb : ∀ j, (s.cb j).isSome = true → j ∈ s.ran ∧ j ∉ s.finishes

lemma Queues.notMem_ran (h : Queues s queued) (hj : j ∈ queued e) : j.entity = e ∧ j ∉ s.ran := by
  have hpushed := h.pushed e
  have hentity := (h.entity e j (by rw [hpushed]; exact mem_append_right _ hj)).1
  refine ⟨hentity, fun hran => ?_⟩
  have hnodup := h.nodup e
  rw [hpushed, nodup_append] at hnodup
  exact hnodup.2.2 j (mem_filter.2 ⟨hran, by simpa using hentity⟩) j hj rfl

lemma Queues.ran_nodup (h : Queues s queued) : s.ran.Nodup := by
  rw [nodup_iff_count_le_one]
  intro j
  have hle := nodup_iff_count_le_one.1 (h.nodup j.entity) j
  rw [h.pushed, count_append, count_filter (by simp)] at hle
  omega

lemma Queues.congr (h : Queues s queued) (hqueue : s'.queue = s.queue)
    (hpushed : s'.pushed = s.pushed) (hran : s'.ran = s.ran) (hseq : s'.fenceSeq = s.fenceSeq) :
    Queues s' queued :=
  ⟨hqueue ▸ h.holds, by rw [hpushed, hran]; exact h.pushed, hpushed ▸ h.nodup,
    by rw [hpushed, hseq]; exact h.entity⟩

lemma Deps.mono (h : Deps s queued) (hseq : s'.fenceSeq = s.fenceSeq)
    (hreturned : s'.returned = s.returned) (hsig : ∀ g, s.signaled g = true → s'.signaled g = true)
    (hdep : ∀ e g, s.dep e = some g → s'.signaled g = true ∨ s'.dep e = some g) :
    Deps s' queued where
  fresh := by
    rw [hseq, hreturned]
    exact h.fresh
  tail := by
    rw [hreturned]
    exact h.tail
  head e j hj f hf g hg := by
    rw [hreturned] at hf
    exact (h.head e j hj f hf g hg).elim (fun hs => .inl (hsig g hs)) (hdep e g)

lemma Finish.congr (h : Finish s) (hfinishes : s'.finishes = s.finishes) (hran : s'.ran = s.ran)
    (hcb : s'.cb = s.cb) (hsig : ∀ j, s'.signaled (.finished j) = s.signaled (.finished j)) :
    Finish s' := by
  constructor
  · rw [hfinishes]
    exact h.nodup
  · intro j
    rw [hsig, hfinishes]
    exact h.signaled j
  · rw [hfinishes, hran]
    exact h.ran
  · rw [hfinishes, hran, hcb]
    exact h.pending
  · rw [hfinishes, hran, hcb]
    exact h.cb

/-! ## The steps -/

lemma Queues.push (h : Queues s queued) (e : Entity) :
    Queues (pushJob s e)
      (update queued e (queued e ++ [⟨e, s.fenceSeq e + 1⟩])) := by
  have hnew : (⟨e, s.fenceSeq e + 1⟩ : Job) ∉ s.pushed e := fun hmem =>
    absurd (h.entity e _ hmem).2 (Nat.not_succ_le_self _)
  have hnotin : (⟨e, s.fenceSeq e + 1⟩ : Job) ∉ queued e := fun hmem =>
    hnew (by rw [h.pushed]; exact mem_append_right _ hmem)
  constructor
  · intro e'
    by_cases he : e' = e
    · subst he
      simpa [pushJob] using ((h.holds e').push hnotin).1
    · simpa [pushJob, he] using h.holds e'
  · intro e'
    by_cases he : e' = e
    · subst he
      simp [pushJob, h.pushed]
    · simpa [pushJob, he] using h.pushed e'
  · intro e'
    by_cases he : e' = e
    · subst he
      simp only [pushJob, update_self]
      rw [← concat_eq_append]
      exact (h.nodup e').concat hnew
    · simpa [pushJob, he] using h.nodup e'
  · intro e' j hj
    by_cases he : e' = e
    · subst he
      simp only [pushJob, update_self, mem_append, mem_singleton] at hj ⊢
      rcases hj with hj | rfl
      · exact ⟨(h.entity e' j hj).1, Nat.le_succ_of_le (h.entity e' j hj).2⟩
      · exact ⟨rfl, le_rfl⟩
    · simp only [pushJob, update_of_ne he] at hj ⊢
      exact h.entity e' j hj

lemma Deps.push (h : Deps s queued) (e : Entity) :
    Deps (pushJob s e) (update queued e (queued e ++ [⟨e, s.fenceSeq e + 1⟩])) := by
  have hnew : s.returned ⟨e, s.fenceSeq e + 1⟩ = [] := h.fresh _ (Nat.lt_succ_self _)
  constructor
  · intro j hj
    refine h.fresh j (lt_of_le_of_lt ?_ hj)
    by_cases he : j.entity = e
    · simp [pushJob, he]
    · simp [pushJob, he]
  · intro e' j hj
    by_cases he : e' = e
    · subst he
      rw [update_self] at hj
      cases hq : queued e' with
      | nil => simp [hq] at hj
      | cons k l =>
        rw [hq, cons_append, tail_cons, mem_append, mem_singleton] at hj
        rcases hj with hj | rfl
        · exact h.tail e' j (by rw [hq]; exact hj)
        · exact hnew
    · rw [update_of_ne he] at hj
      exact h.tail e' j hj
  · intro e' j hj
    by_cases he : e' = e
    · subst he
      rw [update_self] at hj
      cases hq : queued e' with
      | nil =>
        rw [hq] at hj
        cases hj
        intro f hf
        rw [show (pushJob s e').returned _ = s.returned _ from rfl, hnew] at hf
        cases hf
      | cons k l =>
        rw [hq] at hj
        exact h.head e' j (by rw [hq]; exact hj)
    · rw [update_of_ne he] at hj
      exact h.head e' j hj

lemma Queues.run (h : Queues s queued) {l : List Job} (hq : queued e = j :: l)
    (hqueue : s'.queue = update s.queue e (s.queue e).pop.1)
    (hpushed : s'.pushed = s.pushed) (hran : s'.ran = s.ran ++ [j])
    (hseq : s'.fenceSeq = s.fenceSeq) : Queues s' (update queued e l) := by
  have hentity := (h.notMem_ran (show j ∈ queued e by simp [hq])).1
  constructor
  · intro e'
    by_cases he : e' = e
    · subst he
      have hpop := ((hq ▸ h.holds e').pop).1
      simpa [hqueue] using hpop
    · simpa [hqueue, he] using h.holds e'
  · intro e'
    rw [hpushed, hran, h.pushed]
    by_cases he : e' = e
    · subst he
      simp [hq, hentity]
    · have hne : ¬ j.entity = e' := by
        rw [hentity]
        exact Ne.symm he
      simp [he, hne]
  · rw [hpushed]
    exact h.nodup
  · rw [hpushed, hseq]
    exact h.entity

lemma Deps.run (h : Deps s queued) {l : List Job} (hnodup : (j :: l).Nodup)
    (hseqno : j.seqno ≤ s.fenceSeq j.entity) (hq : queued e = j :: l) {fs : List Fence}
    (hother : ∀ e' ≠ e, j ∉ queued e') (hreturned : s'.returned = update s.returned j fs)
    (hseq : s'.fenceSeq = s.fenceSeq) (hdep : s'.dep = s.dep)
    (hsig : ∀ g, s.signaled g = true → s'.signaled g = true) :
    Deps s' (update queued e l) := by
  have hkeep : ∀ k, k ≠ j → s'.returned k = s.returned k := fun k hk => by
    rw [hreturned, update_of_ne hk]
  have hjl : ∀ k ∈ l, k ≠ j := by
    rintro k hk rfl
    exact (nodup_cons.1 hnodup).1 hk
  constructor
  · intro k hk
    rw [hseq] at hk
    rw [hkeep k, h.fresh k hk]
    rintro rfl
    omega
  · intro e' k hk
    by_cases he : e' = e
    · subst he
      rw [update_self] at hk
      have hmem := mem_of_mem_tail hk
      rw [hkeep k (hjl k hmem)]
      exact h.tail e' k (by rw [hq]; exact hmem)
    · rw [update_of_ne he] at hk
      rw [hkeep k]
      · exact h.tail e' k hk
      · rintro rfl
        exact hother e' he (mem_of_mem_tail hk)
  · intro e' k hk f hf g hg
    by_cases he : e' = e
    · subst he
      rw [update_self] at hk
      have hmem := mem_of_mem_head? hk
      rw [hkeep k (hjl k hmem), h.tail e' k (by rw [hq]; exact hmem)] at hf
      cases hf
    · rw [update_of_ne he] at hk
      have hne : k ≠ j := by
        rintro rfl
        exact hother e' he (mem_of_mem_head? hk)
      rw [hkeep k hne] at hf
      rw [hdep]
      exact (h.head e' k hk f hf g hg).imp_left (hsig g)

lemma Deps.block (h : Deps s queued) (hhead : (queued e).head? = some j)
    (hnodup : (queued e).Nodup) (hseqno : j.seqno ≤ s.fenceSeq j.entity)
    (hother : ∀ e' ≠ e, j ∉ queued e') (hdep : s.dep e = none) {pre : List Fence} {f g : Fence}
    (hwait : waitFor e f = some g) (hpre : ∀ f ∈ pre, Met s e f)
    (hreturned : s'.returned = update s.returned j (s.returned j ++ (pre ++ [f])))
    (hseq : s'.fenceSeq = s.fenceSeq) (hsig : s'.signaled = s.signaled)
    (hdep' : s'.dep = update s.dep e (some g)) : Deps s' queued := by
  have hkeep : ∀ k, k ≠ j → s'.returned k = s.returned k := fun k hk => by
    rw [hreturned, update_of_ne hk]
  constructor
  · intro k hk
    rw [hseq] at hk
    rw [hkeep k, h.fresh k hk]
    rintro rfl
    omega
  · intro e' k hk
    rw [hkeep k]
    · exact h.tail e' k hk
    · rintro rfl
      by_cases he : e' = e
      · subst he
        cases hq : queued e' with
        | nil => simp [hq] at hk
        | cons x l =>
          rw [hq] at hk hhead hnodup
          cases hhead
          exact (nodup_cons.1 hnodup).1 hk
      · exact hother e' he (mem_of_mem_tail hk)
  · intro e' k hk f' hf' g' hg'
    rw [hsig, hdep']
    by_cases he : e' = e
    · subst he
      obtain rfl := mem_unique hhead hk
      rw [hreturned, update_self, mem_append, mem_append, mem_singleton] at hf'
      rcases hf' with hf' | hf' | rfl
      · left
        refine (h.head e' j hk f' hf' g' hg').resolve_right ?_
        rw [hdep]
        exact nofun
      · exact .inl (hpre f' hf' g' hg')
      · right
        rw [update_self, ← hwait, hg']
    · rw [update_of_ne he]
      have hne : k ≠ j := by
        rintro rfl
        exact hother e' he (mem_of_mem_head? hk)
      rw [hkeep k hne] at hf'
      exact h.head e' k hk f' hf' g' hg'

lemma Finish.register (h : Finish s) (hj : j ∉ s.ran) {f : ℕ} (hran : s'.ran = s.ran ++ [j])
    (hcb : s'.cb = update s.cb j (some f)) (hfinishes : s'.finishes = s.finishes)
    (hsig : ∀ k, s'.signaled (.finished k) = s.signaled (.finished k)) : Finish s' := by
  constructor
  · rw [hfinishes]
    exact h.nodup
  · intro k
    rw [hsig, hfinishes]
    exact h.signaled k
  · intro k hk
    rw [hran]
    exact mem_append_left _ (h.ran k (hfinishes ▸ hk))
  · intro k hk hnot
    rw [hcb]
    by_cases hkj : k = j
    · simp [hkj]
    · rw [update_of_ne hkj]
      refine h.pending k ?_ (hfinishes ▸ hnot)
      simpa [hran, hkj] using hk
  · intro k hk
    rw [hran, hfinishes]
    by_cases hkj : k = j
    · subst hkj
      exact ⟨by simp, fun hmem => hj (h.ran k hmem)⟩
    · rw [hcb, update_of_ne hkj] at hk
      exact ⟨mem_append_left _ (h.cb k hk).1, (h.cb k hk).2⟩

lemma Finish.complete (h : Finish s) (hj : j ∉ s.finishes)
    (hfinishes : s'.finishes = s.finishes ++ [j])
    (hsig : ∀ k, s'.signaled (.finished k) = if k = j then true else s.signaled (.finished k))
    (hcb : s'.cb = update s.cb j none) (hran : ∀ k, k ∈ s'.ran ↔ k ∈ s.ran ∨ k = j) :
    Finish s' := by
  constructor
  · rw [hfinishes, ← concat_eq_append]
    exact h.nodup.concat hj
  · intro k
    rw [hsig, hfinishes, mem_append, ← h.signaled]
    by_cases hkj : k = j
    · simp [hkj]
    · simp [hkj]
  · intro k hk
    rw [hfinishes, mem_append, mem_singleton] at hk
    exact (hran k).2 (hk.imp_left (h.ran k))
  · intro k hk hnot
    rw [hfinishes, mem_append, mem_singleton, not_or] at hnot
    rw [hcb, update_of_ne hnot.2]
    exact h.pending k (((hran k).1 hk).resolve_right hnot.2) hnot.1
  · intro k hk
    have hkj : k ≠ j := by
      rintro rfl
      simp [hcb] at hk
    rw [hcb, update_of_ne hkj] at hk
    rw [hfinishes, mem_append, mem_singleton, not_or]
    exact ⟨(hran k).2 (.inl (h.cb k hk).1), (h.cb k hk).2, hkj⟩

lemma Finish.runJob (h : Finish s) (hj : j ∉ s.ran) (hw : Option ℕ) :
    Finish (runJob s e j hw) := by
  have hfinish : j ∉ s.finishes := fun hmem => hj (h.ran j hmem)
  have hunsig : s.signaled (.finished j) = false := by
    rw [← Bool.not_eq_true, h.signaled]
    exact hfinish
  have hcb : s.cb j = none := by
    rw [← not_isSome_iff_eq_none]
    exact fun hsome => hj (h.cb j hsome).1
  have hstart : (startJob s e j).signaled (.finished j) = false := by
    simpa [startJob, jobBegin] using hunsig
  have hsig : ∀ k, (startJob s e j).signaled (.finished k) = s.signaled (.finished k) := by
    simp [startJob, jobBegin]
  unfold Sched.runJob
  rcases submit_cases hstart hw with ⟨f, -, heq⟩ | ⟨p, t, -, heq⟩
  · rw [heq]
    exact h.register hj rfl rfl rfl hsig
  · rw [heq]
    refine h.complete hfinish rfl (fun k => ?_) ?_ fun k => ?_
    · by_cases hkj : k = j
      · simp [hkj]
      · simp [hkj, hsig]
    · change s.cb = _
      rw [← hcb, update_eq_self]
    · simp [startJob, jobBegin]

/-! ## Runs without a reset -/

/-- The steps other than those of a reset and a recovery. -/
def NoReset : Act → Prop
  | .reset _ => False
  | .recoveryStart => False
  | .recoveryTurn _ => False
  | _ => True

instance : DecidablePred NoReset
  | .reset _ => inferInstanceAs (Decidable False)
  | .recoveryStart => inferInstanceAs (Decidable False)
  | .recoveryTurn _ => inferInstanceAs (Decidable False)
  | .push _ => inferInstanceAs (Decidable True)
  | .main _ _ => inferInstanceAs (Decidable True)
  | .signal _ => inferInstanceAs (Decidable True)
  | .callback _ => inferInstanceAs (Decidable True)
  | .depCallback _ => inferInstanceAs (Decidable True)
  | .jobFinish _ => inferInstanceAs (Decidable True)
  | .fenceFree _ => inferInstanceAs (Decidable True)

/-- The invariant of the runs without a reset. -/
structure Inv (s : State) (queued : Entity → List Job) : Prop where
  queues : Queues s queued
  deps : Deps s queued
  finish : Finish s

lemma inv_init (limit : ℕ) (hangLimit : ℤ) (priority : Entity → ℕ)
    (guilty : Entity → Option Bool) :
    Inv (init limit hangLimit priority guilty) fun _ => [] := by
  refine ⟨⟨fun _ => Spsc.Queue.holds_init, fun _ => rfl, fun _ => nodup_nil, nofun⟩,
    ⟨fun _ _ => rfl, fun _ _ _ => rfl, nofun⟩, ⟨nodup_nil, ?_, nofun, nofun, nofun⟩⟩
  simp [init]

lemma Queues.head_of_peek (h : Queues s queued) (hpeek : (s.queue e).peek = some j) :
    ∃ l, queued e = j :: l ∧ (j :: l).Nodup ∧ j.entity = e ∧ j ∉ s.ran ∧
      j.seqno ≤ s.fenceSeq j.entity ∧ ∀ e' ≠ e, j ∉ queued e' := by
  rw [(h.holds e).peek] at hpeek
  obtain ⟨l, hq⟩ := List.head?_eq_some_iff.1 hpeek
  have hmem : j ∈ queued e := by simp [hq]
  obtain ⟨hentity, hran⟩ := h.notMem_ran hmem
  refine ⟨l, hq, hq ▸ (h.holds e).nodup, hentity, hran, ?_, fun e' he hmem' => ?_⟩
  · rw [hentity]
    exact (h.entity e j (by rw [h.pushed]; exact mem_append_right _ hmem)).2
  · exact he ((h.notMem_ran hmem').1.symm.trans hentity)

lemma Inv.main (h : Inv s queued) (hstep : mainIteration s polls hw = some s') :
    ∃ queued', Inv s' queued' := by
  obtain ⟨i, e, j, -, hpeek, hdep, hcases⟩ := mainIteration_cases hstep
  obtain ⟨l, hq, hnodup, hentity, hran, hseqno, hother⟩ := h.queues.head_of_peek hpeek
  rcases hcases with ⟨pre, f, g, hwait, hpre, rfl⟩ | ⟨-, rfl⟩
  · refine ⟨queued, h.queues.congr rfl rfl rfl rfl, ?_, h.finish.congr rfl rfl rfl fun _ => rfl⟩
    exact h.deps.block (by rw [hq]; rfl) (hq ▸ hnodup) hseqno hother hdep hwait hpre rfl rfl rfl rfl
  · obtain ⟨hqueue, hpushed, hran', hseq, hreturned, hdep', hsig⟩ :=
      submit_frame (startJob (asked s i e j polls) e j) j hw
    refine ⟨update queued e l, h.queues.run hq hqueue hpushed hran' hseq,
      h.deps.run hnodup hseqno hq hother hreturned hseq hdep' fun g hg => hsig g (signal_mono hg),
      Finish.runJob (s := asked s i e j polls) ?_ hran hw⟩
    exact h.finish.congr rfl rfl rfl fun _ => rfl

lemma Inv.callback (h : Inv s queued) (hstep : callback s j = some s') :
    Inv s' queued ∧ s'.finishes = s.finishes ++ [j] := by
  unfold Sched.callback at hstep
  split at hstep
  · rename_i f hf
    obtain ⟨-, hstep⟩ := ite_none_right_eq_some.1 hstep
    cases hstep
    obtain ⟨hran, hfinish⟩ := h.finish.cb j (by rw [hf]; rfl)
    have hunsig : s.signaled (.finished j) = false := by
      rw [← Bool.not_eq_true, h.finish.signaled]
      exact hfinish
    simp only [processJob, fenceFinished, hunsig, Bool.false_eq_true, if_false]
    refine ⟨⟨h.queues.congr rfl rfl rfl rfl,
      h.deps.mono rfl rfl (fun _ => signal_mono) fun e g hg => .inr hg,
      h.finish.complete hfinish rfl (fun k => ?_) rfl fun k => ?_⟩, trivial⟩
    · by_cases hkj : k = j
      · simp [hkj]
      · simp [hkj]
    · exact ⟨.inl, fun hk => hk.elim id fun hkj => hkj ▸ hran⟩
  · cases hstep

lemma Inv.step (h : Inv s queued) {a : Act} (ha : NoReset a) (hstep : step a s = some s') :
    ∃ queued', Inv s' queued' := by
  cases a with
  | push e =>
    cases hstep
    exact ⟨_, h.queues.push e, h.deps.push e, h.finish.congr rfl rfl rfl fun _ => rfl⟩
  | main polls hw => exact h.main hstep
  | signal id =>
    cases hstep
    exact ⟨queued, h.queues.congr rfl rfl rfl rfl, h.deps.mono rfl rfl (fun _ => signal_mono)
      (fun e g hg => .inr hg), h.finish.congr rfl rfl rfl fun k => by simp⟩
  | callback j => exact ⟨queued, (h.callback hstep).1⟩
  | depCallback e =>
    change Sched.depCallback s e = some s' at hstep
    unfold Sched.depCallback at hstep
    split at hstep
    · rename_i f hf
      obtain ⟨hsig, hstep⟩ := ite_none_right_eq_some.1 hstep
      cases hstep
      refine ⟨queued, h.queues.congr rfl rfl rfl rfl, h.deps.mono rfl rfl (fun _ hg => hg)
        fun e' g hg => ?_, h.finish.congr rfl rfl rfl fun _ => rfl⟩
      by_cases he : e' = e
      · subst he
        obtain rfl := mem_unique hf hg
        exact .inl hsig
      · exact .inr (by simpa [he] using hg)
    · cases hstep
  | jobFinish j | fenceFree j =>
    obtain ⟨-, hstep⟩ := ite_none_right_eq_some.1 hstep
    cases hstep
    exact ⟨queued, h.queues.congr rfl rfl rfl rfl, h.deps.mono rfl rfl (fun _ hg => hg)
      (fun e g hg => .inr hg), h.finish.congr rfl rfl rfl fun _ => rfl⟩
  | reset _ | recoveryStart | recoveryTurn _ => exact ha.elim

lemma Inv.met (h : Inv s queued) (hstep : mainIteration s polls hw = some s')
    (hran : s'.ran = s.ran ++ [j]) {f : Fence} (hf : f ∈ s'.returned j) : Met s j.entity f := by
  obtain ⟨i, e, k, -, hpeek, hdep, hcases⟩ := mainIteration_cases hstep
  obtain ⟨l, hq, -, hentity, -⟩ := h.queues.head_of_peek hpeek
  rcases hcases with ⟨pre, f', g, hwait, hpre, rfl⟩ | ⟨hpolls, rfl⟩
  · simp [asked] at hran
  · obtain ⟨-, -, hran', -, hreturned, -⟩ :=
      submit_frame (startJob (asked s i e k polls) e k) k hw
    obtain rfl : k = j := by
      have := hran'.symm.trans hran
      simpa [startJob, jobBegin, asked] using this
    subst hentity
    have hf' : f ∈ s.returned k ++ polls := by
      have hret : (runJob (asked s i k.entity k polls) k.entity k hw).returned k =
        s.returned k ++ polls := (congrFun hreturned k).trans (update_self ..)
      rw [hret] at hf
      exact hf
    rcases mem_append.1 hf' with hold | hnew
    · intro g hg
      refine (h.deps.head k.entity k (by rw [hq]; rfl) f hold g hg).resolve_right ?_
      rw [hdep]
      exact nofun
    · exact hpolls f hnew

/-- **Order, dependencies and completion.** In every state that a run without a reset reaches, the
jobs pushed to an entity are those of its jobs that were run, in this order, followed by those in
its queue, and no job was run twice. When a job is run, every fence that its dependency callback
has returned is signaled, is a fence of its own entity, or is the fence `finished` of a job of this
scheduler that is scheduled. The fence `finished` of a job is signaled at most once and only after
the job was run, and until then the callback that signals it is registered. -/
theorem sched_order {limit : ℕ} {hangLimit : ℤ} {priority : Entity → ℕ}
    {guilty : Entity → Option Bool} {s : State}
    (h : Machine.Runs step (fun _ a => NoReset a) (init limit hangLimit priority guilty) s) :
    (∀ e, ∃ queued, (s.queue e).Holds queued ∧
      s.pushed e = s.ran.filter (fun j => j.entity = e) ++ queued) ∧
      s.ran.Nodup ∧
      (∀ polls hw s' j, mainIteration s polls hw = some s' → s'.ran = s.ran ++ [j] →
        ∀ f ∈ s'.returned j, s.signaled f = true ∨ (∃ k, f = .scheduled k ∧ k.entity = j.entity) ∨
          ∃ k, f = .finished k ∧ s.signaled (.scheduled k) = true) ∧
      s.finishes.Nodup ∧ (∀ j, s.signaled (.finished j) = true ↔ j ∈ s.finishes) ∧
      (∀ j ∈ s.finishes, j ∈ s.ran) ∧
      (∀ j ∈ s.ran, j ∉ s.finishes → (s.cb j).isSome = true) ∧
      ∀ j s', callback s j = some s' → s'.finishes = s.finishes ++ [j] := by
  obtain ⟨queued, hinv⟩ : ∃ queued, Inv s queued := by
    refine Machine.Runs.invariant (P := fun s => ∃ queued, Inv s queued)
      ⟨_, inv_init limit hangLimit priority guilty⟩ ?_ h
    rintro s a s' ⟨queued, hinv⟩ ha hstep
    exact hinv.step ha hstep
  refine ⟨fun e => ⟨queued e, hinv.queues.holds e, hinv.queues.pushed e⟩, hinv.queues.ran_nodup,
    ?_, hinv.finish.nodup, hinv.finish.signaled, hinv.finish.ran, hinv.finish.pending,
    fun j s' hstep => (hinv.callback hstep).2⟩
  intro polls hw s' j hstep hran f hf
  have hmet := hinv.met hstep hran hf
  cases f with
  | other id => exact .inl (hmet _ rfl)
  | finished k => exact .inr (.inr ⟨k, rfl, hmet _ rfl⟩)
  | scheduled k =>
    by_cases hk : k.entity = j.entity
    · exact .inr (.inl ⟨k, rfl, hk⟩)
    · exact .inl (hmet _ (if_neg hk))

/-- Two entities with a job each; the second job depends on the fence `finished` of the first one,
and is run while the hardware works on the first one. -/
def twoEntities : List Act :=
  [.push 0, .main [] (some 0), .push 1, .main [.finished ⟨0, 1⟩] (some 1), .signal 0,
    .callback ⟨0, 1⟩]

/-- Both jobs are run, in the order in which the queues are served. -/
theorem sched_order_twoEntities : ∃ s,
    Machine.execIf step (fun _ a => NoReset a) (init 2 0 (fun _ => 1) fun _ => none) twoEntities =
      some s ∧ s.ran = [⟨0, 1⟩, ⟨1, 1⟩] ∧ s.finishes = [⟨0, 1⟩] ∧ s.ran.Nodup := by
  obtain ⟨s, hs, hobs⟩ := map_eq_some_iff.1
    (show (Machine.execIf step (fun _ a => NoReset a) (init 2 0 (fun _ => 1) fun _ => none)
      twoEntities).map (fun s => (s.ran, s.finishes)) =
      some ([⟨0, 1⟩, ⟨1, 1⟩], [⟨0, 1⟩]) by decide +kernel)
  rw [Prod.mk.injEq] at hobs
  exact ⟨s, hs, hobs.1, hobs.2, (sched_order (Machine.execIf_runs hs)).2.1⟩

/-- **A dependency that has not signaled.** The second job is run, though the dependency callback
returned the fence `finished` of the first job, which is not signaled. -/
theorem run_before_finished : ∃ s,
    Machine.execIf step (fun _ a => NoReset a) (init 2 0 (fun _ => 1) fun _ => none)
        [.push 0, .main [] (some 0), .push 1, .main [.finished ⟨0, 1⟩] (some 1)] = some s ∧
      (⟨1, 1⟩ : Job) ∈ s.ran ∧ .finished ⟨0, 1⟩ ∈ s.returned ⟨1, 1⟩ ∧
      s.signaled (.finished ⟨0, 1⟩) = false := by
  refine ⟨_, rfl, ?_, ?_, ?_⟩ <;> decide +kernel

end KmsDrm.Sched
