import KmsDrm.I915.SwFence.Invariant

/-!
# Every software fence completes, exactly once

The notification of a fence is made at most once, after its commit and after every fence it awaits
is done. If the awaits form no cycle, no deadlock arises: a thread that holds the lock of a fence
and waits for the lock of another one waits for the lock of a fence that awaits the first one. So
the calls come to an end, and when they have, every fence that was committed is complete.

## Main results

* `I915.SwFence.completed_of_stuck` — if no call can take a step, all fences are complete.
* `I915.SwFence.complete_once` — the fences complete, exactly once and in order.
-/

namespace KmsDrm.I915.SwFence

open KmsDrm.Lib Relation List Threads
open Function (update update_of_ne update_self)

variable {F : Type} [DecidableEq F]

variable {c' : Config F} {f g : F} {p p' : Pc F} {s s' : State F} {t : ℕ}

/-- The fence is done, and its notification was made exactly once. -/
def Completed (s : State F) (f : F) : Prop := s.pending f = -1 ∧ s.log.count (f, .complete) = 1

/-- A thread in a call, which has not returned. -/
def Busy (c : Config F) (t : ℕ) : Prop := c.pc t ≠ .idle ∧ ∀ ret, c.pc t ≠ .returned ret

omit [DecidableEq F] in
lemma not_busy {c : Config F} (h : ¬ Busy c t) :
    c.pc t = .idle ∨ ∃ ret, c.pc t = .returned ret := by
  by_contra hno
  rw [not_or, not_exists] at hno
  exact h hno

/-- A step of a thread in a call, which is no misuse. -/
def BusyStep (c c' : Config F) : Prop :=
  ∃ t x, Busy c t ∧ Legal c t x ∧ fire next c t x = some c'

/-- No call can take a step, not even by a misuse. -/
def Stuck (c : Config F) : Prop := ∀ t x, Busy c t → fire next c t x = none

/-- The awaits form no cycle. -/
def Acyclic (s : State F) : Prop := ∀ f, ¬ TransGen s.Awaits f f

/-! ## Steps that are possible -/

/-- The lock that is taken in the next step. -/
def Pc.wants : Pc F → Option F
  | .enqueue _ g => some g
  | .lock f _ => some f
  | .nestedMove g _ _ => some g
  | _ => none

lemma exists_next (t : ℕ) (s : State F) (p : Pc F) (hidle : p ≠ .idle)
    (hret : ∀ ret, p ≠ .returned ret) (hsleep : ∀ f g, p = .sleep f g → s.pending g < 0)
    (hwants : ∀ g, p.wants = some g → s.lock g = none) : ∃ x r, next t x s p = some r := by
  cases p with
  | idle => exact absurd rfl hidle
  | returned ret => exact absurd rfl (hret ret)
  | check f g wq =>
    refine ⟨.go, ?_⟩
    simp only [next]
    split_ifs
    · exact ⟨_, rfl⟩
    · cases wq <;> exact ⟨_, rfl⟩
  | alloc f g b => exact ⟨.memory true, _, rfl⟩
  | sleep f g => exact ⟨.go, _, if_pos (hsleep f g rfl)⟩
  | enqueue f g =>
    refine ⟨.go, ?_⟩
    simp only [next, hwants g rfl]
    split_ifs <;> exact ⟨_, rfl⟩
  | commit f | dec f ctx =>
    refine ⟨.go, ?_⟩
    simp only [next]
    split_ifs <;> exact ⟨_, rfl⟩
  | notify f ctx | nestedNotify g f ctx => exact ⟨.answer true, _, rfl⟩
  | lock f ctx => exact ⟨.go, _, if_pos (hwants f rfl)⟩
  | nestedMove g f ctx => exact ⟨.go, _, if_pos (hwants g rfl)⟩
  | _ => exact ⟨.go, _, rfl⟩

variable {c : Config F}

lemma Stuck.cases (h : Stuck c) (t : ℕ) :
    ¬ Busy c t ∨ (∃ f g, c.pc t = .sleep f g ∧ 0 ≤ c.shared.pending g) ∨
      ∃ g, (c.pc t).wants = some g ∧ c.shared.lock g ≠ none := by
  by_contra hno
  simp only [not_or, not_exists, not_and, not_not] at hno
  obtain ⟨hbusy, hsleep, hwants⟩ := hno
  obtain ⟨x, r, hr⟩ := exists_next t c.shared (c.pc t) hbusy.1 hbusy.2
    (fun f g hp => Int.not_le.1 (hsleep f g hp)) hwants
  have hnone := h t x hbusy
  rw [fire, hr] at hnone
  cases hnone

/-! ## No deadlock -/

omit [DecidableEq F] in
lemma Acyclic.wellFounded [Finite F] (h : Acyclic s) :
    WellFounded (TransGen s.Awaits) ∧ WellFounded (Function.swap (TransGen s.Awaits)) := by
  have : Std.Irrefl (TransGen s.Awaits) := ⟨h⟩
  exact ⟨Finite.wellFounded_of_trans_of_irrefl _, Finite.wellFounded_of_trans_of_irrefl _⟩

omit [DecidableEq F] in
lemma wants_after_holds (hpath : p.Path s) {e : F} (he : p.Holds e) (hg : p.wants = some g) :
    TransGen s.Awaits g e := by
  cases p with
  | enqueue f g' => exact he.elim
  | lock f ctx =>
    cases hg
    exact .single (hpath e he).1
  | nestedMove g' f ctx =>
    cases hg
    obtain ⟨hgf, hctx⟩ := hpath
    rcases he with rfl | he
    · exact hgf
    · exact hgf.tail (hctx e he).1
  | _ => cases hg

section Deadlock

variable [Fintype F] (hinv : Inv c) (hacyclic : Acyclic c.shared) (hstuck : Stuck c)

include hinv hacyclic hstuck

/-- No lock is held if no call can take a step.

**Proof sketch.** Induction on the awaits. The thread that holds the lock of a fence waits for the
lock of a fence that awaits it, which is free. -/
lemma lock_none_of_stuck (e : F) : c.shared.lock e = none := by
  induction e using hacyclic.wellFounded.1.induction with
  | h e ih =>
    by_contra hne
    obtain ⟨t, ht⟩ := Option.ne_none_iff_exists'.1 hne
    have hholds := (hinv.locks t e).2 ht
    rcases hstuck.cases t with hidle | ⟨f, g, hp, -⟩ | ⟨g, hwants, hlock⟩
    · rcases not_busy hidle with hp | ⟨ret, hp⟩ <;> rw [hp] at hholds <;> exact hholds
    · rw [hp] at hholds
      exact hholds
    · exact hlock (ih g (wants_after_holds (hinv.path t) hholds hwants))

lemma pc_of_stuck (t : ℕ) : ¬ Busy c t ∨ ∃ f g, c.pc t = .sleep f g ∧ 0 ≤ c.shared.pending g := by
  rcases hstuck.cases t with hidle | hsleep | ⟨g, -, hlock⟩
  · exact .inl hidle
  · exact .inr hsleep
  · exact absurd (lock_none_of_stuck hinv hacyclic hstuck g) hlock

lemma not_owned_of_stuck (t : ℕ) : (∀ f, ¬ (c.pc t).Token f) ∧ ∀ x, ¬ (c.pc t).AtPoint x := by
  rcases pc_of_stuck hinv hacyclic hstuck t with hidle | ⟨f, g, hp, -⟩
  · rcases not_busy hidle with hp | ⟨ret, hp⟩ <;> rw [hp] <;> exact ⟨fun _ => id, fun _ => id⟩
  · rw [hp]
    exact ⟨fun _ => id, fun _ => id⟩

/-- **No wake-up is lost.** If no call can take a step and all fences are committed, they are
finished.

**Proof sketch.** Induction on the awaits. A fence that still counts has a wait entry, as no thread
holds a count and its own commit was made. The wait entry is in the list of a fence that it
awaits; but this one is finished, and its list is empty. -/
lemma finished_of_stuck (hcommitted : ∀ f, c.shared.stage f ≠ .raw → c.shared.committed f = true)
    (f : F) : c.shared.stage f ≠ .raw → c.shared.stage f = .finished := by
  induction f using hacyclic.wellFounded.2.induction with
  | h f ih =>
    intro hraw
    have hf := hinv.counted f
    rcases hs : c.shared.stage f with _ | _ | ⟨t, q⟩ | _
    · exact absurd hs hraw
    · simp only [View.Ok, State.view, hs, hcommitted f hraw, if_true] at hf
      obtain ⟨-, hpos, -, -, -, hinit⟩ := hf
      have hfly : c.shared.flying f = ∅ := by
        refine Finset.eq_empty_of_forall_notMem fun t ht => ?_
        exact (not_owned_of_stuck hinv hacyclic hstuck t).1 f ((hinv.tokens t f).2 ht)
      have hqueued : 0 < c.shared.queued f := by
        unfold State.refs at hpos
        rw [hfly, Finset.card_empty] at hpos
        omega
      obtain ⟨g, hmem⟩ := exists_of_queued_pos hqueued
      have hafter := hinv.entries f g hmem
      have hg := hinv.counted g
      by_cases hgraw : c.shared.stage g = .raw
      · simp only [View.Ok, State.view, hgraw] at hg
        simp [hg.2.1, hg.2.2.1] at hmem
      · simp only [View.Ok, State.view, ih g hafter hgraw] at hg
        simp [hg.2.2.1, hg.2.2.2.1] at hmem
    · exact absurd ((hinv.points t (f, q)).2 hs)
        ((not_owned_of_stuck hinv hacyclic hstuck t).2 (f, q))
    · rfl

lemma completed_of_stuck
    (hcommitted : ∀ f, c.shared.stage f ≠ .raw → c.shared.committed f = true) :
    (∀ t, ¬ Busy c t) ∧ ∀ f, c.shared.stage f ≠ .raw → Completed c.shared f := by
  have hfin : ∀ f, c.shared.stage f ≠ .raw → Completed c.shared f := by
    intro f hraw
    have hf := hinv.counted f
    simp only [State.view, finished_of_stuck hinv hacyclic hstuck hcommitted f hraw] at hf
    exact ⟨hf.1, hf.2.2.2.2.1⟩
  refine ⟨fun t => ?_, hfin⟩
  rcases pc_of_stuck hinv hacyclic hstuck t with hidle | ⟨f, g, hp, hpend⟩
  · exact hidle
  · -- a thread that sleeps would have been woken
    have hpath := hinv.path t
    rw [hp] at hpath
    have := (hfin g hpath.2).1
    omega

end Deadlock

/-! ## The calls come to an end -/

/-- The steps that a thread still takes for itself. -/
def Pc.weight : Pc F → ℕ
  | .idle => 0
  | .check _ _ _ => 13
  | .alloc _ _ _ => 12
  | .sleep _ _ => 1
  | .await _ _ => 11
  | .enqueue _ _ => 10
  | .commit _ => 10
  | .dec _ _ => 9
  | .notify _ _ => 8
  | .setDone _ _ => 7
  | .lock _ _ => 6
  | .loop _ _ => 5
  | .free _ _ => 4
  | .nestedNotify _ _ _ => 10
  | .nestedSetDone _ _ _ => 9
  | .nestedMove _ _ _ => 8
  | .nestedFree _ _ _ => 6
  | .leave _ => 1
  | .returned _ => 0

omit [DecidableEq F] in
lemma Pc.weight_after (ctx : Option F) : (Pc.after ctx).weight ≤ 1 := by
  cases ctx <;> simp [Pc.after, Pc.weight]

/-- The steps that the entries of a fence still need, and the one that moves the list `extra`. -/
def listWeight (queue extra : List F) : ℕ :=
  6 * (queue.length + extra.length) + if extra = [] then 0 else 1

section Termination

variable [Fintype F]

/-- The steps that the entries still need. -/
def State.weight (s : State F) : ℕ := ∑ g, listWeight (s.queue g) (s.extra g)

/-- The steps that the calls still take. -/
def work (c : Config F) : ℕ := c.shared.weight + ∑ t ∈ c.shared.started, (c.pc t).weight

lemma weight_of_eq_off (s s' : State F) (f : F)
    (h : ∀ g, g ≠ f → s'.queue g = s.queue g ∧ s'.extra g = s.extra g) :
    s'.weight + listWeight (s.queue f) (s.extra f) =
      s.weight + listWeight (s'.queue f) (s'.extra f) :=
  sum_of_eq_off Finset.univ (fun g => listWeight (s.queue g) (s.extra g))
    (fun g => listWeight (s'.queue g) (s'.extra g)) (Finset.mem_univ f)
    fun g hg => by rw [(h g hg).1, (h g hg).2]

lemma weight_enqueue (s : State F) (t : ℕ) (f g : F) :
    (s.enqueue t f g).weight = s.weight + 6 := by
  have h := weight_of_eq_off s (s.enqueue t f g) g
    fun a ha => by simp [update_of_ne ha]
  simp only [listWeight, State.enqueue_queue, State.enqueue_extra, update_self,
    length_append, length_singleton] at h
  omega

lemma weight_pop {rest : List F} (hq : s.queue f = g :: rest) :
    (s.pop f g rest).weight + 6 = s.weight := by
  have h := weight_of_eq_off s (s.pop f g rest) f
    fun a ha => by simp [update_of_ne ha]
  simp only [listWeight, State.pop_queue, State.pop_extra, update_self, hq, length_cons] at h
  omega

lemma weight_splice (hx : s.extra f ≠ []) : (s.splice f).weight + 1 = s.weight := by
  have h := weight_of_eq_off s (s.splice f) f
    fun a ha => by simp [update_of_ne ha]
  simp only [listWeight, State.splice_queue, State.splice_extra, update_self,
    length_append, length_nil, if_true, if_neg hx] at h
  omega

lemma weight_moveTail : (s.moveTail g f).weight ≤ s.weight + 1 := by
  let s1 : State F := { s with extra := update s.extra f (s.extra f ++ s.queue g) }
  have hadd := weight_of_eq_off s s1 f
    fun a ha => by simp [s1, update_of_ne ha]
  have hsub := weight_of_eq_off s1 (s.moveTail g f) g
    fun a ha => by simp [s1, update_of_ne ha]
  simp only [s1, listWeight, State.moveTail_queue, State.moveTail_extra, update_self,
    length_append, length_nil] at hadd hsub
  split_ifs at hadd <;> omega

lemma Step.weight (h : Step t s p s' p') (hidle : p ≠ .idle) :
    s'.started = s.started ∧ s'.weight + p'.weight < s.weight + p.weight := by
  cases h with
  | init _ _ | awaitCall _ _ _ _ _ | commitCall _ _ _ => exact absurd rfl hidle
  | enqueue f g _ _ =>
    refine ⟨rfl, ?_⟩
    rw [weight_enqueue]
    simp only [Pc.weight]
    omega
  | dec f ctx _ | free f ctx =>
    refine ⟨rfl, Nat.add_lt_add_left (Nat.lt_of_le_of_lt (Pc.weight_after ctx) ?_) _⟩
    simp [Pc.weight]
  | popZero f ctx g rest hq _ =>
    refine ⟨rfl, ?_⟩
    have hw := weight_pop hq
    have hmark : ((s.pop f g rest).mark g (.completing t .zero)).weight =
        (s.pop f g rest).weight := rfl
    simp only [Pc.weight]
    omega
  | pop f ctx g rest hq _ =>
    refine ⟨rfl, ?_⟩
    have hw := weight_pop hq
    omega
  | splice f ctx _ hx =>
    refine ⟨rfl, ?_⟩
    have hw := weight_splice hx
    omega
  | nestedMove g f ctx _ =>
    refine ⟨rfl, ?_⟩
    have hw := weight_moveTail (s := s) (g := g) (f := f)
    have hmark : ((s.moveTail g f).mark g .finished).weight = (s.moveTail g f).weight := rfl
    simp only [Pc.weight]
    omega
  | _ => exact ⟨rfl, Nat.add_lt_add_left (by simp [Pc.weight]) _⟩

end Termination

/-- The threads in a call were started. -/
def Started (c : Config F) : Prop := ∀ t, c.pc t ≠ .idle → t ∈ c.shared.started

lemma Step.started (h : Step t s p s' p') (hp : p ≠ .idle → t ∈ s.started) :
    s.started ⊆ s'.started ∧ t ∈ s'.started := by
  cases h with
  | init _ _ | awaitCall _ _ _ _ _ | commitCall _ _ _ =>
    exact ⟨Finset.subset_insert _ _, Finset.mem_insert_self _ _⟩
  | _ => exact ⟨Finset.Subset.refl _, hp (by simp)⟩

lemma Started.step (h : Started c) (hs : Step t c.shared (c.pc t) s' p') :
    Started (c.move t s' p') := by
  obtain ⟨hsub, hmem⟩ := hs.started (h t)
  intro u hu
  by_cases hut : u = t
  · rw [hut]
    exact hmem
  · rw [c.move_pc_of_ne s' p' hut] at hu
    exact hsub (h u hu)

lemma started_of_runs (h : Threads.Runs next Legal (initConfig F) c) : Started c := by
  refine Threads.Runs.invariant (fun t ht => absurd rfl ht)
    (fun c t x s' p' hstarted hlegal hnext => ?_) h
  exact hstarted.step (step_of_next hlegal hnext)

variable [Fintype F]

lemma work_lt_of_busyStep (hinv : Inv c) (hstarted : Started c) (h : BusyStep c c') :
    work c' < work c ∧ Inv c' ∧ Started c' := by
  obtain ⟨t, x, hbusy, hlegal, hfire⟩ := h
  obtain ⟨s', p', hnext, rfl⟩ := fire_eq_some hfire
  have hs := step_of_next hlegal hnext
  refine ⟨?_, hinv.step hs, hstarted.step hs⟩
  obtain ⟨hst, hlt⟩ := hs.weight hbusy.1
  have hsum := sum_of_eq_off c.shared.started (fun u => (c.pc u).weight)
    (fun u => ((c.move t s' p').pc u).weight) (hstarted t hbusy.1)
    fun u hu => by rw [c.move_pc_of_ne s' p' hu]
  rw [c.move_pc_self] at hsum
  unfold work
  rw [c.move_shared, hst]
  omega

lemma acc_busyStep (hinv : Inv c) (hstarted : Started c) : Acc (fun c' c => BusyStep c c') c := by
  induction hn : work c using Nat.strongRecOn generalizing c with
  | ind n ih =>
    refine Acc.intro c fun c' hstep => ?_
    obtain ⟨hlt, hinv', hstarted'⟩ := work_lt_of_busyStep hinv hstarted hstep
    exact ih (work c') (hn ▸ hlt) hinv' hstarted' rfl

/-! ## Fences complete once and in order -/

/-- A fence is notified at most once; if it is, it was committed, and every fence it awaits is
complete. -/
lemma Inv.notified (hinv : Inv c) (f : F) :
    c.shared.log.count (f, .complete) ≤ 1 ∧
      ((f, .complete) ∈ c.shared.log → c.shared.committed f = true ∧
        ∀ g, c.shared.Awaits f g → Completed c.shared g) := by
  have hf := hinv.counted f
  have hcount : c.shared.log.count (f, .complete) ≤ 1 ∧ (0 < c.shared.log.count (f, .complete) →
      c.shared.refs f = 0 ∧ c.shared.committed f = true) := by
    rcases hs : c.shared.stage f with _ | _ | ⟨u, _ | _ | _ | _⟩ | _ <;>
      simp only [View.Ok, State.view, hs] at hf <;>
        refine ⟨by omega, fun hpos => ⟨by omega, ?_⟩⟩ <;>
      first | omega | simp_all
  refine ⟨hcount.1, fun hmem => ?_⟩
  obtain ⟨hrefs, hcommitted⟩ := hcount.2 (count_pos_iff.2 hmem)
  refine ⟨hcommitted, fun g hfg => ?_⟩
  -- nothing refers to the fence, so there is no wait entry and no thread that will add one
  have hdone : (c.shared.stage g).Done := by
    rcases hinv.awaited f g hfg with hdone | hq | ⟨t, ht⟩
    · exact hdone
    · have := refs_pos_of_mem (mem_append_left (c.shared.extra g) hq)
      omega
    · have := refs_pos_of_flying ((hinv.tokens t f).1 (by rw [ht]; rfl))
      omega
  have hg := hinv.counted g
  rcases hs : c.shared.stage g with _ | _ | ⟨u, _ | _ | _ | _⟩ | _ <;>
    simp only [State.view, hs, Stage.Done] at hg hdone
  · exact ⟨hg.1, hg.2.2.2.1⟩
  · exact ⟨hg.1, hg.2.2.1⟩
  · exact ⟨hg.1, hg.2.2.2.2.1⟩

lemma Inv.busyStep (hinv : Inv c) (h : BusyStep c c') :
    c'.shared.committed = c.shared.committed ∧
      ∀ f, c'.shared.stage f ≠ .raw → c.shared.stage f ≠ .raw := by
  obtain ⟨t, x, hbusy, hlegal, hfire⟩ := h
  obtain ⟨s', p', hnext, rfl⟩ := fire_eq_some hfire
  have hs := step_of_next hlegal hnext
  have hpt := hinv.points t
  have htok := hinv.tokens t
  have hidle := hbusy.1
  have hc := hinv.counted
  generalize c.shared = s at *
  generalize c.pc t = p at *
  -- the stage of a fence changes only while it is counting or in its completion
  have hset : ∀ f st, s.stage f ≠ .raw → ∀ e, update s.stage f st e ≠ .raw →
      s.stage e ≠ .raw := by
    intro f st hf e he
    by_cases hef : e = f
    · rw [hef]
      exact hf
    · rwa [update_of_ne hef] at he
  have hcounting : ∀ f, 0 < s.refs f → s.stage f ≠ .raw := by
    intro f hf
    simp [hc.counting_of_refs hf]
  have hpoint : ∀ f q, p.AtPoint (f, q) → s.stage f ≠ .raw := by
    intro f q hf
    rw [show s.stage f = _ from (hpt (f, q)).1 hf]
    simp
  cases hs with
  | init _ _ | awaitCall _ _ _ _ _ | commitCall _ _ _ => exact absurd rfl hidle
  | decZero f _ _ => exact ⟨rfl, hset f _ (hcounting f (refs_pos_of_flying ((htok f).1 rfl)))⟩
  | popZero f _ g rest hq _ =>
    exact ⟨rfl, hset g _ (hcounting g (refs_pos_of_mem (g := f) (by simp [hq])))⟩
  | notify f _ | setDone f _ | lock f _ _ | unlock f _ _ _ =>
    exact ⟨rfl, hset f _ (hpoint f _ rfl)⟩
  | nestedNotify g _ _ | nestedSetDone g _ _ | nestedMove g _ _ _ =>
    exact ⟨rfl, hset g _ (hpoint g _ (.inl rfl))⟩
  | _ => exact ⟨rfl, fun _ he => he⟩

lemma runs_of_busySteps (h : Threads.Runs next Legal (initConfig F) c)
    (hall : ∀ f, c.shared.stage f ≠ .raw → c.shared.committed f = true)
    (hsteps : ReflTransGen BusyStep c c') :
    Threads.Runs next Legal (initConfig F) c' ∧
      ∀ f, c'.shared.stage f ≠ .raw → c'.shared.committed f = true := by
  induction hsteps with
  | refl => exact ⟨h, hall⟩
  | tail _ hstep ih =>
    obtain ⟨hrun, hcommitted⟩ := ih
    obtain ⟨hsame, hraw⟩ := (inv_of_runs hrun).busyStep hstep
    obtain ⟨t, x, -, hlegal, hfire⟩ := hstep
    refine ⟨hrun.step t x hlegal hfire, fun f hf => ?_⟩
    rw [hsame]
    exact hcommitted f (hraw f hf)

/-- **Software fences complete exactly once and in order.** In every state that calls without
misuse reach: no fence was notified twice; a fence that was notified had been committed, and every
fence it awaits had completed. Once all fences are committed, the calls come to an end; and if the
awaits form no cycle, then when no call can take a step, all of them have returned and all fences
have completed. -/
theorem complete_once (h : Threads.Runs next Legal (initConfig F) c) :
    (∀ f, c.shared.log.count (f, .complete) ≤ 1) ∧
    (∀ f, (f, .complete) ∈ c.shared.log → c.shared.committed f = true ∧
      ∀ g, c.shared.Awaits f g → Completed c.shared g) ∧
    ((∀ f, c.shared.stage f ≠ .raw → c.shared.committed f = true) →
      Acc (fun c' c => BusyStep c c') c ∧
      ∀ c', ReflTransGen BusyStep c c' → Acyclic c'.shared → Stuck c' →
        (∀ t, ¬ Busy c' t) ∧ ∀ f, c'.shared.stage f ≠ .raw → Completed c'.shared f) := by
  have hinv := inv_of_runs h
  refine ⟨fun f => (hinv.notified f).1, fun f => (hinv.notified f).2, fun hall => ?_⟩
  refine ⟨acc_busyStep hinv (started_of_runs h), fun c' hsteps hacyclic hstuck => ?_⟩
  obtain ⟨hrun', hall'⟩ := runs_of_busySteps h hall hsteps
  exact completed_of_stuck (inv_of_runs hrun') hacyclic hstuck hall'

/-- The steps of an await for a signaler that is not done. -/
def awaitSteps {n : ℕ} (t : ℕ) (f g : Fin n) : List (ℕ × Choice (Fin n)) :=
  [(t, .call (.await f g .caller)), (t, .go), (t, .go), (t, .go)]

/-- The steps of a commit of a fence that awaits nothing and that nothing awaits. -/
def commitSteps {n : ℕ} (t : ℕ) (f : Fin n) : List (ℕ × Choice (Fin n)) :=
  [(t, .call (.commit f)), (t, .go), (t, .go), (t, .answer true), (t, .go), (t, .go), (t, .go),
    (t, .go)]

-- the numbers of the fences
local instance neZero_two : NeZero 2 := ⟨two_ne_zero⟩
local instance neZero_three : NeZero 3 := ⟨three_ne_zero⟩

/-- A fence awaits another one, and both are committed. The second one, in thread 4, completes and
wakes the first one. -/
def chainSchedule : List (ℕ × Choice (Fin 2)) :=
  (0, .call (.init 0)) :: (1, .call (.init 1)) :: awaitSteps 2 0 1 ++
    [(3, .call (.commit 0)), (3, .go), (3, .go), (4, .call (.commit 1)), (4, .go), (4, .go),
      (4, .answer true), (4, .go), (4, .go), (4, .go), (4, .answer true), (4, .go), (4, .go),
      (4, .go), (4, .go), (4, .go)]

/-- The first fence of a chain of two was notified after the second one had completed. -/
theorem complete_once_chain : ∃ c, execIf next Legal (initConfig (Fin 2)) chainSchedule =
    some c ∧ c.shared.log.count (0, .complete) = 1 ∧ Completed c.shared 1 := by
  obtain ⟨c, hc, hobs⟩ := Option.map_eq_some_iff.1
    (show (execIf next Legal (initConfig (Fin 2)) chainSchedule).map
      (fun c => (c.shared.log.count (0, .complete), c.shared.awaits)) =
        some (1, [(0, 1)]) by decide)
  rw [Prod.mk.injEq] at hobs
  obtain ⟨-, horder, -⟩ := complete_once (execIf_runs .start hc)
  have hmem : ((0 : Fin 2), Notify.complete) ∈ c.shared.log :=
    count_pos_iff.1 (by rw [hobs.1]; decide)
  refine ⟨c, hc, hobs.1, (horder 0 hmem).2 1 ?_⟩
  unfold State.Awaits
  rw [hobs.2]
  decide

/-! ## Misuse -/

lemma acyclic_of_lt {n : ℕ} {s : State (Fin n)} (h : ∀ p ∈ s.awaits, p.1 < p.2) : Acyclic s := by
  intro f hf
  have hlt : ∀ a b, TransGen s.Awaits a b → a < b := by
    intro a b hab
    induction hab with
    | single hab => exact h _ hab
    | tail _ hbc ih => exact ih.trans (h _ hbc)
  exact lt_irrefl f (hlt f f hf)

/-- A fence is committed and completes; after that it awaits two others. The first of these
completes. -/
def lateSchedule : List (ℕ × Choice (Fin 3)) :=
  (0, .call (.init 0)) :: (1, .call (.init 1)) :: (2, .call (.init 2)) :: commitSteps 3 0 ++
    awaitSteps 4 0 1 ++ awaitSteps 5 0 2 ++
      [(6, .call (.commit 1)), (6, .go), (6, .go), (6, .answer true), (6, .go), (6, .go), (6, .go),
        (6, .answer true)]

/-- A fence awaits another one, both are committed, and the notify function of the second one does
not answer `NOTIFY_DONE`. -/
def deafSchedule : List (ℕ × Choice (Fin 2)) :=
  (0, .call (.init 0)) :: (1, .call (.init 1)) :: awaitSteps 2 0 1 ++
    [(3, .call (.commit 0)), (3, .go), (3, .go), (4, .call (.commit 1)), (4, .go), (4, .go),
      (4, .answer false)]

/-- The misuse matters: a fence that awaits others after it has completed is notified again; and a
fence does not complete, with all fences committed and all calls returned, if the notify function
of one that it awaits does not answer `NOTIFY_DONE`. -/
theorem misuse_breaks_completion :
    (∃ c, Threads.Reachable next (initConfig (Fin 3)) c ∧ Acyclic c.shared ∧
      c.shared.log.count (0, .complete) = 2) ∧
    ∃ c, Threads.Reachable next (initConfig (Fin 2)) c ∧ Acyclic c.shared ∧
      (∀ f, c.shared.committed f = true) ∧ (∀ t, ¬ Busy c t) ∧ ¬ Completed c.shared 0 := by
  constructor
  · obtain ⟨c, hc, hobs⟩ := Option.map_eq_some_iff.1
      (show (exec next (initConfig (Fin 3)) lateSchedule).map
        (fun c => (c.shared.log.count (0, .complete), c.shared.awaits)) =
          some (2, [(0, 2), (0, 1)]) by decide)
    rw [Prod.mk.injEq] at hobs
    refine ⟨c, exec_runs .start hc, acyclic_of_lt ?_, hobs.1⟩
    rw [hobs.2]
    decide
  · obtain ⟨c, hc, hobs⟩ := Option.map_eq_some_iff.1
      (show (exec next (initConfig (Fin 2)) deafSchedule).map
        (fun c => (c.shared.log.count (0, .complete), c.shared.awaits,
          (c.shared.committed 0, c.shared.committed 1),
          (List.range 5).all fun t => match c.pc t with | .returned _ => true | _ => false)) =
          some (0, [(0, 1)], (true, true), true) by decide)
    simp only [Prod.mk.injEq] at hobs
    obtain ⟨hcount, hawaits, ⟨hzero, hone⟩, hret⟩ := hobs
    refine ⟨c, exec_runs .start hc, acyclic_of_lt ?_, Fin.forall_fin_two.2 ⟨hzero, hone⟩,
      fun t hbusy => ?_, ?_⟩
    · rw [hawaits]
      decide
    · by_cases ht : t < 5
      · have hpc := all_eq_true.1 hret t (mem_range.2 ht)
        split at hpc
        · next ret hp => exact hbusy.2 ret hp
        · cases hpc
      · refine hbusy.1 (exec_pc_of_notMem hc fun hmem => ht ?_)
        have hall : ∀ u ∈ deafSchedule.map Prod.fst, u < 5 := by decide
        exact hall t hmem
    · rintro ⟨-, hcomplete⟩
      rw [hcount] at hcomplete
      cases hcomplete

end KmsDrm.I915.SwFence
