import KmsDrm.I915.SwFence.Basic

/-!
# The counts of software fences

A fence is referred to by its wait entries, by the threads that hold a count of it, and until its
commit by its initialisation. As long as this is not zero, `pending` is the number of these
references; from then on, no reference is added and the fence goes through the points of its
completion.

## Main definitions

* `I915.SwFence.State.refs` — the references to a fence.
* `I915.SwFence.Counted` — the invariant, which each change of the state keeps.
-/

namespace KmsDrm.I915.SwFence

open Finset List
open Function (update update_of_ne update_self)

variable {F : Type} [DecidableEq F] [Fintype F]

variable {f : F} {rest : List F} {s s' : State F}

/-! ## References -/

/-- The wait entries of a fence. -/
def State.queued (s : State F) (f : F) : ℕ := ∑ g, (s.queue g ++ s.extra g).count f

/-- The references to a fence. -/
def State.refs (s : State F) (f : F) : ℕ := s.initial f + s.queued f + #(s.flying f)

/-- Two sums whose terms agree but for one differ by that term. -/
lemma sum_of_eq_off {ι : Type} [DecidableEq ι] (S : Finset ι) (φ ψ : ι → ℕ) {i : ι} (hi : i ∈ S)
    (h : ∀ j, j ≠ i → ψ j = φ j) : ∑ j ∈ S, ψ j + φ i = ∑ j ∈ S, φ j + ψ i := by
  rw [← add_sum_erase S ψ hi, ← add_sum_erase S φ hi]
  have hrest : ∑ j ∈ S.erase i, ψ j = ∑ j ∈ S.erase i, φ j :=
    sum_congr rfl fun j hj => h j (ne_of_mem_erase hj)
  omega

/-- The entries for a fence change by those in the one queue that changes. -/
lemma queued_of_eq_off (s s' : State F) (f : F)
    (h : ∀ g, g ≠ f → s'.queue g ++ s'.extra g = s.queue g ++ s.extra g) (e : F) :
    s'.queued e + (s.queue f ++ s.extra f).count e =
      s.queued e + (s'.queue f ++ s'.extra f).count e :=
  sum_of_eq_off univ (fun g => (s.queue g ++ s.extra g).count e)
    (fun g => (s'.queue g ++ s'.extra g).count e) (mem_univ f) fun g hg => by rw [h g hg]

/-- A fence in a queue has an entry. -/
lemma queued_pos {g : F} (h : f ∈ s.queue g ++ s.extra g) : 0 < s.queued f := by
  have hle : (s.queue g ++ s.extra g).count f ≤ s.queued f :=
    single_le_sum (f := fun g => (s.queue g ++ s.extra g).count f) (fun _ _ => Nat.zero_le _)
      (mem_univ g)
  exact Nat.lt_of_lt_of_le (count_pos_iff.2 h) hle

/-- A fence with an entry is in a queue. -/
lemma exists_of_queued_pos (h : 0 < s.queued f) : ∃ g, f ∈ s.queue g ++ s.extra g := by
  by_contra hno
  have hzero : s.queued f = 0 :=
    sum_eq_zero fun g _ => count_eq_zero.2 fun hmem => hno ⟨g, hmem⟩
  omega

/-- A fence in a queue is referred to. -/
lemma refs_pos_of_mem {g : F} (h : f ∈ s.queue g ++ s.extra g) : 0 < s.refs f := by
  have := queued_pos h
  unfold State.refs
  omega

/-- A fence that a thread holds is referred to. -/
lemma refs_pos_of_flying {t : ℕ} (h : t ∈ s.flying f) : 0 < s.refs f := by
  have := card_pos.2 ⟨t, h⟩
  unfold State.refs
  omega

/-! ## The invariant -/

/-- What the invariant says of a fence depends on these. -/
@[ext]
structure View (F : Type) where
  stage : Stage
  pending : ℤ
  refs : ℕ
  queue : List F
  extra : List F
  notified : ℕ
  committed : Bool
  initial : ℕ

/-- The view of a fence. -/
def State.view (s : State F) (f : F) : View F where
  stage := s.stage f
  pending := s.pending f
  refs := s.refs f
  queue := s.queue f
  extra := s.extra f
  notified := s.log.count (f, .complete)
  committed := s.committed f
  initial := s.initial f

/-- What holds at each stage of the life of a fence. -/
def View.Ok (v : View F) : Prop :=
  match v.stage with
  | .raw => v.refs = 0 ∧ v.queue = [] ∧ v.extra = [] ∧ v.notified = 0 ∧ v.committed = false
  | .counting => v.pending = v.refs ∧ 0 < v.refs ∧ v.refs < 2 ^ 31 ∧ v.extra = [] ∧
      v.notified = 0 ∧ v.initial = if v.committed then 0 else 1
  | .completing _ .zero =>
    v.pending = 0 ∧ v.refs = 0 ∧ v.extra = [] ∧ v.notified = 0 ∧ v.committed = true
  | .completing _ .notified =>
    v.pending = 0 ∧ v.refs = 0 ∧ v.extra = [] ∧ v.notified = 1 ∧ v.committed = true
  | .completing _ .marked =>
    v.pending = -1 ∧ v.refs = 0 ∧ v.extra = [] ∧ v.notified = 1 ∧ v.committed = true
  | .completing _ .waking => v.pending = -1 ∧ v.refs = 0 ∧ v.notified = 1 ∧ v.committed = true
  | .finished => v.pending = -1 ∧ v.refs = 0 ∧ v.queue = [] ∧ v.extra = [] ∧ v.notified = 1 ∧
      v.committed = true

/-- The invariant of the counts. -/
def Counted (s : State F) : Prop := ∀ f, (s.view f).Ok

def Stage.Done : Stage → Prop
  | .completing _ .marked => True
  | .completing _ .waking => True
  | .finished => True
  | _ => False

namespace Counted

variable (h : Counted s)

include h

/-- A fence that is referred to is still counting. -/
lemma counting_of_refs (hr : 0 < s.refs f) : s.stage f = .counting := by
  have hf := h f
  rcases hs : s.stage f with _ | _ | ⟨t, _ | _ | _ | _⟩ | _ <;>
    simp only [View.Ok, State.view, hs] at hf ⊢ <;> omega

/-- The count of a fence that is referred to is the number of its references. -/
lemma pending_of_refs (hr : 0 < s.refs f) : s.pending f = s.refs f := by
  have hf := h f
  simp only [State.view, h.counting_of_refs hr] at hf
  exact hf.1

/-- The count is negative from the mark of the completion on. -/
lemma pending_neg_iff (hraw : s.stage f ≠ .raw) : s.pending f < 0 ↔ (s.stage f).Done := by
  have hf := h f
  rcases hs : s.stage f with _ | _ | ⟨t, _ | _ | _ | _⟩ | _ <;>
    simp only [View.Ok, State.view] at hf <;> simp only [Stage.Done] <;> first | omega | simp_all

/-- A fence with a positive count is referred to. -/
lemma refs_of_pending (hraw : s.stage f ≠ .raw) (hp : 0 < s.pending f) : 0 < s.refs f := by
  have hf := h f
  rcases hs : s.stage f with _ | _ | ⟨t, _ | _ | _ | _⟩ | _ <;>
    simp only [View.Ok, State.view] at hf <;> first | omega | simp_all

end Counted

/-! ## How the references change -/

/-- The counts that occur do not wrap around. -/
lemma wrap_of_small {x : ℤ} (hlo : -1 ≤ x) (hhi : x < 2 ^ 31) : wrap x = x := by
  unfold wrap
  rw [Int.bmod_eq_of_le] <;> omega

section Refs

variable {t : ℕ} {g : F} (e : F)

/-- The initialisation is a reference. -/
lemma refs_init (h : s.initial f = 0) :
    ((s.init f).start t).refs e = if e = f then s.refs f + 1 else s.refs e := by
  by_cases he : e = f
  · subst he
    have hq : ((s.init e).start t).queued e = s.queued e := rfl
    simp only [State.refs, State.start_initial, State.init_initial, update_self,
      State.start_flying, State.init_flying, if_true]
    omega
  · have hq : ((s.init f).start t).queued e = s.queued e := rfl
    simp only [State.refs, hq, State.start_initial, State.init_initial,
      update_of_ne he, State.start_flying, State.init_flying, if_neg he]

/-- A commit hands the reference of the initialisation to the thread. -/
lemma refs_commit (h : s.initial f = 1) (ht : t ∉ s.flying f) :
    ((s.commit t f).start t).refs e = s.refs e := by
  have hq : ((s.commit t f).start t).queued e = s.queued e := rfl
  simp only [State.refs, hq, State.start_initial, State.commit_initial, State.start_flying,
    State.commit_flying]
  by_cases he : e = f
  · subst he
    rw [update_self, update_self, card_insert_of_notMem ht]
    omega
  · rw [update_of_ne he, update_of_ne he]

/-- A fence that waits for another one gets a reference. -/
lemma refs_await (ht : t ∉ s.flying f) :
    (s.await t f g).refs e = if e = f then s.refs f + 1 else s.refs e := by
  have hq : (s.await t f g).queued e = s.queued e := rfl
  simp only [State.refs, hq, State.await_initial, State.await_flying]
  by_cases he : e = f
  · subst he
    rw [update_self, card_insert_of_notMem ht, if_pos rfl]
    omega
  · rw [update_of_ne he, if_neg he]

/-- A thread gives its reference up. -/
lemma refs_drop (ht : t ∈ s.flying f) :
    (s.drop t f).refs e = if e = f then s.refs f - 1 else s.refs e := by
  have hq : (s.drop t f).queued e = s.queued e := rfl
  simp only [State.refs, hq, State.drop_initial, State.drop_flying]
  by_cases he : e = f
  · subst he
    have := card_pos.2 ⟨t, ht⟩
    rw [update_self, card_erase_of_mem ht, if_pos rfl]
    omega
  · rw [update_of_ne he, if_neg he]

/-- A thread hands its reference to the wait entry. -/
lemma refs_enqueue (ht : t ∈ s.flying f) : (s.enqueue t f g).refs e = s.refs e := by
  have hq := queued_of_eq_off s (s.enqueue t f g) g
    (fun a ha => by simp [update_of_ne ha]) e
  simp only [State.enqueue_queue, State.enqueue_extra, update_self, count_append] at hq
  simp only [State.refs, State.enqueue_initial, State.enqueue_flying]
  by_cases he : e = f
  · subst he
    have := card_pos.2 ⟨t, ht⟩
    rw [count_singleton_self] at hq
    rw [update_self, card_erase_of_mem ht]
    omega
  · rw [count_singleton, if_neg (by simpa using Ne.symm he)] at hq
    rw [update_of_ne he]
    omega

/-- A wait entry that is taken from a queue is a reference less. -/
lemma refs_pop (hq : s.queue f = g :: rest) :
    (s.pop f g rest).refs e = if e = g then s.refs g - 1 else s.refs e := by
  have hsum := queued_of_eq_off s (s.pop f g rest) f
    (fun a ha => by simp [update_of_ne ha]) e
  simp only [State.pop_queue, State.pop_extra, update_self, hq, cons_append,
    count_cons] at hsum
  simp only [State.refs, State.pop_initial, State.pop_flying]
  by_cases he : e = g
  · subst he
    rw [if_pos (by simp)] at hsum
    rw [if_pos rfl]
    omega
  · rw [if_neg (by simpa using Ne.symm he)] at hsum
    rw [if_neg he]
    omega

/-- Moving the list `extra` back to the queue keeps the entries. -/
lemma refs_splice : (s.splice f).refs e = s.refs e := by
  have hsum := queued_of_eq_off s (s.splice f) f
    (fun a ha => by simp [update_of_ne ha]) e
  simp only [State.splice_queue, State.splice_extra, update_self, append_nil] at hsum
  simp only [State.refs, State.splice_initial, State.splice_flying]
  omega

/-- Moving the queue of another fence to `extra` keeps the entries. -/
lemma refs_moveTail : (s.moveTail g f).refs e = s.refs e := by
  -- first the waiters are added to one list, then they are taken from the other one
  let s1 : State F := { s with extra := update s.extra f (s.extra f ++ s.queue g) }
  have hadd := queued_of_eq_off s s1 f
    (fun a ha => by simp [s1, update_of_ne ha]) e
  have hsub := queued_of_eq_off s1 (s.moveTail g f) g
    (fun a ha => by simp [s1, update_of_ne ha]) e
  simp only [s1, State.moveTail_queue, State.moveTail_extra, update_self,
    count_append, count_nil] at hadd hsub
  simp only [State.refs, State.moveTail_initial, State.moveTail_flying]
  omega

-- The other changes do not touch the references; `simp` needs these below, as equations by `rfl`.

@[simp]
lemma refs_mark (stage : Stage) : (s.mark f stage).refs e = s.refs e := rfl

@[simp]
lemma refs_notify (state : Notify) : (s.notify f state).refs e = s.refs e := rfl

@[simp]
lemma refs_setDone : (s.setDone f).refs e = s.refs e := rfl

@[simp]
lemma refs_take : (s.take t f).refs e = s.refs e := rfl

@[simp]
lemma refs_release : (s.release f).refs e = s.refs e := rfl

end Refs

/-! ## The invariant is kept -/

/-- If a step changes the view of one fence only, the invariant is checked there. -/
lemma Counted.of_view (h : Counted s) (f : F) (hf : (s'.view f).Ok)
    (hoff : ∀ e, e ≠ f → s'.view e = s.view e) : Counted s' := by
  intro e
  by_cases he : e = f
  · rw [he]
    exact hf
  · rw [hoff e he]
    exact h e

namespace Counted

variable (h : Counted s) {t : ℕ} {g : F}

include h

/-- A new fence has one reference. -/
lemma init (hraw : s.stage f = .raw) : Counted ((s.init f).start t) := by
  have hf := h f
  simp only [View.Ok, State.view, hraw] at hf
  obtain ⟨hrefs, -, hextra, hlog, hcommitted⟩ := hf
  have hinit : s.initial f = 0 := by
    unfold State.refs at hrefs
    omega
  refine h.of_view f ?_ fun e he => ?_
  · simp [View.Ok, State.view, refs_init f hinit, hrefs, hextra, hlog, hcommitted]
  · simp [State.view, refs_init e hinit, he]

/-- A commit changes who holds the reference. -/
lemma commit (hraw : s.stage f ≠ .raw) (hc : s.committed f = false) (ht : t ∉ s.flying f) :
    Counted ((s.commit t f).start t) := by
  -- a fence that is not committed still counts
  have hf := h f
  have hcounting : s.stage f = .counting := by
    rcases hs : s.stage f with _ | _ | ⟨u, _ | _ | _ | _⟩ | _ <;>
      simp_all [View.Ok, State.view]
  simp only [State.view, hcounting, hc] at hf
  obtain ⟨hp, hpos, hmax, hextra, hlog, hinit⟩ := hf
  refine h.of_view f ?_ fun e he => ?_
  · simp only [State.view, State.start_stage, State.commit_stage, hcounting,
      refs_commit f hinit ht, State.start_committed, State.commit_committed, State.start_initial,
      State.commit_initial, update_self]
    exact ⟨hp, hpos, hmax, hextra, hlog, rfl⟩
  · simp [State.view, refs_commit e hinit ht, he]

/-- The count and the references go up together. -/
lemma await (hraw : s.stage f ≠ .raw) (hp : 0 < s.pending f) (hmax : s.pending f < 2 ^ 31 - 1)
    (ht : t ∉ s.flying f) : Counted (s.await t f g) := by
  have hrefs := h.refs_of_pending hraw hp
  have hcounting := h.counting_of_refs hrefs
  have hf := h f
  simp only [View.Ok, State.view, hcounting] at hf
  obtain ⟨hpend, hpos, -, hextra, hlog, hinit⟩ := hf
  have hwrap : wrap (s.pending f + 1) = s.refs f + 1 := by
    rw [wrap_of_small (by omega) (by omega), hpend]
  refine h.of_view f ?_ fun e he => ?_
  · simp only [View.Ok, State.view, refs_await f ht, State.await_stage, State.await_pending,
      hcounting, update_self, if_true]
    exact ⟨by omega, by omega, by omega, hextra, hlog, hinit⟩
  · simp [State.view, refs_await e ht, he]

/-- The fence that is waited for is not marked as done yet. -/
lemma enqueue (ht : t ∈ s.flying f) (hg : s.stage g ≠ .raw) (hp : 0 ≤ s.pending g) :
    Counted (s.enqueue t f g) := by
  -- the signaler is not done, so its list `extra` is empty and may have entries
  have hgv := h g
  refine h.of_view g ?_ fun e he => ?_
  · rcases hs : s.stage g with _ | _ | ⟨u, _ | _ | _ | _⟩ | _ <;>
      simp_all [View.Ok, State.view, refs_enqueue g ht]
  · simp [State.view, refs_enqueue e ht, he]

section Dropped

variable (hrefs : 0 < s.refs f) (hpend : s'.pending f = wrap (s.pending f - 1))
  (hrefs' : s'.refs f = s.refs f - 1) (hextra' : s'.extra f = s.extra f) (hlog' : s'.log = s.log)
  (hcommitted' : s'.committed = s.committed) (hinit' : s'.initial = s.initial)

include hrefs hpend hrefs' hextra' hlog' hcommitted' hinit'

/-- After a reference is given up that was not the last one, the fence goes on counting. -/
lemma view_pred (hstage : s'.stage f = s.stage f) (hnz : wrap (s.pending f - 1) ≠ 0) :
    (s'.view f).Ok := by
  have hcounting := h.counting_of_refs hrefs
  have hf := h f
  simp only [View.Ok, State.view, hcounting] at hf
  obtain ⟨hp, hpos, hmax, hextra, hlog, hinit⟩ := hf
  rw [wrap_of_small (by omega) (by omega)] at hpend hnz
  simp only [View.Ok, State.view, hstage, hcounting, hextra', hlog', hcommitted', hinit']
  exact ⟨by omega, by omega, by omega, hextra, hlog, hinit⟩

/-- After the last one, the completion begins. -/
lemma view_zero (hstage : s'.stage f = .completing t .zero) (hz : wrap (s.pending f - 1) = 0) :
    (s'.view f).Ok := by
  have hcounting := h.counting_of_refs hrefs
  have hf := h f
  simp only [View.Ok, State.view, hcounting] at hf
  obtain ⟨hp, hpos, hmax, hextra, hlog, hinit⟩ := hf
  rw [hz] at hpend
  rw [wrap_of_small (by omega) (by omega)] at hz
  simp only [View.Ok, State.view, hstage, hpend, hextra', hlog', hcommitted', true_and]
  refine ⟨by omega, hextra, hlog, ?_⟩
  -- the first count was taken back, so the fence is committed
  have hle : s'.initial f ≤ s'.refs f := by
    unfold State.refs
    omega
  by_contra hc
  rw [if_neg hc] at hinit
  rw [hinit'] at hle
  omega

end Dropped

/-- A thread gives up a reference that is not the last one. -/
lemma drop (ht : t ∈ s.flying f) (hnz : wrap (s.pending f - 1) ≠ 0) : Counted (s.drop t f) := by
  refine h.of_view f ?_ fun e he => ?_
  · exact h.view_pred (refs_pos_of_flying ht) (by simp) (by simp [refs_drop f ht]) rfl rfl rfl rfl
      rfl hnz
  · simp [State.view, refs_drop e ht, he]

/-- A thread gives up the last reference. -/
lemma dropZero (ht : t ∈ s.flying f) (hz : wrap (s.pending f - 1) = 0) :
    Counted ((s.drop t f).mark f (.completing t .zero)) := by
  refine h.of_view f ?_ fun e he => ?_
  · exact h.view_zero (t := t) (refs_pos_of_flying ht) (by simp) (by simp [refs_drop f ht]) rfl rfl
      rfl rfl (by simp) hz
  · simp [State.view, refs_drop e ht, he]

section

variable (hstage : ∃ u, s.stage f = .completing u .waking)

include hstage

/-- A wake-up changes the view of the fence that is woken. -/
lemma of_pop (hq : s.queue f = g :: rest)
    (hg : (s'.view g).Ok) (hview : ∀ e, e ≠ g → s'.view e = (s.pop f g rest).view e) :
    Counted s' := by
  obtain ⟨u, hu⟩ := hstage
  intro e
  by_cases he : e = g
  · rw [he]
    exact hg
  · rw [hview e he]
    by_cases hef : e = f
    · subst hef
      have hf := h e
      simpa [View.Ok, State.view, hu, refs_pop e hq, he] using hf
    · have hsame : (s.pop f g rest).view e = s.view e := by
        simp [State.view, refs_pop e hq, he, hef]
      rw [hsame]
      exact h e

/-- A waiter is woken that has other references. -/
lemma pop (hq : s.queue f = g :: rest) (hnz : wrap (s.pending g - 1) ≠ 0) :
    Counted (s.pop f g rest) := by
  have hpos : 0 < s.refs g := refs_pos_of_mem (g := f) (by simp [hq])
  refine h.of_pop hstage hq ?_ fun e _ => rfl
  exact h.view_pred hpos (by simp) (by simp [refs_pop g hq]) rfl rfl rfl rfl rfl hnz

/-- A waiter is woken that has no other reference. -/
lemma popZero (hq : s.queue f = g :: rest) (hz : wrap (s.pending g - 1) = 0) :
    Counted ((s.pop f g rest).mark g (.completing t .zero)) := by
  have hpos : 0 < s.refs g := refs_pos_of_mem (g := f) (by simp [hq])
  refine h.of_pop hstage hq ?_ fun e he => ?_
  · exact h.view_zero (t := t) hpos (by simp) (by simp [refs_pop g hq]) rfl rfl rfl rfl (by simp) hz
  · simp [State.view, he]

end

/-- The owner is notified once, by the thread that completes. -/
lemma notify (hstage : s.stage f = .completing t .zero) :
    Counted ((s.notify f .complete).mark f (.completing t .notified)) := by
  have hf := h f
  simp only [View.Ok, State.view, hstage] at hf
  obtain ⟨hp, hr, hextra, hlog, hcommitted⟩ := hf
  refine h.of_view f ?_ fun e he => ?_
  · simp [View.Ok, State.view, hp, hr, hextra, hlog, hcommitted]
  · simp [State.view, he, Ne.symm he]

/-- The notification of the release is not counted. -/
lemma notifyFree : Counted (s.notify f .free) := by
  intro e
  have hsame : (s.notify f .free).view e = s.view e := by simp [State.view]
  rw [hsame]
  exact h e

/-- The mark makes the count negative. -/
lemma setDone (hstage : s.stage f = .completing t .notified) :
    Counted ((s.setDone f).mark f (.completing t .marked)) := by
  have hf := h f
  simp only [State.view, hstage] at hf
  obtain ⟨-, hr, hextra, hlog, hcommitted⟩ := hf
  refine h.of_view f ?_ fun e he => ?_
  · simp [View.Ok, State.view, hr, hextra, hlog, hcommitted]
  · simp [State.view, he]

/-- The thread that completes takes the lock of the queue. -/
lemma lock (hstage : s.stage f = .completing t .marked) :
    Counted ((s.take t f).mark f (.completing t .waking)) := by
  have hf := h f
  simp only [State.view, hstage] at hf
  obtain ⟨hp, hr, -, hlog, hcommitted⟩ := hf
  refine h.of_view f ?_ fun e he => ?_
  · simp [View.Ok, State.view, hp, hr, hlog, hcommitted]
  · simp [State.view, he]

/-- It ends when no waiter is left. -/
lemma unlock (hstage : s.stage f = .completing t .waking) (hq : s.queue f = [])
    (hx : s.extra f = []) : Counted ((s.release f).mark f .finished) := by
  have hf := h f
  simp only [State.view, hstage] at hf
  obtain ⟨hp, hr, hlog, hcommitted⟩ := hf
  refine h.of_view f ?_ fun e he => ?_
  · simp [View.Ok, State.view, hp, hr, hlog, hcommitted, hq, hx]
  · simp [State.view, he]

/-- It goes on with the waiters that were moved to its list. -/
lemma splice (hstage : s.stage f = .completing t .waking) : Counted (s.splice f) := by
  have hf := h f
  refine h.of_view f ?_ fun e he => ?_
  · simpa [View.Ok, State.view, hstage, refs_splice] using hf
  · simp [State.view, refs_splice, he]

/-- A fence that completes on the way leaves its waiters to the one that began. -/
lemma moveTail {u : ℕ} (hg : s.stage g = .completing t .marked)
    (hf : s.stage f = .completing u .waking) : Counted ((s.moveTail g f).mark g .finished) := by
  have hne : g ≠ f := by
    rintro rfl
    rw [hf] at hg
    cases hg
  have hgv := h g
  have hfv := h f
  simp only [State.view, hg] at hgv
  obtain ⟨hp, hr, hextra, hlog, hcommitted⟩ := hgv
  intro e
  by_cases heg : e = g
  · subst heg
    simp [View.Ok, State.view, refs_moveTail, hp, hr, hlog, hcommitted, hextra, hne]
  · by_cases hef : e = f
    · subst hef
      simpa [View.Ok, State.view, refs_moveTail, hf, heg] using hfv
    · have hsame : ((s.moveTail g f).mark g .finished).view e = s.view e := by
        simp [State.view, refs_moveTail, heg, hef]
      rw [hsame]
      exact h e

end Counted

end KmsDrm.I915.SwFence
