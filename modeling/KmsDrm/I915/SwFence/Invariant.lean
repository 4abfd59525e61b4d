import KmsDrm.I915.SwFence.Counting

/-!
# The invariant of software fences under concurrent calls

What the program point of a thread says is recorded in the shared state: the fences that the
thread completes, the counts that it holds, and the locks that it holds. Together with the
invariant of the counts, this holds after every step that is no misuse.

## Main results

* `I915.SwFence.Inv.step` — a step keeps the invariant.
* `I915.SwFence.inv_of_runs` — the invariant holds in every state of a run without misuse.
-/

namespace KmsDrm.I915.SwFence

open KmsDrm.Lib Relation List
open Function (update update_apply update_of_ne update_self)

variable {F : Type}

/-! ## What a program point says -/

namespace Pc

/-- The thread is at a point of the completion of a fence. -/
def AtPoint : Pc F → F × Point → Prop
  | .notify f _, x => x = (f, .zero)
  | .setDone f _, x => x = (f, .notified)
  | .lock f _, x => x = (f, .marked)
  | .loop f _, x => x = (f, .waking)
  | .nestedNotify g f _, x => x = (g, .zero) ∨ x = (f, .waking)
  | .nestedSetDone g f _, x => x = (g, .notified) ∨ x = (f, .waking)
  | .nestedMove g f _, x => x = (g, .marked) ∨ x = (f, .waking)
  | .nestedFree _ f _, x => x = (f, .waking)
  | _, _ => False

/-- The thread holds a count of a fence. -/
def Token : Pc F → F → Prop
  | .enqueue f _, e => f = e
  | .commit f, e => f = e
  | .dec f _, e => f = e
  | _, _ => False

/-- The thread holds the lock of a fence. -/
def Holds : Pc F → F → Prop
  | .dec _ ctx, e => ctx = some e
  | .notify _ ctx, e => ctx = some e
  | .setDone _ ctx, e => ctx = some e
  | .lock _ ctx, e => ctx = some e
  | .loop f ctx, e => f = e ∨ ctx = some e
  | .free _ ctx, e => ctx = some e
  | .nestedNotify _ f ctx, e => f = e ∨ ctx = some e
  | .nestedSetDone _ f ctx, e => f = e ∨ ctx = some e
  | .nestedMove _ f ctx, e => f = e ∨ ctx = some e
  | .nestedFree _ f ctx, e => f = e ∨ ctx = some e
  | .leave g, e => g = e
  | _, _ => False

@[simp]
lemma atPoint_after (ctx : Option F) (x : F × Point) : (after ctx).AtPoint x ↔ False := by
  cases ctx <;> rfl

@[simp]
lemma token_after (ctx : Option F) (e : F) : (after ctx).Token e ↔ False := by
  cases ctx <;> rfl

@[simp]
lemma holds_after (ctx : Option F) (e : F) : (after ctx).Holds e ↔ ctx = some e := by
  cases ctx <;> simp [after, Holds]

end Pc

/-- The thread completes a fence and is at the given point. -/
def State.AtPoint (s : State F) (t : ℕ) (x : F × Point) : Prop := s.stage x.1 = .completing t x.2

/-- An await of a fence for a signaler took effect. -/
def State.Awaits (s : State F) (f g : F) : Prop := (f, g) ∈ s.awaits

/-- The fence awaits the signaler whose lock is held in its completion. -/
def State.Context (s : State F) (f : F) (ctx : Option F) : Prop :=
  ∀ a, ctx = some a → s.Awaits f a ∧ a ≠ f

/-- How the fences of a program point are related. A fence that is completed on the way awaits the
one at which the wake-up started, perhaps through others. -/
def Pc.Path (s : State F) : Pc F → Prop
  | .check f g _ => s.stage f ≠ .raw ∧ s.stage g ≠ .raw
  | .alloc f g _ => s.stage f ≠ .raw ∧ s.stage g ≠ .raw
  | .sleep f g => s.stage f ≠ .raw ∧ s.stage g ≠ .raw
  | .await f g => s.stage f ≠ .raw ∧ s.stage g ≠ .raw
  | .enqueue f g => s.Awaits f g ∧ s.stage g ≠ .raw
  | .dec f ctx => s.Context f ctx
  | .notify f ctx => s.Context f ctx
  | .setDone f ctx => s.Context f ctx
  | .lock f ctx => s.Context f ctx
  | .loop f ctx => s.Context f ctx
  | .nestedNotify g f ctx => TransGen s.Awaits g f ∧ s.Context f ctx
  | .nestedSetDone g f ctx => TransGen s.Awaits g f ∧ s.Context f ctx
  | .nestedMove g f ctx => TransGen s.Awaits g f ∧ s.Context f ctx
  | .nestedFree _ f ctx => s.Context f ctx
  | _ => True

lemma Pc.path_after (s : State F) (ctx : Option F) : (Pc.after ctx).Path s := by
  cases ctx <;> trivial

/-- Nothing is taken back: the awaits, and the initialisation of fences. -/
structure State.Le (s s' : State F) : Prop where
  awaits : ∀ f g, s.Awaits f g → s'.Awaits f g
  raw : ∀ f, s.stage f ≠ .raw → s'.stage f ≠ .raw

lemma Pc.Path.mono {s s' : State F} (h : s.Le s') {p : Pc F} (hp : p.Path s) : p.Path s' := by
  have htrans : ∀ {f g}, TransGen s.Awaits f g → TransGen s'.Awaits f g :=
    fun hfg => TransGen.mono h.awaits _ _ hfg
  have hctx : ∀ {f ctx}, s.Context f ctx → s'.Context f ctx :=
    fun hc a ha => ⟨h.awaits _ a (hc a ha).1, (hc a ha).2⟩
  cases p with
  | check f g wq | alloc f g b | sleep f g | await f g => exact ⟨h.raw f hp.1, h.raw g hp.2⟩
  | enqueue f g => exact ⟨h.awaits f g hp.1, h.raw g hp.2⟩
  | dec f ctx | notify f ctx | setDone f ctx | lock f ctx | loop f ctx | nestedFree _ f ctx =>
    exact hctx hp
  | nestedNotify g f ctx | nestedSetDone g f ctx | nestedMove g f ctx =>
    exact ⟨htrans hp.1, hctx hp.2⟩
  | _ => trivial

variable [DecidableEq F]

lemma Step.le {t : ℕ} {s s' : State F} {p p' : Pc F} (h : Step t s p s' p') : s.Le s' := by
  have hmark : ∀ (r : State F) f st, st ≠ Stage.raw → ∀ e, r.stage e ≠ .raw →
      (r.mark f st).stage e ≠ .raw := by
    intro r f st hst e he
    simp only [State.mark_stage, update_apply]
    split_ifs
    · exact hst
    · exact he
  cases h with
  | init f _ => exact ⟨fun _ _ h => h, hmark s f .counting (by simp)⟩
  | checkDone f g _ _ _ | sleepDone f g _ _ =>
    exact ⟨fun _ _ h => .tail _ h, fun _ h => h⟩
  | await f g _ _ => exact ⟨fun _ _ h => .tail _ h, fun _ h => h⟩
  | decZero f _ _ | notify f _ | setDone f _ | lock f _ _ | popZero _ _ f _ _ _ | unlock f _ _ _
  | nestedNotify f _ _ | nestedSetDone f _ _ | nestedMove f _ _ _ =>
    exact ⟨fun _ _ h => h, hmark _ f _ (by simp)⟩
  | _ => exact ⟨fun _ _ h => h, fun _ h => h⟩

/-! ## What the threads own -/

section Owned

variable {t u : ℕ} {s s' : State F} {p p' : Pc F} (h : Step t s p s' p')

include h

lemma Step.token_other (hu : u ≠ t) (e : F) : u ∈ s'.flying e ↔ u ∈ s.flying e := by
  have hins : ∀ f, u ∈ update s.flying f (insert t (s.flying f)) e ↔ u ∈ s.flying e := by
    intro f
    by_cases he : e = f
    · subst he
      simp [hu]
    · simp [he]
  have hera : ∀ f, u ∈ update s.flying f ((s.flying f).erase t) e ↔ u ∈ s.flying e := by
    intro f
    by_cases he : e = f
    · subst he
      simp [hu]
    · simp [he]
  cases h with
  | commitCall f _ _ => exact hins f
  | await f g _ _ => exact hins f
  | enqueue f g _ _ => exact hera f
  | decZero f _ _ | dec f _ _ => exact hera f
  | _ => rfl

lemma Step.token_self (hcount : ∀ e, p.Token e ↔ t ∈ s.flying e)
    (hwarn : ∀ f, p = .commit f → 0 ≤ s.pending f) (e : F) : p'.Token e ↔ t ∈ s'.flying e := by
  have hins : ∀ f, (∀ e, t ∉ s.flying e) →
      (f = e ↔ t ∈ update s.flying f (insert t (s.flying f)) e) := by
    intro f hnone
    by_cases he : e = f
    · subst he
      simp
    · simp [he, hnone, Ne.symm he]
  have hera : ∀ f, (∀ e, f = e ↔ t ∈ s.flying e) →
      (False ↔ t ∈ update s.flying f ((s.flying f).erase t) e) := by
    intro f hf
    by_cases he : e = f
    · subst he
      simp
    · simp [he, ← hf e, Ne.symm he]
  cases h with
  | commitCall f _ _ | await f g _ _ => exact hins f fun e => (hcount e).not.1 id
  | enqueue f g _ _ => exact hera f hcount
  | decZero f _ _ => exact hera f hcount
  | dec f ctx _ => exact (Pc.token_after ctx e).trans (hera f hcount)
  | commitWarn f hneg =>
    have := hwarn f rfl
    omega
  | free f ctx => exact (Pc.token_after ctx e).trans (hcount e)
  | _ => exact hcount e

lemma Step.lock_other (hholds : ∀ e, p.Holds e ↔ s.lock e = some t) (hu : u ≠ t) (e : F) :
    s'.lock e = some u ↔ s.lock e = some u := by
  have htake : ∀ f, s.lock f = none →
      (update s.lock f (some t) e = some u ↔ s.lock e = some u) := by
    intro f hf
    by_cases he : e = f
    · subst he
      simp [hf, Ne.symm hu]
    · simp [he]
  have hrel : ∀ f, s.lock f = some t → (update s.lock f none e = some u ↔ s.lock e = some u) := by
    intro f hf
    by_cases he : e = f
    · subst he
      simp [hf, Ne.symm hu]
    · simp [he]
  cases h with
  | enqueueDone f g hl _ => exact htake g hl
  | lock f _ hl => exact htake f hl
  | unlock f _ _ _ => exact hrel f ((hholds f).1 (.inl rfl))
  | leave g => exact hrel g ((hholds g).1 rfl)
  | _ => rfl

lemma Step.lock_self (hholds : ∀ e, p.Holds e ↔ s.lock e = some t) (hpath : p.Path s) (e : F) :
    p'.Holds e ↔ s'.lock e = some t := by
  cases h with
  | enqueueDone f g hl _ | leave g =>
    by_cases he : e = g
    · subst he
      simp [Pc.Holds]
    · simpa [Pc.Holds, he, Ne.symm he] using hholds e
  | lock f ctx hl =>
    by_cases he : e = f
    · subst he
      simp [Pc.Holds]
    · simpa [Pc.Holds, he, Ne.symm he] using hholds e
  | unlock f ctx _ _ =>
    by_cases he : e = f
    · subst he
      have hne : ctx ≠ some e := fun hctx => (hpath e hctx).2 rfl
      simp [Pc.Holds, hne]
    · simpa [Pc.Holds, he, Ne.symm he] using hholds e
  | dec f ctx _ | free f ctx => exact (Pc.holds_after ctx e).trans (hholds e)
  | commitGo f => simpa [Pc.Holds] using hholds e
  | _ => exact hholds e

/-- The thread can only change the stage of a fence that it completes, or of one that no thread
completes. -/
def Step.Free (t : ℕ) (s : State F) (f : F) : Prop := ∀ u q, s.stage f = .completing u q → u = t

lemma Step.point_other (hpt : ∀ x, p.AtPoint x ↔ s.AtPoint t x)
    (hdec : ∀ f, (∃ ctx, p = .dec f ctx) → Step.Free t s f)
    (hpop : ∀ f ctx g rest, p = .loop f ctx → s.queue f = g :: rest → Step.Free t s g) (hu : u ≠ t)
    (x : F × Point) : s'.AtPoint u x ↔ s.AtPoint u x := by
  have hset : ∀ f st, Step.Free t s f → (∀ q, st ≠ .completing u q) →
      (update s.stage f st x.1 = .completing u x.2 ↔ s.stage x.1 = .completing u x.2) := by
    intro f st hfree hst
    by_cases hx : x.1 = f
    · rw [hx, update_self]
      exact iff_of_false (hst x.2) fun hs => hu (hfree u x.2 hs)
    · rw [update_of_ne hx]
  have hmine : ∀ f q, s.AtPoint t (f, q) → Step.Free t s f := by
    intro f q hf v r hv
    have := hf.symm.trans hv
    cases this
    rfl
  cases h with
  | init f hraw => exact hset f _ (by simp [Step.Free, hraw]) (by simp)
  | decZero f ctx _ => exact hset f _ (hdec f ⟨ctx, rfl⟩) (by simp [Ne.symm hu])
  | popZero f ctx g rest hq _ => exact hset g _ (hpop f ctx g rest rfl hq) (by simp [Ne.symm hu])
  | notify f ctx | setDone f ctx | lock f ctx _ =>
    exact hset f _ (hmine f _ ((hpt _).1 rfl)) (by simp [Ne.symm hu])
  | unlock f ctx _ _ => exact hset f _ (hmine f _ ((hpt _).1 rfl)) (by simp)
  | nestedNotify g f ctx => exact hset g _ (hmine g _ ((hpt _).1 (.inl rfl))) (by simp [Ne.symm hu])
  | nestedSetDone g f ctx =>
    exact hset g _ (hmine g _ ((hpt _).1 (.inl rfl))) (by simp [Ne.symm hu])
  | nestedMove g f ctx _ => exact hset g _ (hmine g _ ((hpt _).1 (.inl rfl))) (by simp)
  | _ => rfl

lemma Step.point_self (hpt : ∀ x, p.AtPoint x ↔ s.AtPoint t x)
    (hpop : ∀ f ctx g rest, p = .loop f ctx → s.queue f = g :: rest → g ≠ f)
    (x : F × Point) : p'.AtPoint x ↔ s'.AtPoint t x := by
  have hset : ∀ f q, (update s.stage f (.completing t q) x.1 = .completing t x.2 ↔
      x = (f, q) ∨ (p.AtPoint x ∧ x.1 ≠ f)) := by
    intro f q
    obtain ⟨e, r⟩ := x
    by_cases he : e = f
    · subst he
      simp [eq_comm]
    · simp [he, hpt, State.AtPoint]
  have hend : ∀ f, (update s.stage f .finished x.1 = .completing t x.2 ↔
      p.AtPoint x ∧ x.1 ≠ f) := by
    intro f
    obtain ⟨e, r⟩ := x
    by_cases he : e = f
    · subst he
      simp
    · simp [he, hpt, State.AtPoint]
  -- the fence that the thread completes goes on to the next point
  have hone : ∀ f q q', (∀ y, p.AtPoint y → y = (f, q)) →
      (x = (f, q') ↔ update s.stage f (.completing t q') x.1 = .completing t x.2) := by
    intro f q q' hp
    rw [hset]
    refine ⟨.inl, ?_⟩
    rintro (hx | ⟨hx, hne⟩)
    · exact hx
    · rw [hp x hx] at hne
      exact absurd rfl hne
  -- the same, while the waiters of another fence are being woken
  have htwo : ∀ g f q q', q ≠ .waking → (∀ y, p.AtPoint y ↔ y = (g, q) ∨ y = (f, .waking)) →
      (x = (g, q') ∨ x = (f, .waking) ↔
        update s.stage g (.completing t q') x.1 = .completing t x.2) := by
    intro g f q q' hq hp
    have hne : g ≠ f := by
      rintro rfl
      have hg := ((hpt (g, q)).1 ((hp _).2 (.inl rfl))).symm.trans
        ((hpt (g, .waking)).1 ((hp _).2 (.inr rfl)))
      simp only [Stage.completing.injEq] at hg
      exact hq hg.2
    rw [hset, hp]
    constructor
    · rintro (hx | hx)
      · exact .inl hx
      · subst hx
        exact .inr ⟨.inr rfl, Ne.symm hne⟩
    · rintro (hx | ⟨hx | hx, hxg⟩)
      · exact .inl hx
      · subst hx
        exact absurd rfl hxg
      · exact .inr hx
  cases h with
  | init f hraw =>
    have hx := hpt x
    by_cases he : x.1 = f
    · simp [Pc.AtPoint, State.AtPoint, he]
    · simpa [Pc.AtPoint, State.AtPoint, he] using hx
  | decZero f ctx _ => exact hone f .zero .zero fun y hy => hy.elim
  | notify f ctx | setDone f ctx | lock f ctx _ => exact hone f _ _ fun y hy => hy
  | popZero f ctx g rest hq _ =>
    have hne := hpop f ctx g rest rfl hq
    refine Iff.trans ?_ (hset g .zero).symm
    constructor
    · rintro (hx | hx)
      · exact .inl hx
      · subst hx
        exact .inr ⟨rfl, Ne.symm hne⟩
    · rintro (hx | ⟨hx, -⟩)
      · exact .inl hx
      · exact .inr hx
  | unlock f ctx _ _ =>
    refine Iff.trans ?_ (hend f).symm
    refine ⟨fun hx => hx.elim, ?_⟩
    rintro ⟨hx, hne⟩
    exact hne (congrArg Prod.fst hx)
  | nestedNotify g f ctx | nestedSetDone g f ctx => exact htwo g f _ _ (by simp) fun y => Iff.rfl
  | nestedMove g f ctx _ =>
    have hne : g ≠ f := by
      rintro rfl
      have hg := ((hpt (g, .marked)).1 (.inl rfl)).symm.trans ((hpt (g, .waking)).1 (.inr rfl))
      cases hg
    refine Iff.trans ?_ (hend g).symm
    constructor
    · rintro rfl
      exact ⟨.inr rfl, Ne.symm hne⟩
    · rintro ⟨hx | hx, hxg⟩
      · subst hx
        exact absurd rfl hxg
      · exact hx
  | dec f ctx _ | free f ctx => exact (Pc.atPoint_after ctx x).trans (hpt x)
  | _ => exact hpt x

end Owned

/-! ## The invariant -/

variable [Fintype F]

/-- The invariant of the fences and the threads. -/
structure Inv (c : Config F) : Prop where
  counted : Counted c.shared
  points : Threads.Linked Pc.AtPoint State.AtPoint c
  tokens : Threads.Linked Pc.Token (fun s t f => t ∈ s.flying f) c
  locks : Threads.Linked Pc.Holds (fun s t f => s.lock f = some t) c
  path : ∀ t, (c.pc t).Path c.shared
  /-- A fence in a list awaits the fence of the list. -/
  entries : ∀ f g, f ∈ c.shared.queue g ++ c.shared.extra g → TransGen c.shared.Awaits f g
  /-- A signaler that is not done has a wait entry, or will get it. -/
  awaited : ∀ f g, c.shared.Awaits f g →
    (c.shared.stage g).Done ∨ f ∈ c.shared.queue g ∨ ∃ t, c.pc t = .enqueue f g

lemma inv_init : Inv (initConfig F) := by
  refine ⟨fun f => ?_, fun t x => ?_, fun t f => ?_, fun t f => ?_, fun _ => trivial, ?_, ?_⟩
  · simp [View.Ok, State.view, initConfig, State.refs, State.queued]
  · simp [Pc.AtPoint, State.AtPoint, initConfig]
  · simp [Pc.Token, initConfig]
  · simp [Pc.Holds, initConfig]
  · simp [initConfig]
  · simp [initConfig, State.Awaits]

section StepInv

variable {t : ℕ} {s s' : State F} {p p' : Pc F} (h : Step t s p s' p') (hc : Counted s)
  (hpt : ∀ x, p.AtPoint x ↔ s.AtPoint t x) (htok : ∀ e, p.Token e ↔ t ∈ s.flying e)
  (hpath : p.Path s)

include hc htok

lemma pending_pos_of_token {e : F} (he : p.Token e) : 0 < s.pending e := by
  have hrefs := refs_pos_of_flying ((htok e).1 he)
  have := hc.pending_of_refs hrefs
  omega

include h hpath

lemma Step.counted (hpt : ∀ x, p.AtPoint x ↔ s.AtPoint t x) : Counted s' := by
  cases h with
  | init f hraw => exact hc.init hraw
  | commitCall f hf hcom => exact hc.commit hf hcom ((htok f).not.1 id)
  | await f g hp hmax => exact hc.await hpath.1 hp hmax ((htok f).not.1 id)
  | enqueue f g _ hp => exact hc.enqueue ((htok f).1 rfl) hpath.2 hp
  | decZero f ctx hz => exact hc.dropZero ((htok f).1 rfl) hz
  | dec f ctx hnz => exact hc.drop ((htok f).1 rfl) hnz
  | notify f ctx => exact hc.notify ((hpt _).1 rfl)
  | setDone f ctx => exact hc.setDone ((hpt _).1 rfl)
  | lock f ctx _ => exact hc.lock ((hpt _).1 rfl)
  | popZero f ctx g rest hq hz => exact hc.popZero ⟨t, (hpt (f, .waking)).1 rfl⟩ hq hz
  | pop f ctx g rest hq hnz => exact hc.pop ⟨t, (hpt (f, .waking)).1 rfl⟩ hq hnz
  | unlock f ctx hq he => exact hc.unlock ((hpt (f, .waking)).1 rfl) hq he
  | splice f ctx _ _ => exact hc.splice ((hpt (f, .waking)).1 rfl)
  | nestedNotify g f ctx => exact hc.notify ((hpt _).1 (.inl rfl))
  | nestedSetDone g f ctx => exact hc.setDone ((hpt _).1 (.inl rfl))
  | nestedMove g f ctx _ =>
    exact hc.moveTail ((hpt (g, .marked)).1 (.inl rfl)) ((hpt (f, .waking)).1 (.inr rfl))
  | free f ctx => exact hc.notifyFree
  | nestedFree g f ctx => exact hc.notifyFree
  | _ => exact hc

lemma Step.path (hentries : ∀ f g, f ∈ s.queue g ++ s.extra g → TransGen s.Awaits f g) :
    p'.Path s' := by
  cases h with
  | awaitCall f g wq hf hg => exact ⟨hf, hg⟩
  | await f g _ _ => exact ⟨.head _, hpath.2⟩
  | enqueueDone f g _ hneg =>
    rintro a ⟨⟩
    refine ⟨hpath.1, fun heq => ?_⟩
    have hpos := pending_pos_of_token hc htok (e := f) rfl
    rw [heq] at hneg
    omega
  | commitGo f =>
    rintro a ⟨⟩
  | dec f ctx _ | free f ctx => exact Pc.path_after _ ctx
  | popZero f ctx g rest hq _ => exact ⟨hentries g f (by simp [hq]), hpath⟩
  | nestedMove g f ctx _ => exact hpath.2
  | init _ _ | commitCall _ _ _ | checkDone _ _ _ _ _ | allocFail _ _ | sleepDone _ _ _ _
  | enqueue _ _ _ _ | commitWarn _ _ | unlock _ _ _ _ | leave _ => trivial
  | _ => exact hpath

omit [Fintype F] hc htok in
lemma Step.entries (hentries : ∀ f g, f ∈ s.queue g ++ s.extra g → TransGen s.Awaits f g)
    (e g : F) (he : e ∈ s'.queue g ++ s'.extra g) : TransGen s'.Awaits e g := by
  refine TransGen.mono h.le.awaits _ _ ?_
  cases h with
  | enqueue f g' _ _ =>
    by_cases hg : g = g'
    · subst hg
      simp only [State.enqueue_queue, update_self, mem_append, mem_singleton] at he
      rcases he with (he | rfl) | he
      · exact hentries e g (mem_append_left _ he)
      · exact .single hpath.1
      · exact hentries e g (mem_append_right _ he)
    · exact hentries e g (by simpa [hg] using he)
  | popZero f ctx g' rest hq _ | pop f ctx g' rest hq _ =>
    by_cases hg : g = f
    · subst hg
      simp only [State.mark_queue, State.pop_queue, update_self, mem_append] at he
      refine hentries e g ?_
      rw [hq]
      exact .tail _ (mem_append.2 he)
    · exact hentries e g (by simpa [hg] using he)
  | splice f ctx _ _ =>
    by_cases hg : g = f
    · subst hg
      exact hentries e g (by simpa using he)
    · exact hentries e g (by simpa [hg] using he)
  | nestedMove g' f ctx _ =>
    obtain ⟨hgf, -⟩ := hpath
    simp only [State.mark_queue, State.mark_extra, State.moveTail_queue, State.moveTail_extra,
      mem_append] at he
    rcases he with he | he
    · by_cases hg : g = g'
      · subst hg
        simp at he
      · rw [update_of_ne hg] at he
        exact hentries e g (mem_append_left _ he)
    · by_cases hg : g = f
      · subst hg
        rw [update_self, mem_append] at he
        rcases he with he | he
        · exact hentries e g (mem_append_right _ he)
        · exact (hentries e g' (mem_append_left _ he)).trans hgf
      · rw [update_of_ne hg] at he
        exact hentries e g (mem_append_right _ he)
  | _ => exact hentries e g he

omit hpath in
lemma Step.done (hpt : ∀ x, p.AtPoint x ↔ s.AtPoint t x) {e : F} (he : (s.stage e).Done) :
    (s'.stage e).Done := by
  have hset : ∀ f st, (Stage.Done (s.stage f) → Stage.Done st) → (update s.stage f st e).Done := by
    intro f st hst
    by_cases hef : e = f
    · subst hef
      rw [update_self]
      exact hst he
    · rwa [update_of_ne hef]
  cases h with
  | init f hraw => exact hset f _ (by simp [hraw, Stage.Done])
  | decZero f ctx _ =>
    have hcounting := hc.counting_of_refs (refs_pos_of_flying ((htok f).1 rfl))
    exact hset f _ (by simp [hcounting, Stage.Done])
  | popZero f ctx g rest hq _ =>
    have hcounting := hc.counting_of_refs (refs_pos_of_mem (f := g) (g := f) (by simp [hq]))
    exact hset g _ (by simp [hcounting, Stage.Done])
  | notify f ctx =>
    have hzero : s.stage f = _ := (hpt (f, .zero)).1 rfl
    exact hset f _ (by simp [hzero, Stage.Done])
  | nestedNotify g f ctx =>
    have hzero : s.stage g = _ := (hpt (g, .zero)).1 (.inl rfl)
    exact hset g _ (by simp [hzero, Stage.Done])
  | setDone f ctx | lock f ctx _ | unlock f ctx _ _ => exact hset f _ fun _ => trivial
  | nestedSetDone g f ctx | nestedMove g f ctx _ => exact hset g _ fun _ => trivial
  | _ => exact he

omit hpath in
lemma Step.queue (hpt : ∀ x, p.AtPoint x ↔ s.AtPoint t x) {e g : F} (he : e ∈ s.queue g) :
    (s'.stage g).Done ∨ e ∈ s'.queue g := by
  cases h with
  | enqueue f g' _ _ =>
    refine .inr ?_
    by_cases hg : g = g'
    · subst hg
      simp [he]
    · simpa [hg] using he
  | popZero f ctx g' rest hq hz =>
    by_cases hg : g = f
    · subst hg
      have hdone : (s.stage g).Done := by
        rw [show s.stage g = _ from (hpt (g, .waking)).1 rfl]
        trivial
      exact .inl (Step.done (.popZero g ctx g' rest hq hz) hc htok hpt hdone)
    · exact .inr (by simpa [hg] using he)
  | pop f ctx g' rest hq hz =>
    by_cases hg : g = f
    · subst hg
      refine .inl ?_
      rw [State.pop_stage, show s.stage g = _ from (hpt (g, .waking)).1 rfl]
      trivial
    · exact .inr (by simpa [hg] using he)
  | splice f ctx _ _ =>
    refine .inr ?_
    by_cases hg : g = f
    · subst hg
      simp [he]
    · simpa [hg] using he
  | nestedMove g' f ctx _ =>
    by_cases hg : g = g'
    · subst hg
      exact .inl (by simp [Stage.Done])
    · exact .inr (by simpa [hg] using he)
  | _ => exact .inr he

omit htok in
lemma Step.awaits {e g : F} (he : s'.Awaits e g) :
    s.Awaits e g ∨ (s'.stage g).Done ∨ p' = .enqueue e g := by
  cases h with
  | checkDone f g' _ hneg _ | sleepDone f g' hneg _ =>
    rcases mem_cons.1 he with heq | he
    · cases heq
      exact .inr (.inl ((hc.pending_neg_iff hpath.2).1 hneg))
    · exact .inl he
  | await f g' _ _ =>
    rcases mem_cons.1 he with heq | he
    · cases heq
      exact .inr (.inr rfl)
    · exact .inl he
  | _ => exact .inl he

omit htok in
lemma Step.enqueued {e g : F} (hp : p = .enqueue e g) : (s'.stage g).Done ∨ e ∈ s'.queue g := by
  cases h with
  | enqueue f g' _ _ =>
    cases hp
    exact .inr (by simp)
  | enqueueDone f g' _ hneg =>
    cases hp
    exact .inl ((hc.pending_neg_iff hpath.2).1 hneg)
  | _ => cases hp

end StepInv

/-- **A step keeps the invariant.** -/
theorem Inv.step {c : Config F} (h : Inv c) {t : ℕ} {s' : State F} {p' : Pc F}
    (hs : Step t c.shared (c.pc t) s' p') : Inv (c.move t s' p') := by
  have hpt := h.points t
  have htok := h.tokens t
  have hpath := h.path t
  have hmem : ∀ f ctx g rest, c.pc t = .loop f ctx → c.shared.queue f = g :: rest →
      0 < c.shared.refs g :=
    fun f ctx g rest _ hq => refs_pos_of_mem (g := f) (by simp [hq])
  have hfree : ∀ g, 0 < c.shared.refs g → Step.Free t c.shared g := by
    intro g hg u q hq
    rw [h.counted.counting_of_refs hg] at hq
    cases hq
  refine ⟨hs.counted h.counted htok hpath hpt, h.points.move ?_ ?_, h.tokens.move ?_ ?_,
    h.locks.move ?_ ?_, fun u => ?_, hs.entries hpath h.entries, ?_⟩
  · refine hs.point_self hpt fun f ctx g rest hp hq heq => ?_
    have hwake : c.shared.stage f = .completing t .waking := (hpt (f, .waking)).1 (by rw [hp]; rfl)
    rw [← heq, h.counted.counting_of_refs (hmem f ctx g rest hp hq)] at hwake
    cases hwake
  · refine fun u hu => hs.point_other hpt (fun f hp => ?_)
      (fun f ctx g rest hp hq => hfree g (hmem f ctx g rest hp hq)) hu
    obtain ⟨ctx, hp⟩ := hp
    exact hfree f (refs_pos_of_flying ((htok f).1 (by rw [hp]; rfl)))
  · refine hs.token_self htok fun f hp => ?_
    have := pending_pos_of_token h.counted htok (e := f) (by rw [hp]; rfl)
    omega
  · exact fun u hu => hs.token_other hu
  · exact hs.lock_self (h.locks t) hpath
  · exact fun u hu => hs.lock_other (h.locks t) hu
  · by_cases hu : u = t
    · subst hu
      rw [c.move_pc_self]
      exact hs.path h.counted htok hpath h.entries
    · rw [c.move_pc_of_ne s' p' hu]
      exact (h.path u).mono hs.le
  · intro f g hfg
    rcases hs.awaits h.counted hpath hfg with hold | hdone | hp'
    · rcases h.awaited f g hold with hdone | hq | ⟨u, hu⟩
      · exact .inl (hs.done h.counted htok hpt hdone)
      · rcases hs.queue h.counted htok hpt hq with hdone | hq
        · exact .inl hdone
        · exact .inr (.inl hq)
      · by_cases hut : u = t
        · subst hut
          rcases hs.enqueued h.counted hpath hu with hdone | hq
          · exact .inl hdone
          · exact .inr (.inl hq)
        · exact .inr (.inr ⟨u, by rw [c.move_pc_of_ne s' p' hut, hu]⟩)
    · exact .inl hdone
    · exact .inr (.inr ⟨t, by rw [c.move_pc_self, hp']⟩)

lemma inv_of_runs {c : Config F} (h : Threads.Runs next Legal (initConfig F) c) : Inv c := by
  refine Threads.Runs.invariant inv_init (fun c t x s' p' hinv hlegal hnext => ?_) h
  exact hinv.step (step_of_next hlegal hnext)

end KmsDrm.I915.SwFence
