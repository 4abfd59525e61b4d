import KmsDrm.Vblank.Basic

/-!
# The balance of the references to vertical blanks

The counter of a CRTC is the number of references that callers hold, plus the pending events of the
CRTC, plus one during the lockout. `drm_vblank_enable` drops a reference when it fails, as its
caller `drm_vblank_get` expects; `drm_crtc_vblank_on` has none to drop, so that a failure there
drops a reference of somebody else, or makes the counter negative.

## Main results

* `Vblank.vblank_refcount_balanced` — the balance and the events in every run under the
  condition.
* `Vblank.vblank_on_fails` — two runs in which `drm_crtc_vblank_on` finds `enable_vblank`
  failing.
-/

namespace KmsDrm.Vblank

open KmsDrm.Lib List Option
open Function (update_of_ne update_self)

variable {d : Device} {e : Event} {pipe : ℕ} {due : Event → Bool} {r : ℤ}

/-! ## What the functions on one CRTC change -/

/-- Only one CRTC changes, and of the fields that the balance depends on only its counter, which
becomes `r`. -/
structure Only (d d' : Device) (pipe : ℕ) (r : ℤ) : Prop where
  refcount : (d'.vblank pipe).refcount = r
  inmodeset : (d'.vblank pipe).inmodeset = (d.vblank pipe).inmodeset
  other : ∀ q, q ≠ pipe → d'.vblank q = d.vblank q
  events : d'.events = d.events
  held : d'.held = d.held
  accepted : d'.accepted = d.accepted
  sent : d'.sent = d.sent

namespace Only

variable {d' d'' : Device} {r' : ℤ}

lemma refl (d : Device) (pipe : ℕ) : Only d d pipe (d.vblank pipe).refcount :=
  ⟨rfl, rfl, fun _ _ => rfl, rfl, rfl, rfl, rfl⟩

lemma trans (h : Only d d' pipe r) (h' : Only d' d'' pipe r') : Only d d'' pipe r' where
  refcount := h'.refcount
  inmodeset := h'.inmodeset.trans h.inmodeset
  other q hq := (h'.other q hq).trans (h.other q hq)
  events := h'.events.trans h.events
  held := h'.held.trans h.held
  accepted := h'.accepted.trans h.accepted
  sent := h'.sent.trans h.sent

lemma keep (h : Only d d' pipe r) (h' : Only d' d'' pipe (d'.vblank pipe).refcount) :
    Only d d'' pipe r := h.trans (h.refcount ▸ h')

lemma modify (d : Device) (pipe : ℕ) (f : VblankCrtc → VblankCrtc)
    (hf : (f (d.vblank pipe)).inmodeset = (d.vblank pipe).inmodeset) :
    Only d (d.modify pipe f) pipe (f (d.vblank pipe)).refcount where
  refcount := by simp [Device.modify]
  inmodeset := by simpa [Device.modify] using hf
  other q hq := by simp [Device.modify, hq]
  events := rfl
  held := rfl
  accepted := rfl
  sent := rfl

end Only

section

variable (d pipe)

lemma updateVblankCount_only :
    Only d (updateVblankCount d pipe) pipe (d.vblank pipe).refcount := by
  have h := Only.modify d pipe
    (fun v => { v with count := v.count + (d.diffs d.updates).setWidth 64 }) rfl
  exact { h with }

lemma vblankDisableAndSave_only :
    Only d (vblankDisableAndSave d pipe) pipe (d.vblank pipe).refcount := by
  unfold vblankDisableAndSave
  split_ifs
  · have hdisable := Only.modify d pipe (fun v => { v with enabled := false }) rfl
    exact hdisable.keep (updateVblankCount_only _ pipe)
  · exact updateVblankCount_only d pipe

lemma vblankDisableFn_only :
    Only d (vblankDisableFn d pipe) pipe (d.vblank pipe).refcount := by
  unfold vblankDisableFn
  split_ifs
  · exact vblankDisableAndSave_only d pipe
  · exact .refl d pipe

lemma vblankEnable_only (hw : ℤ) :
    (vblankEnable d pipe hw).2 = 0 ∧
        Only d (vblankEnable d pipe hw).1 pipe (d.vblank pipe).refcount ∨
      hw ≠ 0 ∧ (vblankEnable d pipe hw).2 = hw ∧
        Only d (vblankEnable d pipe hw).1 pipe (toInt32 ((d.vblank pipe).refcount - 1)) := by
  unfold vblankEnable
  split_ifs with henabled hhw
  · exact .inl ⟨rfl, .refl d pipe⟩
  · exact .inr ⟨hhw, rfl, Only.modify d pipe .dec rfl⟩
  · have henable := Only.modify (updateVblankCount d pipe) pipe
      (fun v => { v with enabled := true }) rfl
    exact .inl ⟨rfl, (updateVblankCount_only d pipe).keep henable⟩

/-- **`drm_vblank_get`.** It takes a reference if it succeeds and none if it fails. -/
theorem vblankGet_only (hw : ℤ) (hl : 0 ≤ (d.vblank pipe).refcount)
    (hu : (d.vblank pipe).refcount + 1 < 2 ^ 31) :
    (vblankGet d pipe hw).2 = 0 ∧
        Only d (vblankGet d pipe hw).1 pipe ((d.vblank pipe).refcount + 1) ∨
      (vblankGet d pipe hw).2 ≠ 0 ∧
        Only d (vblankGet d pipe hw).1 pipe (d.vblank pipe).refcount := by
  have hinc : toInt32 ((d.vblank pipe).refcount + 1) = (d.vblank pipe).refcount + 1 :=
    toInt32_eq (by omega) hu
  have hback : toInt32 ((d.vblank pipe).refcount + 1 - 1) = (d.vblank pipe).refcount := by
    rw [Int.add_sub_cancel, toInt32_eq (by omega) (by omega)]
  have hget : Only d (d.modify pipe .inc) pipe ((d.vblank pipe).refcount + 1) :=
    hinc ▸ Only.modify d pipe .inc rfl
  unfold vblankGet
  dsimp only
  split_ifs with hone henabled
  · rcases vblankEnable_only (d.modify pipe .inc) pipe hw with ⟨hret, h⟩ | ⟨hhw, hret, h⟩
    · exact .inl ⟨hret, hget.keep h⟩
    · rw [hget.refcount, hback] at h
      exact .inr ⟨by rw [hret]; exact hhw, hget.trans h⟩
  · exact .inl ⟨rfl, hget⟩
  · have hdec := Only.modify (d.modify pipe .inc) pipe .dec rfl
    have hval : (VblankCrtc.dec ((d.modify pipe .inc).vblank pipe)).refcount =
        (d.vblank pipe).refcount := by
      unfold VblankCrtc.dec
      rw [hget.refcount]
      exact hback
    rw [hval] at hdec
    exact .inr ⟨show -einval ≠ 0 by decide, hget.trans hdec⟩

/-- **`drm_vblank_put`.** It drops a reference if there is one. -/
theorem vblankPut_only (hl : 0 < (d.vblank pipe).refcount)
    (hu : (d.vblank pipe).refcount < 2 ^ 31) :
    Only d (vblankPut d pipe) pipe ((d.vblank pipe).refcount - 1) := by
  have hdec : toInt32 ((d.vblank pipe).refcount - 1) = (d.vblank pipe).refcount - 1 :=
    toInt32_eq (by omega) (by omega)
  have hput : Only d (d.modify pipe .dec) pipe ((d.vblank pipe).refcount - 1) :=
    hdec ▸ Only.modify d pipe .dec rfl
  unfold vblankPut
  rw [if_neg (by omega)]
  dsimp only
  split_ifs
  · exact hput
  · exact hput.keep (vblankDisableFn_only _ pipe)
  · exact hput
  · exact hput.keep (Only.modify _ pipe (fun v => { v with timer := true }) rfl)
  · exact hput

end

/-! ## The invariant -/

/-- What the counter of a CRTC should be. -/
def Device.owed (d : Device) (q : ℕ) : ℤ :=
  d.held q + d.events.countP (fun e => e.pipe = q) + if (d.vblank q).inmodeset then 1 else 0

lemma Device.owed_nonneg (d : Device) (q : ℕ) : 0 ≤ d.owed q := by
  unfold Device.owed
  split_ifs <;> omega

/-- The counters are balanced, but for one CRTC, whose counter is ahead by `δ` in the middle of a
call. -/
structure Balance (d : Device) (pipe : ℕ) (δ : ℤ) : Prop where
  eq : ∀ q, (d.vblank q).refcount = d.owed q + if q = pipe then δ else 0
  room : ∀ q, (d.vblank q).refcount < 2 ^ 31

/-- Each accepted event is pending or was sent. -/
structure Delivered (d : Device) : Prop where
  ids : d.accepted.map Event.id = List.range d.accepted.length
  perm : (d.sent ++ d.events).Perm d.accepted

namespace Balance

variable {d' : Device} {δ : ℤ}

lemma repipe (h : Balance d pipe 0) (pipe' : ℕ) : Balance d pipe' 0 := by
  refine ⟨fun q => ?_, h.room⟩
  rw [h.eq q, ite_self, ite_self]

lemma self (h : Balance d pipe δ) : (d.vblank pipe).refcount = d.owed pipe + δ := by
  rw [h.eq pipe, if_pos rfl]

lemma congr (h : Balance d pipe δ) (hvblank : d'.vblank = d.vblank) (hheld : d'.held = d.held)
    (hevents : d'.events = d.events) : Balance d' pipe δ := by
  refine ⟨fun q => ?_, hvblank ▸ h.room⟩
  rw [Device.owed, hvblank, hheld, hevents]
  exact h.eq q

lemma only (h : Balance d pipe δ) (honly : Only d d' pipe r) (hr : r < 2 ^ 31) :
    Balance d' pipe (δ + (r - (d.vblank pipe).refcount)) := by
  have howed : ∀ q, d'.owed q = d.owed q := by
    intro q
    unfold Device.owed
    rw [honly.held, honly.events]
    by_cases hq : q = pipe
    · rw [hq, honly.inmodeset]
    · rw [honly.other q hq]
  refine ⟨fun q => ?_, fun q => ?_⟩
  · rw [howed]
    by_cases hq : q = pipe
    · have hself := h.self
      rw [hq, honly.refcount]
      omega
    · rw [honly.other q hq, h.eq q, if_neg hq, if_neg hq]
  · by_cases hq : q = pipe
    · rw [hq, honly.refcount]
      exact hr
    · rw [honly.other q hq]
      exact h.room q

lemma same (h : Balance d pipe δ) (honly : Only d d' pipe (d.vblank pipe).refcount) :
    Balance d' pipe δ := by
  have h' := h.only honly (h.room pipe)
  rwa [Int.sub_self, Int.add_zero] at h'

lemma put (h : Balance d pipe 1) :
    Balance (vblankPut d pipe) pipe 0 ∧
      Only d (vblankPut d pipe) pipe ((d.vblank pipe).refcount - 1) := by
  have hself := h.self
  have howed := d.owed_nonneg pipe
  have hroom := h.room pipe
  have honly := vblankPut_only d pipe (by omega) hroom
  have h' := h.only honly (by omega)
  have hδ : 1 + ((d.vblank pipe).refcount - 1 - (d.vblank pipe).refcount) = 0 := by omega
  rw [hδ] at h'
  exact ⟨h', honly⟩

lemma handOver (h : Balance d pipe 0) (hstep : handOver d pipe = some d') :
    Balance d' pipe 1 := by
  unfold Vblank.handOver at hstep
  split_ifs at hstep with hheld
  cases hstep
  refine ⟨fun q => ?_, h.room⟩
  have heq := h.eq q
  unfold Device.owed at heq ⊢
  by_cases hq : q = pipe
  · subst hq
    simp only [update_self, if_true] at heq ⊢
    omega
  · simp only [update_of_ne hq, if_neg hq] at heq ⊢
    exact heq

lemma enqueue (h : Balance d pipe 1) (he : e.pipe = pipe) :
    Balance { d with events := d.events ++ [e] } pipe 0 := by
  refine ⟨fun q => ?_, h.room⟩
  have heq := h.eq q
  unfold Device.owed at heq ⊢
  by_cases hq : q = pipe
  · subst hq
    simp [he]
    omega
  · have hne : ¬ e.pipe = q := fun h => hq (h.symm.trans he)
    simp only [if_neg hq] at heq ⊢
    simpa [hne] using heq

lemma dequeue (h : Balance d pipe 0) (hmem : e ∈ d.events) (he : e.pipe = pipe) :
    Balance { d with events := d.events.erase e } pipe 1 := by
  refine ⟨fun q => ?_, h.room⟩
  have heq := h.eq q
  unfold Device.owed at heq ⊢
  rw [(perm_cons_erase hmem).countP_eq] at heq
  by_cases hq : q = pipe
  · subst hq
    rw [countP_cons_of_pos (by simpa using he)] at heq
    simp only [if_true] at heq ⊢
    push_cast at heq
    omega
  · have hne : ¬ e.pipe = q := fun h => hq (h.symm.trans he)
    rw [countP_cons_of_neg (by simpa using hne)] at heq
    simpa [hq] using heq

end Balance

namespace Delivered

variable {d' : Device}

lemma congr (h : Delivered d) (haccepted : d'.accepted = d.accepted) (hsent : d'.sent = d.sent)
    (hevents : d'.events = d.events) : Delivered d' := by
  refine ⟨haccepted ▸ h.ids, ?_⟩
  rw [hsent, hevents, haccepted]
  exact h.perm

lemma accepted_nodup (h : Delivered d) : d.accepted.Nodup :=
  .of_map Event.id (h.ids ▸ nodup_range)

lemma nodup (h : Delivered d) : (d.sent ++ d.events).Nodup := h.perm.nodup_iff.2 h.accepted_nodup

end Delivered

lemma Only.delivered {d' : Device} (h : Only d d' pipe r) (hd : Delivered d) : Delivered d' :=
  hd.congr h.accepted h.sent h.events

/-! ## Sending events -/

/-- The whole invariant. -/
def Inv (d : Device) : Prop := Balance d 0 0 ∧ Delivered d

lemma Inv.send (h : Balance d pipe 1)
    (hids : d.accepted.map Event.id = List.range d.accepted.length)
    (hperm : (d.sent ++ e :: d.events).Perm d.accepted) :
    Inv (sendVblankEvent (vblankPut d pipe) e) ∧
      (sendVblankEvent (vblankPut d pipe) e).events = d.events := by
  obtain ⟨hbalance, honly⟩ := h.put
  refine ⟨⟨(hbalance.repipe 0).congr rfl rfl rfl, honly.accepted ▸ hids, ?_⟩, honly.events⟩
  unfold sendVblankEvent
  rw [honly.accepted, honly.sent, honly.events, append_assoc]
  exact hperm

lemma Inv.flushEvent (h : Inv d) (hmem : e ∈ d.events) (he : e.pipe = pipe) :
    Inv (flushEvent d pipe e) ∧ (flushEvent d pipe e).events = d.events.erase e :=
  Inv.send ((h.1.repipe pipe).dequeue hmem he) h.2.ids
    (((perm_cons_erase hmem).symm.append_left d.sent).trans h.2.perm)

/-- **The loop over the events.** The events that are due are sent, the others stay in their order.

**Proof sketch.** By induction over the part of the list that the loop has not seen; the part it has
seen and left is `kept`. -/
lemma Inv.foldl_flushEvent (hdue : ∀ e, due e = true → e.pipe = pipe) (l : List Event)
    {kept : List Event} (h : Inv d) (hevents : d.events = kept ++ l) :
    Inv (l.foldl (fun d e => if due e then Vblank.flushEvent d pipe e else d) d) ∧
      (l.foldl (fun d e => if due e then Vblank.flushEvent d pipe e else d) d).events =
        kept ++ l.filter (fun e => !due e) := by
  induction l generalizing kept d with
  | nil => exact ⟨h, hevents⟩
  | cons e l ih =>
    have hnodup : (kept ++ e :: l).Nodup := hevents ▸ (nodup_append.1 h.2.nodup).2.1
    by_cases he : due e = true
    · have hnot : e ∉ kept := fun hmem => by
        have hcons := (nodup_cons.1 (nodup_middle.1 hnodup)).1
        exact hcons (mem_append_left _ hmem)
      obtain ⟨hinv, herase⟩ := h.flushEvent (e := e) (by simp [hevents]) (hdue e he)
      rw [hevents, erase_append_right _ hnot, erase_cons_head] at herase
      simpa [he] using ih hinv herase
    · have hkept : d.events = (kept ++ [e]) ++ l := by simp [hevents]
      simpa [he] using ih h hkept

lemma Inv.flushEvents (h : Inv d) (hdue : ∀ e, due e = true → e.pipe = pipe) :
    Inv (flushEvents d pipe due) ∧
      (flushEvents d pipe due).events = d.events.filter fun e => !due e :=
  @Inv.foldl_flushEvent d pipe due hdue d.events [] h rfl

/-! ## The calls -/

/-- The condition on the calls: `enable_vblank` does not fail in `drm_crtc_vblank_on`, and the
counter does not overflow. -/
def Careful (d : Device) : Act → Prop
  | .get pipe _ => (d.vblank pipe).refcount + 1 < 2 ^ 31
  | .off pipe => (d.vblank pipe).refcount + 1 < 2 ^ 31
  | .reset pipe => (d.vblank pipe).refcount + 1 < 2 ^ 31
  | .on _ hw => hw = 0
  | _ => True

instance Careful.decidable (d : Device) : DecidablePred (Careful d)
  | .get _ _ => inferInstanceAs (Decidable (_ < _))
  | .off _ => inferInstanceAs (Decidable (_ < _))
  | .reset _ => inferInstanceAs (Decidable (_ < _))
  | .on _ _ => inferInstanceAs (Decidable (_ = _))
  | .put _ => inferInstanceAs (Decidable True)
  | .queueEvent _ _ _ _ => inferInstanceAs (Decidable True)
  | .armEvent _ => inferInstanceAs (Decidable True)
  | .irq _ => inferInstanceAs (Decidable True)
  | .timer _ => inferInstanceAs (Decidable True)

namespace Inv

variable {d' : Device}

lemma same (h : Inv d) (honly : Only d d' pipe (d.vblank pipe).refcount) : Inv d' :=
  ⟨((h.1.repipe pipe).same honly).repipe 0, honly.delivered h.2⟩

lemma put (h : Balance d pipe 1) (hd : Delivered d) : Inv (vblankPut d pipe) := by
  obtain ⟨hbalance, honly⟩ := h.put
  exact ⟨hbalance.repipe 0, honly.delivered hd⟩

lemma handOver (h : Inv d) (hstep : handOver d pipe = some d') :
    Balance d' pipe 1 ∧ Delivered d' := by
  refine ⟨(h.1.repipe pipe).handOver hstep, ?_⟩
  unfold Vblank.handOver at hstep
  split_ifs at hstep
  cases hstep
  exact h.2.congr rfl rfl rfl

lemma get (h : Inv d) {hw : ℤ} (hroom : (d.vblank pipe).refcount + 1 < 2 ^ 31)
    (hstep : step (.get pipe hw) d = some d') : Inv d' := by
  have hbalance := h.1.repipe pipe
  have hself := hbalance.self
  have howed := d.owed_nonneg pipe
  rcases vblankGet_only d pipe hw (by omega) hroom with ⟨hret, honly⟩ | ⟨hret, honly⟩
  · simp only [Vblank.step, hret, if_true] at hstep
    cases hstep
    have h' := hbalance.only honly hroom
    refine ⟨⟨fun q => ?_, h'.room⟩, (honly.delivered h.2).congr rfl rfl rfl⟩
    have heq := h'.eq q
    unfold Device.owed at heq ⊢
    by_cases hq : q = pipe
    · subst hq
      simp only [update_self, if_true] at heq ⊢
      push_cast
      omega
    · simp only [update_of_ne hq, if_neg hq] at heq ⊢
      rw [ite_self]
      exact heq
  · simp only [Vblank.step, hret] at hstep
    cases hstep
    exact h.same honly

lemma accept_ids (h : Delivered d) (pipe : ℕ) (sequence : BitVec 64) :
    (acceptEvent d pipe sequence).1.accepted.map Event.id =
      List.range (acceptEvent d pipe sequence).1.accepted.length := by
  simp [acceptEvent, h.ids, range_succ]

section

variable (h : Balance d pipe 1) (hd : Delivered d)

include h hd

lemma enqueue (sequence : BitVec 64) :
    Inv { (acceptEvent d pipe sequence).1 with
      events := (acceptEvent d pipe sequence).1.events ++ [(acceptEvent d pipe sequence).2] } := by
  have haccept : Balance (acceptEvent d pipe sequence).1 pipe 1 := h.congr rfl rfl rfl
  refine ⟨(haccept.enqueue rfl).repipe 0, accept_ids hd pipe sequence, ?_⟩
  rw [← append_assoc]
  exact hd.perm.append_right _

lemma sendNow (sequence : BitVec 64) :
    Inv (sendVblankEvent (vblankPut (acceptEvent d pipe sequence).1 pipe)
      (acceptEvent d pipe sequence).2) := by
  have haccept : Balance (acceptEvent d pipe sequence).1 pipe 1 := h.congr rfl rfl rfl
  refine (Inv.send haccept (accept_ids hd pipe sequence) ?_).1
  exact perm_middle.trans ((hd.perm.cons _).trans (perm_append_singleton ..).symm)

lemma queueVblankEvent (reqSeq : BitVec 64)
    (alloc : Bool) (reserve : ℤ) : Inv (queueVblankEvent d pipe reqSeq alloc reserve).1 := by
  unfold Vblank.queueVblankEvent
  split_ifs
  · exact put h hd
  · exact put h hd
  · exact put h hd
  · dsimp only
    split_ifs
    · exact sendNow h hd reqSeq
    · exact enqueue h hd reqSeq

lemma crtcArmVblankEvent :
    Inv (crtcArmVblankEvent d pipe) := by
  have hupdate := updateVblankCount_only d pipe
  exact enqueue (h.same hupdate) (hupdate.delivered hd) _

end

lemma modeset (h : Inv d) {f : VblankCrtc → VblankCrtc}
    (hf : (f (d.vblank pipe)).refcount - (if (f (d.vblank pipe)).inmodeset then 1 else 0) =
      (d.vblank pipe).refcount - if (d.vblank pipe).inmodeset then 1 else 0)
    (hroom : (f (d.vblank pipe)).refcount < 2 ^ 31) : Inv (d.modify pipe f) := by
  refine ⟨⟨fun q => ?_, fun q => ?_⟩, h.2.congr rfl rfl rfl⟩
  · have heq := h.1.eq q
    unfold Device.owed Device.modify at *
    by_cases hq : q = pipe
    · subst hq
      simp only [update_self] at heq ⊢
      omega
    · simpa only [update_of_ne hq] using heq
  · unfold Device.modify
    by_cases hq : q = pipe
    · subst hq
      simpa only [update_self] using hroom
    · simpa only [update_of_ne hq] using h.1.room q

lemma lockOut (h : Inv d) (hroom : (d.vblank pipe).refcount + 1 < 2 ^ 31) :
    Inv (lockOut d pipe) := by
  have hself := (h.1.repipe pipe).self
  have howed := d.owed_nonneg pipe
  have hinc : toInt32 ((d.vblank pipe).refcount + 1) = (d.vblank pipe).refcount + 1 :=
    toInt32_eq (by omega) hroom
  unfold Vblank.lockOut
  split_ifs with hin
  · exact h
  · refine h.modeset ?_ ?_
    · simp [VblankCrtc.inc, hinc, hin]
    · simpa only [VblankCrtc.inc, hinc] using hroom

lemma crtcVblankOff (h : Inv d) (hroom : (d.vblank pipe).refcount + 1 < 2 ^ 31) :
    Inv (crtcVblankOff d pipe) ∧
      (crtcVblankOff d pipe).events = d.events.filter fun e => !decide (e.pipe = pipe) := by
  unfold Vblank.crtcVblankOff
  obtain ⟨d1, hd1⟩ : ∃ d1, (if (d.atomic || !(d.vblank pipe).inmodeset) = true
    then vblankDisableAndSave d pipe else d) = d1 := ⟨_, rfl⟩
  have honly : Only d d1 pipe (d.vblank pipe).refcount := by
    rw [← hd1]
    split_ifs
    · exact vblankDisableAndSave_only d pipe
    · exact .refl d pipe
  rw [hd1]
  have hlock : Inv (Vblank.lockOut d1 pipe) := (h.same honly).lockOut (honly.refcount.symm ▸ hroom)
  have hevents : (Vblank.lockOut d1 pipe).events = d.events := by
    unfold Vblank.lockOut
    split_ifs <;> exact honly.events
  rw [← hevents]
  exact hlock.flushEvents fun e he => of_decide_eq_true he

lemma crtcVblankOn (h : Inv d) (pipe : ℕ) : Inv (crtcVblankOn d pipe 0) := by
  unfold Vblank.crtcVblankOn
  obtain ⟨d1, hd1⟩ : ∃ d1, (if (d.vblank pipe).inmodeset = true then
    d.modify pipe fun v => { v.dec with inmodeset := false } else d) = d1 := ⟨_, rfl⟩
  have h1 : Inv d1 := by
    rw [← hd1]
    have hself := (h.1.repipe pipe).self
    have howed := d.owed_nonneg pipe
    have hroom := h.1.room pipe
    have hdec : toInt32 ((d.vblank pipe).refcount - 1) = (d.vblank pipe).refcount - 1 :=
      toInt32_eq (by omega) (by omega)
    split_ifs with hin
    · refine h.modeset ?_ ?_
      · simp [VblankCrtc.dec, hdec, hin]
      · simp only [VblankCrtc.dec]
        omega
    · exact h
  rw [hd1]
  have h2 : Inv (resetVblankTimestamp d1 pipe) := h1.same (Only.modify d1 pipe _ rfl)
  dsimp only
  split_ifs
  · rcases vblankEnable_only (resetVblankTimestamp d1 pipe) pipe 0 with ⟨-, honly⟩ | ⟨hne, -, -⟩
    · exact h2.same honly
    · exact absurd rfl hne
  · exact h2

lemma handleVblank (h : Inv d) (pipe : ℕ) :
    Inv (handleVblank d pipe).1 ∧
      ((d.vblank pipe).enabled = true → (handleVblank d pipe).1.events = d.events.filter fun e =>
        !(decide (e.pipe = pipe) &&
          vblankPassed ((updateVblankCount d pipe).vblank pipe).count e.sequence)) := by
  unfold Vblank.handleVblank
  split_ifs with henabled
  · refine ⟨h, fun htrue => ?_⟩
    simp [htrue] at henabled
  have honly := updateVblankCount_only d pipe
  obtain ⟨hinv, hevents⟩ : Inv (handleVblankEvents (updateVblankCount d pipe) pipe) ∧
      (handleVblankEvents (updateVblankCount d pipe) pipe).events = _ := by
    refine (h.same honly).flushEvents fun e he => ?_
    rw [Bool.and_eq_true, decide_eq_true_iff] at he
    exact he.1
  dsimp only
  split_ifs
  · have hdisable := vblankDisableFn_only (handleVblankEvents (updateVblankCount d pipe) pipe) pipe
    exact ⟨hinv.same hdisable, fun _ => hdisable.events.trans hevents⟩
  · exact ⟨hinv, fun _ => hevents⟩

lemma step (h : Inv d) {a : Act} (ha : Careful d a) (hstep : step a d = some d') : Inv d' := by
  cases a with
  | get pipe hw => exact h.get ha hstep
  | put pipe =>
    obtain ⟨d1, hover, rfl⟩ := map_eq_some_iff.1 hstep
    obtain ⟨hbalance, hd⟩ := h.handOver hover
    exact put hbalance hd
  | queueEvent pipe reqSeq alloc reserve =>
    obtain ⟨d1, hover, rfl⟩ := map_eq_some_iff.1 hstep
    obtain ⟨hbalance, hd⟩ := h.handOver hover
    exact queueVblankEvent hbalance hd reqSeq alloc reserve
  | armEvent pipe =>
    obtain ⟨d1, hover, rfl⟩ := map_eq_some_iff.1 hstep
    obtain ⟨hbalance, hd⟩ := h.handOver hover
    exact crtcArmVblankEvent hbalance hd
  | off pipe =>
    cases hstep
    exact (h.crtcVblankOff ha).1
  | reset pipe =>
    cases hstep
    exact h.lockOut ha
  | on pipe hw =>
    cases hstep
    cases ha
    exact h.crtcVblankOn pipe
  | irq pipe =>
    cases hstep
    exact (h.handleVblank pipe).1
  | timer pipe =>
    obtain ⟨-, hstep⟩ := ite_none_right_eq_some.1 hstep
    cases hstep
    have htimer := Only.modify d pipe (fun v => { v with timer := false }) rfl
    exact (h.same htimer).same (vblankDisableFn_only _ pipe)

end Inv

lemma inv_init (offdelay : ℤ) (disableImmediate atomic : Bool) (diffs : ℕ → BitVec 32) :
    Inv (init offdelay disableImmediate atomic diffs) := by
  refine ⟨⟨fun q => ?_, fun q => ?_⟩, rfl, List.Perm.refl _⟩
  · simp [init, Device.owed]
  · simp [init]

lemma Delivered.count (h : Delivered d) (he : e ∈ d.accepted) :
    d.sent.count e + d.events.count e = 1 := by
  rw [← count_append]
  exact count_eq_one_of_mem h.nodup (h.perm.mem_iff.2 he)

/-- **References and events.** In every state that a run under the condition reaches, the counter of
a CRTC is the number of references that callers hold, plus its pending events, plus one during the
lockout, and so is not negative. Each accepted event is pending or was sent once, and no other
event was sent. A vertical blank sends all events of its CRTC that are due. After
`drm_crtc_vblank_off` no event of the CRTC is pending, so that each accepted one was sent. -/
theorem vblank_refcount_balanced {offdelay : ℤ} {disableImmediate atomic : Bool}
    {diffs : ℕ → BitVec 32} {d : Device}
    (h : Machine.Runs step Careful (init offdelay disableImmediate atomic diffs) d) :
    (∀ pipe, (d.vblank pipe).refcount = d.held pipe + d.events.countP (fun e => e.pipe = pipe) +
        (if (d.vblank pipe).inmodeset then 1 else 0) ∧ 0 ≤ (d.vblank pipe).refcount) ∧
      (∀ e ∈ d.accepted, d.sent.count e + d.events.count e = 1) ∧
      (∀ e ∈ d.sent, e ∈ d.accepted) ∧
      (∀ pipe, (d.vblank pipe).enabled = true → ∀ e ∈ (handleVblank d pipe).1.events,
        e.pipe = pipe →
          vblankPassed ((updateVblankCount d pipe).vblank pipe).count e.sequence = false) ∧
      ∀ pipe d', Careful d (.off pipe) → step (.off pipe) d = some d' →
        (∀ e ∈ d'.events, e.pipe ≠ pipe) ∧
          ∀ e ∈ d'.accepted, e.pipe = pipe → d'.sent.count e = 1 := by
  have hinv : Inv d :=
    Machine.Runs.invariant (P := Inv) (inv_init offdelay disableImmediate atomic diffs)
      (fun _ _ _ hd ha hstep => hd.step ha hstep) h
  refine ⟨fun pipe => ?_, fun e he => hinv.2.count he, fun e he => ?_,
    fun pipe henabled e he hpipe => ?_, fun pipe d' ha hstep => ?_⟩
  · have hself := (hinv.1.repipe pipe).self
    rw [Int.add_zero] at hself
    exact ⟨hself, hself ▸ d.owed_nonneg pipe⟩
  · exact hinv.2.perm.subset (mem_append_left _ he)
  · rw [(hinv.handleVblank pipe).2 henabled, mem_filter] at he
    simpa [hpipe] using he.2
  · cases hstep
    obtain ⟨hoff, hevents⟩ := hinv.crtcVblankOff ha
    have hnone : ∀ e ∈ (crtcVblankOff d pipe).events, e.pipe ≠ pipe := by
      intro e he
      rw [hevents, mem_filter] at he
      simpa using he.2
    refine ⟨hnone, fun e he hpipe => ?_⟩
    have hcount := hoff.2.count he
    rwa [count_eq_zero.2 fun hmem => hnone e hmem hpipe, Nat.add_zero] at hcount

/-- A caller holds a reference while an event waits; the CRTC is turned off and on again, the
reference is dropped, and the timer disables the interrupt. -/
def offAndOn : List Act :=
  [.get 0 0, .get 0 0, .queueEvent 0 5#64 true 0, .irq 0, .get 0 0, .queueEvent 0 7#64 true (-12),
    .off 0, .on 0 0, .put 0, .timer 0]

/-- The event was sent when the CRTC was turned off. -/
theorem vblank_refcount_balanced_offAndOn : ∃ d,
    Machine.execIf step Careful (init 5000 false true fun _ => 1#32) offAndOn = some d ∧
      (d.vblank 0).enabled = false ∧ d.accepted = [⟨0, 0, 5#64⟩] ∧
      0 ≤ (d.vblank 0).refcount ∧
      d.sent.count ⟨0, 0, 5#64⟩ + d.events.count ⟨0, 0, 5#64⟩ = 1 := by
  obtain ⟨d, hd, hobs⟩ := map_eq_some_iff.1
    (show (Machine.execIf step Careful (init 5000 false true fun _ => 1#32) offAndOn).map
      (fun d => ((d.vblank 0).enabled, d.accepted)) = some (false, [⟨0, 0, 5#64⟩]) by
        decide +kernel)
  obtain ⟨henabled, haccepted⟩ := Prod.mk.inj hobs
  obtain ⟨hbalance, hsent, -⟩ := vblank_refcount_balanced (Machine.execIf_runs hd)
  exact ⟨d, hd, henabled, haccepted, (hbalance 0).2, hsent _ (by simp [haccepted])⟩

/-- **A failure in `drm_crtc_vblank_on`.** A caller holds a reference while the CRTC is turned off,
and `enable_vblank` fails when it is turned on again: the counter is zero. If interrupts are never
to be disabled, the counter becomes negative when the CRTC is turned on for the first time. -/
theorem vblank_on_fails :
    (∃ d, Machine.exec step (init 5000 false true fun _ => 1#32)
        [.get 0 0, .off 0, .on 0 (-22)] = some d ∧
      d.held 0 = 1 ∧ (d.vblank 0).inmodeset = false ∧ (d.vblank 0).refcount = 0) ∧
    ∃ d, Machine.exec step (init 0 false true fun _ => 1#32) [.on 0 (-22)] = some d ∧
      (d.vblank 0).refcount = -1 := by
  refine ⟨⟨_, rfl, ?_, ?_, ?_⟩, ⟨_, rfl, ?_⟩⟩ <;> decide +kernel

end KmsDrm.Vblank
