import KmsDrm.Spsc.Basic

/-!
# Safety of the queue with one producer and one consumer

Between the exchange of `tail` and the store of a push the new node is not linked yet, and while a
pop waits for such a store the list does not start at `head` but at the node that is popped. The
invariant describes the linked part of the list from the place where it starts.

## Main results

* `Spsc.Inv.pushStep`, `Spsc.Inv.popStep` — each memory operation keeps the invariant.
* `Spsc.spsc_queue_correct` — the queue is a queue.
-/

namespace KmsDrm.Spsc

open KmsDrm.Lib List Option

variable {α : Type} [DecidableEq α]
variable {s s' : State α} {l r : List α} {n : α} {q q' : Queue α} {p : PopPc α} {t : Slot α}

/-! ## Linked nodes -/

/-- The place behind the nodes `r` that are linked from `s`. -/
def endSlot : Slot α → List α → Slot α
  | s, [] => s
  | _, n :: r => endSlot (.next n) r

/-- The nodes `r` are linked from `s`, and no more. -/
def Linked (q : Queue α) : Slot α → List α → Prop
  | s, [] => q.load s = none
  | s, n :: r => q.load s = some n ∧ Linked q (.next n) r

omit [DecidableEq α] in
@[simp]
lemma endSlot_append (s : Slot α) (r : List α) (n : α) : endSlot s (r ++ [n]) = .next n := by
  induction r generalizing s with
  | nil => rfl
  | cons m r ih => exact ih (.next m)

omit [DecidableEq α] in
lemma endSlot_mem (s : Slot α) (r : List α) : endSlot s r ∈ s :: r.map .next := by
  induction r generalizing s with
  | nil => exact mem_singleton_self s
  | cons m r ih => exact .tail _ (ih (.next m))

omit [DecidableEq α] in
lemma endSlot_eq_iff {s : Slot α} (h : s ∉ r.map .next) : endSlot s r = s ↔ r = [] := by
  cases r with
  | nil => exact ⟨fun _ => rfl, fun _ => rfl⟩
  | cons m r =>
    refine iff_of_false (fun heq => h ?_) (cons_ne_nil _ _)
    have hmem := endSlot_mem (.next m) r
    rw [show endSlot (.next m) r = s from heq] at hmem
    exact hmem

omit [DecidableEq α] in
lemma head_notMem_slots (n : α) (r : List α) : Slot.head ∉ Slot.next n :: r.map .next := by simp

@[simp]
lemma load_store_self (q : Queue α) (v : Option α) (s : Slot α) : (q.store v s).load s = v := by
  cases s <;> simp [Queue.store, Queue.load]

lemma load_store_of_ne (q : Queue α) (v : Option α) {s : Slot α} (h : t ≠ s) :
    (q.store v s).load t = q.load t := by
  cases s with
  | head =>
    cases t with
    | head => exact absurd rfl h
    | next m => rfl
  | next n =>
    cases t with
    | head => rfl
    | next m =>
      have hne : m ≠ n := fun hmn => h (by rw [hmn])
      simp [Queue.store, Queue.load, hne]

@[simp]
lemma store_tail (q : Queue α) (v : Option α) (s : Slot α) : (q.store v s).tail = q.tail := by
  cases s <;> rfl

lemma store_setTail (q : Queue α) (t : Slot α) (v : Option α) (s : Slot α) :
    Queue.store { q with tail := t } v s = { q.store v s with tail := t } := by
  cases s <;> rfl

omit [DecidableEq α] in
lemma Linked.head?_eq {s : Slot α} (h : Linked q s r) : r.head? = q.load s := by
  cases r with
  | nil => exact h.symm
  | cons n r => exact h.1.symm

omit [DecidableEq α] in
lemma Linked.congr {s : Slot α} (h : Linked q s r)
    (hload : ∀ t ∈ s :: r.map .next, q'.load t = q.load t) : Linked q' s r := by
  induction r generalizing s with
  | nil => exact (hload s mem_cons_self).trans h
  | cons m r ih =>
    refine ⟨(hload s mem_cons_self).trans h.1, ih h.2 fun t ht => ?_⟩
    exact hload t (.tail _ ht)

omit [DecidableEq α] in
lemma Linked.of_eq {s : Slot α} (h : Linked q s r) (hhead : q'.head = q.head)
    (hnext : q'.next = q.next) : Linked q' s r := by
  refine h.congr fun t _ => ?_
  cases t with
  | head => exact hhead
  | next n => exact congrFun hnext n

lemma Linked.store {s : Slot α} (h : Linked q s r) (v : Option α) (ht : t ∉ s :: r.map .next) :
    Linked (q.store v t) s r := by
  refine h.congr fun u hu => load_store_of_ne q v ?_
  rintro rfl
  exact ht hu

lemma Linked.append {s : Slot α} (h : Linked q s r) (hn : q.next n = none)
    (hs : (s :: (r ++ [n]).map .next).Nodup) :
    Linked (q.store (some n) (endSlot s r)) s (r ++ [n]) := by
  induction r generalizing s with
  | nil =>
    have hne : Slot.next n ≠ s := by
      rintro rfl
      simp at hs
    exact ⟨load_store_self q (some n) s, (load_store_of_ne q (some n) hne).trans hn⟩
  | cons m r ih =>
    obtain ⟨hs, hrest⟩ := nodup_cons.1 hs
    refine ⟨?_, ih h.2 hrest⟩
    have hne : s ≠ endSlot (.next m) r := by
      rintro rfl
      refine hs ?_
      have := endSlot_mem (.next m) r
      simp only [map_cons, map_append, mem_cons, mem_append] at this ⊢
      tauto
    rw [endSlot, load_store_of_ne q (some n) hne]
    exact h.1

lemma Linked.next_head {m : α} (h : Linked q (.next n) r) (hr : r.head? = some m) :
    Linked (q.store (some m) .head) .head r ∧ endSlot .head r = endSlot (.next n) r := by
  cases r with
  | nil => cases hr
  | cons x r =>
    cases hr
    refine ⟨⟨rfl, h.2.store (some m) ?_⟩, rfl⟩
    simp

/-! ## Calls that do not overlap -/

/-- The queue holds the nodes `l`, and no call is going on. -/
structure Queue.Holds (q : Queue α) (l : List α) : Prop where
  linked : Linked q .head l
  tail : q.tail = endSlot .head l
  nodup : l.Nodup

omit [DecidableEq α] in
lemma Queue.holds_init : (Queue.init : Queue α).Holds [] := ⟨rfl, rfl, nodup_nil⟩

omit [DecidableEq α] in
lemma Queue.Holds.peek (h : q.Holds l) : q.peek = l.head? := h.linked.head?_eq.symm

lemma Queue.Holds.push (h : q.Holds l) (hn : n ∉ l) :
    (q.push n).1.Holds (l ++ [n]) ∧ ((q.push n).2 = true ↔ l = []) := by
  have hfresh : Slot.next n ∉ Slot.head :: l.map .next := by simpa using hn
  have hnodup : (l ++ [n]).Nodup := by
    refine nodup_append.2 ⟨h.nodup, nodup_singleton n, ?_⟩
    rintro a ha b hb rfl
    exact hn (mem_singleton.1 hb ▸ ha)
  have hslots : (Slot.head :: (l ++ [n]).map .next).Nodup := by
    refine nodup_cons.2 ⟨by simp, hnodup.map fun _ _ => Slot.next.inj⟩
  have hcleared := h.linked.store none hfresh
  have hnext : (q.store none (.next n)).next n = none := Function.update_self ..
  have hlinked := hcleared.append hnext hslots
  refine ⟨⟨?_, ?_, hnodup⟩, ?_⟩
  · simp only [Queue.push, store_tail, h.tail, store_setTail]
    exact hlinked.of_eq rfl rfl
  · simp [Queue.push]
  · rw [Queue.push, decide_eq_true_iff, store_tail, h.tail, endSlot_eq_iff (by simp)]

lemma Queue.Holds.pop (h : q.Holds (n :: l)) : q.pop.1.Holds l ∧ q.pop.2 = some n := by
  have hhead : q.head = some n := h.linked.1
  have hnodup := (nodup_cons.1 h.nodup).2
  cases l with
  | nil =>
    have hnext : q.next n = none := h.linked.2
    have htail : q.tail = .next n := h.tail
    simp only [Queue.pop, hhead, hnext, store_tail, htail]
    exact ⟨⟨rfl, rfl, hnodup⟩, trivial⟩
  | cons m l =>
    have hnext : q.next n = some m := h.linked.2.1
    simp only [Queue.pop, hhead, hnext, reduceCtorEq, if_false]
    refine ⟨⟨(h.linked.2.next_head rfl).1.of_eq rfl rfl, ?_, hnodup⟩, trivial⟩
    exact (store_tail _ _ _).trans h.tail

/-! ## The invariant -/

/-- The node that a pop has in its hands, apart from the linked ones. -/
def PopPc.hand : PopPc α → List α
  | .cmpxchg n => [n]
  | .spinRead n => [n]
  | .spinWrite n _ => [n]
  | .dec n => [n]
  | _ => []

/-- The place where the linked nodes start. -/
def PopPc.base : PopPc α → Slot α
  | .cmpxchg n => .next n
  | .spinRead n => .next n
  | .spinWrite n _ => .next n
  | _ => .head

/-- The node that is not linked yet, though `tail` points to it. -/
def PushPc.waiting : PushPc α → List α
  | .store _ n => [n]
  | _ => []

/-- What a push is going to return. -/
def PushPc.result : PushPc α → List Bool
  | .store tail _ => [decide (tail = .head)]
  | .inc tail => [decide (tail = .head)]
  | _ => []

/-- What the producer knows when `r` is linked from `base`. -/
def PushOk (q : Queue α) (base : Slot α) (used r : List α) : PushPc α → Prop
  | .idle => q.tail = endSlot base r
  | .clear n => q.tail = endSlot base r ∧ n ∉ used
  | .xchg n => q.tail = endSlot base r ∧ n ∉ used ∧ q.next n = none
  | .store tail n => q.tail = .next n ∧ tail = endSlot base r ∧ q.next n = none
  | .inc _ => q.tail = endSlot base r

/-- What the consumer knows when `r` is linked and `waiting` is going to be. -/
def PopOk (q : Queue α) (waiting r : List α) : PopPc α → Prop
  | .idle => True
  | .readHead => True
  | .readNext n => ∃ r', r = n :: r'
  | .writeHead n next => ∃ r', r = n :: r' ∧ ∀ m, next = some m → r'.head? = some m
  | .cmpxchg _ => q.head = none
  | .spinRead _ => q.head = none ∧ r ++ waiting ≠ []
  | .spinWrite _ next => q.head = none ∧ r ++ waiting ≠ [] ∧ ∀ m, next = some m → r.head? = some m
  | .dec _ => True

/-- The invariant: the nodes `r` are linked. -/
structure Inv (s : State α) (r : List α) : Prop where
  linked : Linked s.q s.pop.base r
  nodup : (s.pop.hand ++ r ++ s.push.waiting).Nodup
  push : PushOk s.q s.pop.base (s.pop.hand ++ r) r s.push
  pop : PopOk s.q s.push.waiting r s.pop
  pushed : s.pushed = s.popped ++ (s.pop.hand ++ r ++ s.push.waiting)
  stored : s.stored + s.push.waiting.length = s.pushed.length
  results : s.results ++ s.push.result = s.empties

lemma inv_init : Inv (State.init : State α) [] where
  linked := rfl
  nodup := nodup_nil
  push := rfl
  pop := trivial
  pushed := rfl
  stored := rfl
  results := rfl

omit [DecidableEq α] in
lemma PopPc.base_cases (p : PopPc α) : p.base = .head ∨ ∃ n, p.base = .next n ∧ p.hand = [n] := by
  cases p <;> simp [PopPc.base, PopPc.hand]

lemma Inv.slots_nodup (h : Inv s r) : (s.pop.base :: (r ++ s.push.waiting).map .next).Nodup := by
  have hnodup := h.nodup
  rw [append_assoc, nodup_append] at hnodup
  refine nodup_cons.2 ⟨fun hmem => ?_, hnodup.2.1.map fun _ _ => Slot.next.inj⟩
  obtain ⟨n, hn, heq⟩ := mem_map.1 hmem
  rcases s.pop.base_cases with hb | ⟨m, hb, hhand⟩
  · rw [hb] at heq
    cases heq
  · rw [hb] at heq
    obtain rfl := Slot.next.inj heq
    exact hnodup.2.2 n (by rw [hhand]; exact mem_singleton_self n) n hn rfl

/-- The compare-and-exchange of a pop finds `tail` at the node iff no other node was pushed. -/
lemma Inv.tail_eq_base_iff (h : Inv s r) : s.q.tail = s.pop.base ↔ r ++ s.push.waiting = [] := by
  have hslots := (nodup_cons.1 h.slots_nodup).1
  have hpush := h.push
  cases hp : s.push with
  | store t m =>
    rw [hp] at hslots hpush
    rw [hpush.1]
    refine iff_of_false (fun heq => hslots ?_) (by simp [PushPc.waiting])
    rw [← heq]
    simp [PushPc.waiting]
  | _ =>
    rw [hp] at hslots hpush
    simp only [PushPc.waiting, append_nil] at hslots ⊢
    first
    | rw [hpush, endSlot_eq_iff hslots]
    | rw [hpush.1, endSlot_eq_iff hslots]

lemma Inv.endSlot_eq_head_iff (h : Inv s r) (hpush : s.push.waiting = []) :
    endSlot s.pop.base r = .head ↔ s.pushed = s.popped ++ s.pop.taken := by
  have hnodup := h.slots_nodup
  rw [hpush, append_nil] at hnodup
  rw [h.pushed, hpush, append_nil, append_cancel_left_eq]
  rcases s.pop.base_cases with hb | ⟨m, hb, hhand⟩
  · rw [hb] at hnodup ⊢
    rw [endSlot_eq_iff (nodup_cons.1 hnodup).1]
    have hsame : s.pop.hand = s.pop.taken := by
      cases hp : s.pop <;> simp_all [PopPc.base, PopPc.hand, PopPc.taken]
    rw [hsame, append_right_eq_self]
  · have htaken : s.pop.taken = [] := by
      cases hp : s.pop <;> simp_all [PopPc.base, PopPc.taken]
    rw [htaken, hhand]
    refine iff_of_false (fun heq => ?_) (by simp)
    have hmem := endSlot_mem s.pop.base r
    rw [heq, hb] at hmem
    simp at hmem

/-! ## The steps -/

omit [DecidableEq α] in
lemma PopOk.wait {w w' : List α} (h : PopOk q w r p) (hhead : q'.head = q.head)
    (hw : w = [] ∨ w' = w) : PopOk q' w' r p := by
  have hne : r ++ w ≠ [] → r ++ w' ≠ [] := by
    rcases hw with rfl | rfl
    · intro hr
      simp_all
    · exact id
  cases p with
  | cmpxchg m => exact hhead.trans h
  | spinRead m => exact ⟨hhead.trans h.1, hne h.2⟩
  | spinWrite m next => exact ⟨hhead.trans h.1, hne h.2.1, h.2.2⟩
  | _ => exact h

omit [DecidableEq α] in
lemma PopOk.append (h : PopOk q [n] r p) (hhead : p.base ≠ .head → q'.head = q.head) :
    PopOk q' [] (r ++ [n]) p := by
  cases p with
  | idle => trivial
  | readHead => trivial
  | dec m => trivial
  | readNext m =>
    obtain ⟨r', rfl⟩ := h
    exact ⟨r' ++ [n], rfl⟩
  | writeHead m next =>
    obtain ⟨r', rfl, hnext⟩ := h
    exact ⟨r' ++ [n], rfl, fun x hx => by simp [hnext x hx]⟩
  | cmpxchg m => exact (hhead nofun).trans h
  | spinRead m => exact ⟨(hhead nofun).trans h.1, by simp⟩
  | spinWrite m next =>
    exact ⟨(hhead nofun).trans h.1, by simp, fun x hx => by simp [h.2.2 x hx]⟩

omit [DecidableEq α] in
lemma next_notMem_slots {pop : PopPc α} (h : n ∉ pop.hand ++ r) :
    Slot.next n ∉ pop.base :: r.map .next := by
  rw [mem_append, not_or] at h
  intro hmem
  rcases mem_cons.1 hmem with heq | hmem
  · rcases pop.base_cases with hb | ⟨m, hb, hhand⟩
    · rw [hb] at heq
      cases heq
    · rw [hb] at heq
      obtain rfl := Slot.next.inj heq
      exact h.1 (by rw [hhand]; exact mem_singleton_self n)
  · obtain ⟨m, hm, heq⟩ := mem_map.1 hmem
    obtain rfl := Slot.next.inj heq
    exact h.2 hm

lemma Inv.pushStep (h : Inv s r) (hstep : pushStep s = some s') : ∃ r', Inv s' r' := by
  have hslots := h.slots_nodup
  have hend := h.endSlot_eq_head_iff
  obtain ⟨hlinked, hnodup, hpush, hpop, hpushed, hstored, hresults⟩ := h
  obtain ⟨q, push, pop, pushed, stored, empties, results, popped, returned, drained⟩ := s
  dsimp only at *
  cases push with
  | idle => cases hstep
  | clear n =>
    cases hstep
    refine ⟨r, hlinked.store none (next_notMem_slots hpush.2), hnodup,
      ⟨hpush.1, hpush.2, Function.update_self ..⟩, ?_, hpushed, hstored, hresults⟩
    exact hpop
  | xchg n =>
    cases hstep
    obtain ⟨htail, hused, hnext⟩ := hpush
    simp only [PushPc.waiting, append_nil, length_nil, Nat.add_zero] at *
    refine ⟨r, hlinked.of_eq rfl rfl, ?_, ⟨rfl, htail, hnext⟩, ?_, ?_, ?_, ?_⟩
    · refine nodup_append.2 ⟨hnodup, nodup_singleton n, ?_⟩
      rintro a ha b hb rfl
      exact hused (mem_singleton.1 hb ▸ ha)
    · exact hpop.wait rfl (.inl rfl)
    · simp [PushPc.waiting, hpushed]
    · simp [PushPc.waiting, hstored]
    · rw [← hresults]
      simp [PushPc.result, htail, hend]
  | store tail n =>
    cases hstep
    obtain ⟨htail, htail', hnext⟩ := hpush
    subst htail'
    refine ⟨r ++ [n], hlinked.append hnext hslots, ?_, ?_, hpop.append ?_, ?_, ?_, hresults⟩
    · simpa [PushPc.waiting] using hnodup
    · exact (store_tail _ _ _).trans (htail.trans (endSlot_append _ _ _).symm)
    · intro hb
      refine load_store_of_ne q (some n) (t := .head) fun heq => ?_
      have hmem := endSlot_mem pop.base r
      rw [← heq] at hmem
      simp [Ne.symm hb] at hmem
    · simpa [PushPc.waiting] using hpushed
    · simpa [PushPc.waiting] using hstored
  | inc tail =>
    cases hstep
    refine ⟨r, hlinked.of_eq rfl rfl, hnodup, hpush, hpop.wait rfl (.inl rfl), hpushed, hstored, ?_⟩
    simpa [PushPc.result] using hresults

omit [DecidableEq α] in
lemma PushOk.mono {b b' : Slot α} {used used' r' : List α} {p : PushPc α}
    (h : PushOk q b used r p) (htail : q'.tail = q.tail) (hend : endSlot b' r' = endSlot b r)
    (hused : ∀ n, n ∉ used → n ∉ used') (hnext : q'.next = q.next) : PushOk q' b' used' r' p := by
  cases p with
  | idle => exact htail.trans (h.trans hend.symm)
  | inc t => exact htail.trans (h.trans hend.symm)
  | clear n => exact ⟨htail.trans (h.1.trans hend.symm), hused n h.2⟩
  | xchg n =>
    exact ⟨htail.trans (h.1.trans hend.symm), hused n h.2.1, (congrFun hnext n).trans h.2.2⟩
  | store t n => exact ⟨htail.trans h.1, h.2.1.trans hend.symm, (congrFun hnext n).trans h.2.2⟩

lemma Inv.popStep (h : Inv s r) (hstep : popStep s = some s') : ∃ r', Inv s' r' := by
  have htail := h.tail_eq_base_iff
  obtain ⟨hlinked, hnodup, hpush, hpop, hpushed, hstored, hresults⟩ := h
  obtain ⟨q, push, pop, pushed, stored, empties, results, popped, returned, drained⟩ := s
  cases pop with
  | idle => cases hstep
  | readHead =>
    unfold Spsc.popStep at hstep
    dsimp only at hstep
    split at hstep
    · cases hstep
      exact ⟨r, hlinked, hnodup, hpush, trivial, hpushed, hstored, hresults⟩
    · rename_i node hhead
      cases hstep
      refine ⟨r, hlinked, hnodup, hpush, ?_, hpushed, hstored, hresults⟩
      exact List.head?_eq_some_iff.1 (hlinked.head?_eq.trans hhead)
  | readNext n =>
    cases hstep
    obtain ⟨r', rfl⟩ := hpop
    exact ⟨n :: r', hlinked, hnodup, hpush, ⟨r', rfl, fun m => hlinked.2.head?_eq.trans⟩, hpushed,
      hstored, hresults⟩
  | writeHead n next =>
    obtain ⟨r', rfl, hnext⟩ := hpop
    cases next with
    | none =>
      cases hstep
      refine ⟨r', hlinked.2.store none (head_notMem_slots n r'), hnodup,
        hpush.mono rfl rfl (fun _ h => h) rfl, rfl,
        hpushed, hstored, hresults⟩
    | some m =>
      cases hstep
      obtain ⟨hlinked', hend⟩ := hlinked.2.next_head (hnext m rfl)
      exact ⟨r', hlinked', hnodup, hpush.mono rfl hend (fun _ h => h) rfl, trivial, hpushed,
        hstored,
        hresults⟩
  | cmpxchg n =>
    unfold Spsc.popStep at hstep
    dsimp only at hstep
    split_ifs at hstep with heq
    · cases hstep
      obtain ⟨rfl, hwaiting⟩ := append_eq_nil_iff.1 (htail.1 heq)
      refine ⟨[], hpop, hnodup, ?_, trivial, hpushed, hstored, hresults⟩
      cases push with
      | store t m => cases hwaiting
      | idle => rfl
      | inc t => rfl
      | clear m => exact ⟨rfl, hpush.2⟩
      | xchg m => exact ⟨rfl, hpush.2⟩
    · cases hstep
      exact ⟨r, hlinked, hnodup, hpush, ⟨hpop, mt htail.2 heq⟩, hpushed, hstored, hresults⟩
  | spinRead n =>
    cases hstep
    exact ⟨r, hlinked, hnodup, hpush, ⟨hpop.1, hpop.2, fun m => hlinked.head?_eq.trans⟩, hpushed,
      hstored, hresults⟩
  | spinWrite n next =>
    cases next with
    | none =>
      cases hstep
      refine ⟨r, hlinked.store none (head_notMem_slots n r), hnodup,
        hpush.mono rfl rfl (fun _ h => h) rfl, ⟨rfl, hpop.2.1⟩, hpushed, hstored, hresults⟩
    | some m =>
      cases hstep
      obtain ⟨hlinked', hend⟩ := hlinked.next_head (hpop.2.2 m rfl)
      exact ⟨r, hlinked', hnodup, hpush.mono rfl hend (fun _ h => h) rfl, trivial, hpushed, hstored,
        hresults⟩
  | dec n =>
    cases hstep
    refine ⟨r, hlinked.of_eq rfl rfl, ?_, ?_, trivial, ?_, hstored, hresults⟩
    · exact (nodup_cons.1 hnodup).2
    · exact hpush.mono rfl rfl (fun _ h => fun hm => h (.tail _ hm)) rfl
    · simpa [PopPc.hand] using hpushed

lemma Inv.step {a : Act α} (h : Inv s r) (ha : Legal s a) (hstep : step a s = some s') :
    ∃ r', Inv s' r' := by
  cases a with
  | push n =>
    obtain ⟨hidle, hstep⟩ := ite_none_right_eq_some.1 hstep
    cases hstep
    obtain ⟨hlinked, hnodup, hpush, hpop, hpushed, hstored, hresults⟩ := h
    have hfresh : n ∉ s.pop.hand ++ r := by
      have hdrop : s.pushed.drop s.popped.length = s.pop.hand ++ r := by
        rw [hpushed, hidle]
        simp [PushPc.waiting]
      rw [← hdrop]
      exact ha
    rw [hidle] at hnodup hpush hpop hpushed hstored hresults
    exact ⟨r, hlinked, hnodup, ⟨hpush, hfresh⟩, hpop, hpushed, hstored, hresults⟩
  | producer => exact h.pushStep hstep
  | pop =>
    obtain ⟨hidle, hstep⟩ := ite_none_right_eq_some.1 hstep
    cases hstep
    obtain ⟨hlinked, hnodup, hpush, hpop, hpushed, hstored, hresults⟩ := h
    rw [hidle] at hlinked hnodup hpush hpushed
    exact ⟨r, hlinked, hnodup, hpush, trivial, hpushed, hstored, hresults⟩
  | consumer => exact h.popStep hstep

lemma Reachable.inv (h : Reachable s) : ∃ r, Inv s r := by
  refine Machine.Runs.invariant (P := fun s => ∃ r, Inv s r) ⟨[], inv_init⟩ ?_ h
  rintro s a s' ⟨r, hr⟩ ha hstep
  exact hr.step ha hstep

/-! ## What the pops return -/

/-- The answer that a pop has settled by its read of `head`, whether it is `NULL`. -/
def PopPc.answer : PopPc α → List Bool
  | .idle | .readHead => []
  | _ => [false]

/-- The logs of the pops agree: a pop returns `NULL` exactly if all that was stored before it read
`head` was popped. -/
structure Answered (s : State α) : Prop where
  popped : s.returned.reduceOption = s.popped
  answers : s.returned.map isNone ++ s.pop.answer = s.drained

/-- A pop finds `head` empty exactly if all that was stored was popped. -/
lemma Inv.drained_iff (h : Inv s r) (hpop : s.pop = .readHead) :
    s.popped = s.pushed.take s.stored ↔ s.q.head = none := by
  have hlinked := h.linked
  have hpushed := h.pushed
  have hstored := h.stored
  rw [hpop] at hlinked hpushed
  have htake : s.pushed.take s.stored = s.popped ++ r := by
    simp only [PopPc.hand, nil_append, ← append_assoc] at hpushed
    rw [hpushed, length_append] at hstored
    rw [hpushed, take_left' (by omega)]
  rw [htake, show s.q.head = r.head? from hlinked.head?_eq.symm, head?_eq_none_iff]
  simp

lemma Answered.popStep (h : Answered s) (hinv : Inv s r) (hstep : popStep s = some s') :
    Answered s' := by
  have hdrained := hinv.drained_iff
  obtain ⟨hpopped, hanswers⟩ := h
  obtain ⟨q, push, pop, pushed, stored, empties, results, popped, returned, drained⟩ := s
  dsimp only at *
  subst hpopped hanswers
  unfold Spsc.popStep at hstep
  cases pop with
  | idle => cases hstep
  | readHead =>
    dsimp only at hstep
    split at hstep <;> cases hstep <;> constructor <;>
      simp_all [PopPc.answer, reduceOption_append, reduceOption_cons_of_none]
  | writeHead n next | spinWrite n next =>
    cases next <;> cases hstep <;> exact ⟨rfl, rfl⟩
  | cmpxchg n =>
    dsimp only at hstep
    split_ifs at hstep <;> cases hstep <;> exact ⟨rfl, rfl⟩
  | readNext n | spinRead n =>
    cases hstep
    exact ⟨rfl, rfl⟩
  | dec n =>
    cases hstep
    constructor <;> simp [PopPc.answer, reduceOption_append, reduceOption_cons_of_some]

lemma Answered.step {a : Act α} (h : Answered s) (hinv : Inv s r) (hstep : step a s = some s') :
    Answered s' := by
  cases a with
  | push n =>
    obtain ⟨-, hstep⟩ := ite_none_right_eq_some.1 hstep
    cases hstep
    exact ⟨h.popped, h.answers⟩
  | producer =>
    change pushStep s = some s' at hstep
    unfold pushStep at hstep
    split at hstep <;> cases hstep <;> exact ⟨h.popped, h.answers⟩
  | pop =>
    obtain ⟨hidle, hstep⟩ := ite_none_right_eq_some.1 hstep
    cases hstep
    refine ⟨h.popped, ?_⟩
    have hanswers := h.answers
    rwa [hidle] at hanswers
  | consumer => exact h.popStep hinv hstep

lemma Reachable.answered (h : Reachable s) : Answered s := by
  refine (Machine.Runs.invariant (P := fun s => (∃ r, Inv s r) ∧ Answered s)
    ⟨⟨[], inv_init⟩, rfl, rfl⟩ ?_ h).2
  rintro s a s' ⟨⟨r, hr⟩, hanswered⟩ ha hstep
  exact ⟨hr.step ha hstep, hanswered.step hr hstep⟩

/-! ## The slow path of a pop -/

/-- A pop is in its slow path, at the node `n`. -/
def PopPc.Spins (n : α) (p : PopPc α) : Prop := p = .spinRead n ∨ ∃ next, p = .spinWrite n next

/-- How many steps the slow path still takes when the next node has appeared. -/
def PopPc.spinsLeft : PopPc α → ℕ
  | .spinWrite _ none => 3
  | .spinRead _ => 2
  | .spinWrite _ (some _) => 1
  | _ => 0

/-- In the slow path the next node has appeared unless a push is about to store it. -/
lemma Inv.next_ne_none (h : Inv s r) (hspin : s.pop.Spins n) (hpush : s.push.waiting = []) :
    s.q.next n ≠ none := by
  have hpop := h.pop
  have hlinked := h.linked
  rw [hpush] at hpop
  have hr : s.pop.base = .next n ∧ r ≠ [] := by
    rcases hspin with hp | ⟨next, hp⟩
    · rw [hp] at hpop ⊢
      exact ⟨rfl, by simpa using hpop.2⟩
    · rw [hp] at hpop ⊢
      exact ⟨rfl, by simpa using hpop.2.1⟩
  rw [hr.1] at hlinked
  rw [show s.q.next n = r.head? from hlinked.head?_eq.symm]
  exact mt List.head?_eq_none_iff.1 hr.2

lemma Inv.pushStep_next (h : Inv s r) (hspin : s.pop.Spins n) (hnext : s.q.next n ≠ none)
    (hstep : Spsc.pushStep s = some s') : s'.pop = s.pop ∧ s'.q.next n ≠ none := by
  have hpush := h.push
  have hhand : n ∈ s.pop.hand := by
    rcases hspin with hp | ⟨next, hp⟩ <;> rw [hp] <;> exact mem_singleton_self n
  unfold Spsc.pushStep at hstep
  cases hp : s.push with
  | idle =>
    rw [hp] at hstep
    cases hstep
  | clear m =>
    rw [hp] at hstep hpush
    cases hstep
    have hne : n ≠ m := by
      rintro rfl
      exact hpush.2 (mem_append_left _ hhand)
    exact ⟨rfl, by simpa [Queue.store, hne] using hnext⟩
  | xchg m | inc t =>
    rw [hp] at hstep
    cases hstep
    exact ⟨rfl, hnext⟩
  | store t m =>
    rw [hp] at hstep
    cases hstep
    refine ⟨rfl, ?_⟩
    by_cases ht : t = .next n
    · rw [ht]
      simp [Queue.store]
    · have hload := load_store_of_ne s.q (some m) (Ne.symm ht)
      exact fun hnone => hnext (hload.symm.trans hnone)

lemma popStep_spins (hspin : s.pop.Spins n) (hnext : s.q.next n ≠ none)
    (hstep : popStep s = some s') :
    s'.pop = .dec n ∨
      s'.pop.Spins n ∧ s'.q.next n ≠ none ∧ s'.pop.spinsLeft + 1 = s.pop.spinsLeft := by
  unfold popStep at hstep
  rcases hspin with hp | ⟨next, hp⟩
  · rw [hp] at hstep
    cases hstep
    obtain ⟨m, hm⟩ := ne_none_iff_exists'.1 hnext
    refine .inr ⟨.inr ⟨_, rfl⟩, hnext, ?_⟩
    rw [hp, hm]
    rfl
  · cases next with
    | none =>
      rw [hp] at hstep
      cases hstep
      refine .inr ⟨.inl rfl, hnext, ?_⟩
      rw [hp]
      rfl
    | some m =>
      rw [hp] at hstep
      cases hstep
      exact .inl rfl

/-- With the next node there, the slow path ends after as many steps of the consumer, whatever the
producer does in between. -/
lemma spins_end (h : Inv s r) (hspin : s.pop.Spins n) (hnext : s.q.next n ≠ none)
    {acts : List (Act α)} (hexec : Machine.execIf step Legal s acts = some s')
    (hcount : s.pop.spinsLeft ≤ acts.count .consumer) :
    ∃ pre t, pre <+: acts ∧ Machine.execIf step Legal s pre = some t ∧ t.pop = .dec n := by
  induction acts generalizing s r with
  | nil =>
    refine absurd hcount ?_
    rcases hspin with hp | ⟨next, hp⟩
    · simp [hp, PopPc.spinsLeft]
    · cases next <;> simp [hp, PopPc.spinsLeft]
  | cons a acts ih =>
    rw [Machine.execIf, ite_none_right_eq_some] at hexec
    obtain ⟨ha, hexec⟩ := hexec
    obtain ⟨s1, hstep, hrest⟩ := bind_eq_some_iff.1 hexec
    obtain ⟨r1, hinv⟩ := h.step ha hstep
    -- it is enough to reach the end from the next state
    have hlift : ∀ {pre t}, pre <+: acts → Machine.execIf step Legal s1 pre = some t →
        t.pop = .dec n → ∃ pre t, pre <+: a :: acts ∧ Machine.execIf step Legal s pre = some t ∧
          t.pop = .dec n := by
      intro pre t hpre ht hdec
      refine ⟨a :: pre, t, cons_prefix_cons.2 ⟨rfl, hpre⟩, ?_, hdec⟩
      rw [Machine.execIf, if_pos ha, hstep]
      exact ht
    have hidle : s.pop ≠ .idle := by
      rcases hspin with hp | ⟨next, hp⟩ <;> rw [hp] <;> intro h <;> cases h
    have hother : a ≠ .consumer → s1.pop = s.pop ∧ s1.q.next n ≠ none := by
      intro hne
      cases a with
      | push m =>
        obtain ⟨-, hstep⟩ := ite_none_right_eq_some.1 hstep
        cases hstep
        exact ⟨rfl, hnext⟩
      | producer => exact h.pushStep_next hspin hnext hstep
      | pop => exact absurd (ite_none_right_eq_some.1 hstep).1 hidle
      | consumer => exact absurd rfl hne
    by_cases hc : a = .consumer
    · subst hc
      rw [count_cons_self] at hcount
      rcases popStep_spins hspin hnext hstep with hdec | ⟨hspin1, hnext1, hleft⟩
      · exact hlift nil_prefix rfl hdec
      · obtain ⟨pre, t, hpre, ht, hdec⟩ := ih hinv hspin1 hnext1 hrest (by omega)
        exact hlift hpre ht hdec
    · obtain ⟨hpop, hnext1⟩ := hother hc
      rw [count_cons_of_ne hc] at hcount
      obtain ⟨pre, t, hpre, ht, hdec⟩ := ih hinv (hpop ▸ hspin) hnext1 hrest (hpop ▸ hcount)
      exact hlift hpre ht hdec

/-! ## The queue -/

/-- **The queue is a queue.** In every state that the producer and the consumer reach, step by
memory operation, what was popped is a prefix of what was pushed, in this order, and what was not
popped is in the hands of the consumer, linked, or about to be linked. A pop returns `NULL` exactly
if it has read `head` when everything that was stored had been popped, and else a node. A push
returns true only if all nodes pushed before were removed when it became the last one. A pop in its
slow path, with no push about to store its node, leaves the path after at most three of its own
steps.

**Proof sketch.** All but the last part is read off the invariants `Inv` and `Answered`; the last
part is `spins_end`, because in the slow path the next node has appeared (`Inv.next_ne_none`). -/
theorem spsc_queue_correct {s : State α} (h : Reachable s) :
    s.popped <+: s.pushed ∧
      (∃ r, Linked s.q s.pop.base r ∧
        s.pushed = s.popped ++ (s.pop.hand ++ r ++ s.push.waiting)) ∧
      s.returned.reduceOption = s.popped ∧
      (∀ (i : ℕ) v, s.returned[i]? = some v → s.drained[i]? = some v.isNone) ∧
      (∀ i : ℕ, s.results[i]? = some true → s.empties[i]? = some true) ∧
      ∀ n, s.pop.Spins n → s.push.waiting = [] → ∀ acts s',
        Machine.execIf step Legal s acts = some s' → 3 ≤ acts.count .consumer →
        ∃ pre t, pre <+: acts ∧ Machine.execIf step Legal s pre = some t ∧ t.pop = .dec n := by
  obtain ⟨r, hinv⟩ := h.inv
  obtain ⟨hpopped, hanswers⟩ := h.answered
  refine ⟨⟨_, hinv.pushed.symm⟩, ⟨r, hinv.linked, hinv.pushed⟩, hpopped, fun i v hi => ?_,
    fun i hi => ?_, fun n hspin hpush acts s' hexec hcount => ?_⟩
  · have hlt := (List.getElem?_eq_some_iff.1 hi).1
    rw [← hanswers, List.getElem?_append_left (by simpa using hlt), List.getElem?_map, hi]
    rfl
  · have hlt := (List.getElem?_eq_some_iff.1 hi).1
    rw [← hinv.results, List.getElem?_append_left hlt]
    exact hi
  · refine spins_end hinv hspin (hinv.next_ne_none hspin hpush) hexec (Nat.le_trans ?_ hcount)
    rcases hspin with hp | ⟨next, hp⟩
    · simp [hp, PopPc.spinsLeft]
    · cases next <;> simp [hp, PopPc.spinsLeft]

/-- A pop finds nothing. Then the only node is popped while the next one is pushed: the pop waits
for the store. -/
def slowPop : List (Act ℕ) :=
  [.pop, .consumer, .push 1, .producer, .producer, .producer, .producer, .pop, .consumer, .consumer,
    .consumer, .push 2, .producer, .producer, .consumer, .consumer, .consumer, .producer, .consumer,
    .consumer, .consumer]

/-- The first pop returns `NULL`, the second one the first node, and the second node is left in the
queue. -/
theorem spsc_queue_correct_slowPop : ∃ s, Machine.execIf step Legal State.init slowPop = some s ∧
    s.pushed = [1, 2] ∧ s.returned = [none, some 1] ∧ s.q.head = some 2 ∧
    s.popped <+: s.pushed ∧ s.drained[0]? = some true ∧ s.drained[1]? = some false := by
  obtain ⟨s, hs, hobs⟩ := map_eq_some_iff.1
    (show (Machine.execIf step Legal State.init slowPop).map (fun s =>
      (s.pushed, s.returned, s.q.head)) = some ([1, 2], [none, some 1], some 2) by decide +kernel)
  obtain ⟨hpushed, hreturned, hhead⟩ :
      s.pushed = [1, 2] ∧ s.returned = [none, some 1] ∧ s.q.head = some 2 := by simpa using hobs
  obtain ⟨hpre, -, -, hnull, -⟩ := spsc_queue_correct (Machine.execIf_runs hs)
  exact ⟨s, hs, hpushed, hreturned, hhead, hpre, hnull 0 none (by simp [hreturned]),
    hnull 1 (some 1) (by simp [hreturned])⟩

end KmsDrm.Spsc
