import KmsDrm.Lib.Machine

/-!
# The queue with one producer and one consumer

The lockless queue of the GPU scheduler is a linked list with a pointer to the place where the next
node has to be stored: the field `head` of the queue, or the field `next` of the last node. A push
moves this pointer first and stores the node afterwards; a pop of the last node moves it back with
a compare-and-exchange.

## Main definitions

* `Spsc.Queue.push`, `Spsc.Queue.pop` — the two calls as a whole.
* `Spsc.step` — one memory operation.

## Implementation notes

The memory is sequentially consistent, so the barriers are left out. The logs behind the program
points record what the two sides have done; no step depends on them.
-/

namespace KmsDrm.Spsc

open KmsDrm.Lib

variable {α : Type} [DecidableEq α]

/-- A place that holds a pointer to a node: the field `head` of the queue, or the field `next` of a
node. -/
inductive Slot (α : Type) where
  | head
  | next (n : α)
  deriving DecidableEq, Repr

/-- `struct spsc_queue`, with the field `next` of the nodes. -/
structure Queue (α : Type) where
  head : Option α
  tail : Slot α
  jobCount : ℤ
  next : α → Option α

/-- `spsc_queue_init`. -/
def Queue.init : Queue α := ⟨none, .head, 0, fun _ => none⟩

/-- Read a pointer. -/
def Queue.load (q : Queue α) : Slot α → Option α
  | .head => q.head
  | .next n => q.next n

/-- Write a pointer. -/
def Queue.store (q : Queue α) (v : Option α) : Slot α → Queue α
  | .head => { q with head := v }
  | .next n => { q with next := Function.update q.next n v }

/-- `spsc_queue_peek`. -/
def Queue.peek (q : Queue α) : Option α := q.head

/-- `spsc_queue_push` with no pop in between. -/
def Queue.push (q : Queue α) (n : α) : Queue α × Bool :=
  let q := q.store none (.next n)
  let tail := q.tail
  let q := { q with tail := .next n }
  let q := q.store (some n) tail
  ({ q with jobCount := q.jobCount + 1 }, decide (tail = .head))

/-- `spsc_queue_pop` with no push in between; the slow path then ends at once. -/
def Queue.pop (q : Queue α) : Queue α × Option α :=
  match q.head with
  | none => (q, none)
  | some node =>
    let next := q.next node
    let q := q.store next .head
    let q :=
      if next = none then
        if q.tail = .next node then { q with tail := .head } else q.store (q.next node) .head
      else q
    ({ q with jobCount := q.jobCount - 1 }, some node)

/-- Program points of `spsc_queue_push`: the next memory operation. -/
inductive PushPc (α : Type) where
  | idle
  | clear (n : α)
  | xchg (n : α)
  | store (tail : Slot α) (n : α)
  | inc (tail : Slot α)
  deriving DecidableEq, Repr

/-- Program points of `spsc_queue_pop`: the next memory operation. -/
inductive PopPc (α : Type) where
  | idle
  | readHead
  | readNext (node : α)
  | writeHead (node : α) (next : Option α)
  | cmpxchg (node : α)
  | spinRead (node : α)
  | spinWrite (node : α) (next : Option α)
  | dec (node : α)
  deriving DecidableEq, Repr

/-- The node that a pop has in its hands when it has removed it from the list. -/
def PopPc.taken : PopPc α → List α
  | .dec n => [n]
  | _ => []

/-- The queue, the two sides, and what they have done. -/
structure State (α : Type) where
  q : Queue α
  push : PushPc α
  pop : PopPc α
  /-- The nodes in the order of the exchanges of `tail`. -/
  pushed : List α
  /-- How many pushes have stored their node. -/
  stored : ℕ
  /-- For each exchange of `tail`, whether all nodes pushed before were removed by then. -/
  empties : List Bool
  /-- What the pushes have returned. -/
  results : List Bool
  /-- What the pops have returned, apart from `NULL`. -/
  popped : List α
  /-- What the pops have returned. -/
  returned : List (Option α)
  /-- For each read of `head`, whether all nodes stored before were popped by then. -/
  drained : List Bool

/-- A queue that was just initialised. -/
def State.init : State α := ⟨.init, .idle, .idle, [], 0, [], [], [], [], []⟩

/-- The calls, and the steps of the two sides within them. -/
inductive Act (α : Type) where
  | push (n : α)
  | producer
  | pop
  | consumer
  deriving DecidableEq, Repr

/-- One memory operation of `spsc_queue_push`. -/
def pushStep (s : State α) : Option (State α) :=
  match s.push with
  | .idle => none
  | .clear n => some { s with q := s.q.store none (.next n), push := .xchg n }
  | .xchg n => some { s with
      q := { s.q with tail := .next n }
      push := .store s.q.tail n
      pushed := s.pushed ++ [n]
      empties := s.empties ++ [decide (s.pushed = s.popped ++ s.pop.taken)] }
  | .store tail n => some { s with
      q := s.q.store (some n) tail, push := .inc tail, stored := s.stored + 1 }
  | .inc tail => some { s with
      q := { s.q with jobCount := s.q.jobCount + 1 }
      push := .idle
      results := s.results ++ [decide (tail = .head)] }

/-- One memory operation of `spsc_queue_pop`. -/
def popStep (s : State α) : Option (State α) :=
  match s.pop with
  | .idle => none
  | .readHead =>
    let drained := s.drained ++ [decide (s.popped = s.pushed.take s.stored)]
    match s.q.head with
    | none => some { s with pop := .idle, returned := s.returned ++ [none], drained := drained }
    | some node => some { s with pop := .readNext node, drained := drained }
  | .readNext node => some { s with pop := .writeHead node (s.q.next node) }
  | .writeHead node none => some { s with q := s.q.store none .head, pop := .cmpxchg node }
  | .writeHead node (some next) =>
    some { s with q := s.q.store (some next) .head, pop := .dec node }
  | .cmpxchg node =>
    if s.q.tail = .next node then some { s with q := { s.q with tail := .head }, pop := .dec node }
    else some { s with pop := .spinRead node }
  | .spinRead node => some { s with pop := .spinWrite node (s.q.next node) }
  | .spinWrite node none => some { s with q := s.q.store none .head, pop := .spinRead node }
  | .spinWrite node (some next) =>
    some { s with q := s.q.store (some next) .head, pop := .dec node }
  | .dec node => some { s with
      q := { s.q with jobCount := s.q.jobCount - 1 }
      pop := .idle
      popped := s.popped ++ [node]
      returned := s.returned ++ [some node] }

/-- One step of the producer or the consumer. -/
def step : Act α → State α → Option (State α)
  | .push n, s => if s.push = .idle then some { s with push := .clear n } else none
  | .producer, s => pushStep s
  | .pop, s => if s.pop = .idle then some { s with pop := .readHead } else none
  | .consumer, s => popStep s

/-- What the producer promises: a node is not pushed again before a pop has returned it. -/
def Legal (s : State α) : Act α → Prop
  | .push n => n ∉ s.pushed.drop s.popped.length
  | _ => True

instance (s : State α) : ∀ a, Decidable (Legal s a)
  | .push _ => inferInstanceAs (Decidable (_ ∉ _))
  | .producer => inferInstanceAs (Decidable True)
  | .pop => inferInstanceAs (Decidable True)
  | .consumer => inferInstanceAs (Decidable True)

/-- The states that the producer and the consumer reach. -/
def Reachable : State α → Prop := Machine.Runs step Legal State.init

end KmsDrm.Spsc
