import KmsDrm.Lib.CircList
import KmsDrm.Spsc.Basic

/-!
# The GPU scheduler

Clients push jobs to entities; the thread of the scheduler takes them from the queues of the
entities when their dependencies are met and hands them to the hardware. The hardware fence of a
job calls back and signals the fence `finished` of the job. After a hang the callbacks are taken
back and all jobs that are not finished are handed to the hardware again.

## Main definitions

* `Sched.mainIteration` — an iteration of the thread of the scheduler.
* `Sched.step` — a step of the clients, the scheduler, the callbacks or the recovery.

## Implementation notes

A job has the two fences `scheduled` and `finished` of its `struct drm_sched_fence`; all other
fences, those of the hardware and of other schedulers, are `other` and are signaled by the
environment. The callbacks of the backend are choices: what `dependency` returns in an iteration is
a list of fences that ends with `NULL`, and `run_job` returns a hardware fence or `NULL`. A
callback that a fence will call is a field (`cb`, `dep`, `finishCb`); it runs in a step of its own
after the fence is signaled. The timeouts are left out, as they only decide when a reset is called.
The last fields of the state record what has happened; no step depends on them.
-/

namespace KmsDrm.Sched

open KmsDrm.Lib
open Function (update)

/-- A `struct drm_sched_entity`. -/
abbrev Entity := ℕ

/-- A `struct drm_sched_job`, named by the entity it was made for, which gives the context of its
fences, and the number that its fences got. -/
structure Job where
  entity : Entity
  seqno : ℕ
  deriving DecidableEq, Repr

inductive Fence where
  | scheduled (j : Job)
  | finished (j : Job)
  | other (id : ℕ)
  deriving DecidableEq, Repr

/-- `DRM_SCHED_PRIORITY_KERNEL`. -/
def priorityKernel : ℕ := 4

/-- `DRM_SCHED_PRIORITY_MAX`. -/
def priorityMax : ℕ := 5

/-- `struct drm_sched_rq`. -/
structure RunQueue where
  entities : List Entity
  currentEntity : Option Entity
  deriving DecidableEq, Repr

/-- The local variables of `drm_sched_job_recovery`: the job that is run next, the one behind it on
the list, and the context that is guilty. -/
structure Recovery where
  sJob : Option Job
  tmp : Option Job
  guilty : Option Entity
  deriving DecidableEq, Repr

/-- The scheduler, its run queues, entities and jobs. -/
structure State where
  /-- `hw_submission_limit` -/
  limit : ℕ
  /-- `hang_limit` -/
  hangLimit : ℤ
  /-- The run queue of an entity. -/
  priority : Entity → ℕ
  /-- `hw_rq_count` -/
  hwRqCount : ℤ
  /-- `sched_rq` -/
  rq : ℕ → RunQueue
  /-- `job_queue` -/
  queue : Entity → Spsc.Queue Job
  /-- `dependency`, for which the callback of the entity is registered. -/
  dep : Entity → Option Fence
  /-- What `guilty` points to, if it is not `NULL`. -/
  guilty : Entity → Option Bool
  /-- `fence_seq` -/
  fenceSeq : Entity → ℕ
  /-- `ring_mirror_list` -/
  mirror : List Job
  /-- The fences that are signaled. -/
  signaled : Fence → Bool
  /-- The hardware fence with which `s_fence->cb` is registered. -/
  cb : Job → Option ℕ
  /-- `s_fence->parent` -/
  parent : Job → Option ℕ
  /-- Whether `finish_cb` is registered with the fence `finished`. -/
  finishCb : Job → Bool
  /-- Whether `finish_work` is scheduled. -/
  finishWork : Job → Bool
  /-- Whether `drm_sched_job_finish` has run, so that the job is freed. -/
  jobFreed : Job → Bool
  /-- Whether `drm_sched_fence_free` has run. -/
  fenceFreed : Job → Bool
  karma : Job → ℤ
  /-- Whether the error of `finished` is `-ECANCELED`. -/
  canceled : Job → Bool
  /-- `drm_sched_job_recovery`, while it runs. -/
  recovery : Option Recovery
  /-- A reset was made whose recovery has not ended. -/
  resetPending : Bool
  /-- The jobs pushed to an entity. -/
  pushed : Entity → List Job
  /-- The calls of `run_job`. -/
  ran : List Job
  /-- What the callback `dependency` has returned for a job. -/
  returned : Job → List Fence
  /-- The jobs whose fence `finished` was signaled, once for each time. -/
  finishes : List Job
  /-- How many references to hardware fences a `struct drm_sched_fence` has taken. -/
  taken : Job → ℕ
  /-- How many of them were dropped. -/
  dropped : Job → ℕ

/-- A scheduler without jobs. -/
def init (limit : ℕ) (hangLimit : ℤ) (priority : Entity → ℕ) (guilty : Entity → Option Bool) :
    State where
  limit := limit
  hangLimit := hangLimit
  priority := priority
  hwRqCount := 0
  rq _ := ⟨[], none⟩
  queue _ := .init
  dep _ := none
  guilty := guilty
  fenceSeq _ := 0
  mirror := []
  signaled _ := false
  cb _ := none
  parent _ := none
  finishCb _ := false
  finishWork _ := false
  jobFreed _ := false
  fenceFreed _ := false
  karma _ := 0
  canceled _ := false
  recovery := none
  resetPending := false
  pushed _ := []
  ran := []
  returned _ := []
  finishes := []
  taken _ := 0
  dropped _ := 0

/-! ## Entities and run queues -/

/-- `drm_sched_rq_add_entity`. -/
def rqAddEntity (rq : RunQueue) (e : Entity) : RunQueue :=
  if e ∈ rq.entities then rq else { rq with entities := rq.entities ++ [e] }

/-- `drm_sched_entity_push_job`, for a new job. -/
def pushJob (s : State) (e : Entity) : State :=
  let j : Job := ⟨e, s.fenceSeq e + 1⟩
  let r := (s.queue e).push j
  { s with
    fenceSeq := update s.fenceSeq e (s.fenceSeq e + 1)
    queue := update s.queue e r.1
    rq := if r.2 then update s.rq (s.priority e) (rqAddEntity (s.rq (s.priority e)) e)
      else s.rq
    pushed := update s.pushed e (s.pushed e ++ [j]) }

/-- `drm_sched_entity_is_ready`. -/
def entityIsReady (s : State) (e : Entity) : Bool := (s.queue e).peek.isSome && (s.dep e).isNone

/-- `drm_sched_rq_select_entity`: first the entities behind the current one, then those up to it. -/
def rqSelectEntity (s : State) (rq : RunQueue) : Option Entity :=
  match rq.currentEntity with
  | some c =>
    ((rq.entities.dropWhile (· ≠ c)).tail.find? (entityIsReady s)).or
      ((rq.entities.takeWhile (· ≠ c) ++ [c]).find? (entityIsReady s))
  | none => rq.entities.find? (entityIsReady s)

/-- `drm_sched_ready`, which compares `hw_rq_count` as an unsigned number. -/
def schedReady (s : State) : Bool := decide (s.hwRqCount % 2 ^ 32 < s.limit)

/-- `drm_sched_select_entity`, with the run queue of the entity. -/
def selectEntity (s : State) : Option (ℕ × Entity) :=
  if schedReady s then
    (List.range priorityMax).reverse.findSome? fun i =>
      (rqSelectEntity s (s.rq i)).map fun e => (i, e)
  else none

/-- The fence for which `drm_sched_entity_add_dependency_cb` waits: fences of the entity itself are
ignored, and of fences of this scheduler the one with which the job is scheduled is taken. -/
def waitFor (e : Entity) : Fence → Option Fence
  | .scheduled j => if j.entity = e then none else some (.scheduled j)
  | .finished j => some (.scheduled j)
  | .other id => some (.other id)

/-- `drm_sched_entity_add_dependency_cb`. -/
def addDependencyCb (s : State) (e : Entity) (f : Fence) : State × Bool :=
  match waitFor e f with
  | none => (s, false)
  | some g =>
    if s.signaled g then (s, false)
    else ({ s with dep := update s.dep e (some g) }, true)

/-- The loop of `drm_sched_entity_pop_job`; the result tells whether the entity has to wait. -/
def pollDependencies (s : State) (e : Entity) (j : Job) : List Fence → State × Bool
  | [] => (s, false)
  | f :: fs =>
    let r := addDependencyCb
      { s with returned := update s.returned j (s.returned j ++ [f]) } e f
    if r.2 then r else pollDependencies r.1 e j fs

/-! ## Running a job -/

/-- `drm_sched_fence_finished`, with the callback `drm_sched_job_finish_cb`. -/
def fenceFinished (s : State) (j : Job) : State :=
  if s.signaled (.finished j) then s
  else
    { s with
      signaled := update s.signaled (.finished j) true
      finishWork := update s.finishWork j (s.finishWork j || s.finishCb j)
      finishCb := update s.finishCb j false
      finishes := s.finishes ++ [j] }

/-- `drm_sched_process_job`. -/
def processJob (s : State) (j : Job) : State :=
  fenceFinished { s with hwRqCount := s.hwRqCount - 1 } j

/-- `drm_sched_job_begin`. -/
def jobBegin (s : State) (j : Job) : State :=
  { s with
    finishCb := update s.finishCb j (!s.signaled (.finished j))
    mirror := s.mirror ++ [j] }

/-- What `drm_sched_main` and `drm_sched_job_recovery` do with the fence that `run_job` returned. -/
def submit (s : State) (j : Job) : Option ℕ → State
  | some f =>
    let s := { s with
      parent := update s.parent j (some f)
      taken := update s.taken j (s.taken j + 1) }
    if s.signaled (.other f) then processJob s j
    else { s with cb := update s.cb j (some f) }
  | none => processJob s j

/-- An iteration of `drm_sched_main` when the dependencies of the job are met, up to the call of
`run_job`; with it the job is scheduled. -/
def startJob (s : State) (e : Entity) (j : Job) : State :=
  let s := { s with
    canceled := if s.guilty e = some true then update s.canceled j true else s.canceled
    queue := update s.queue e (s.queue e).pop.1
    hwRqCount := s.hwRqCount + 1 }
  let s := jobBegin s j
  { s with
    ran := s.ran ++ [j]
    signaled := update s.signaled (.scheduled j) true }

/-- The rest of an iteration of `drm_sched_main` when the dependencies of the job are met. -/
def runJob (s : State) (e : Entity) (j : Job) (hw : Option ℕ) : State :=
  submit (startJob s e j) j hw

/-- An iteration of `drm_sched_main` with an entity that was selected. -/
def entityTurn (s : State) (e : Entity) (polls : List Fence) (hw : Option ℕ) : State :=
  match (s.queue e).peek with
  | none => s
  | some j =>
    let r := pollDependencies s e j polls
    if r.2 then r.1 else runJob r.1 e j hw

/-- One iteration of the loop of `drm_sched_main`; without an entity the thread goes on waiting. -/
def mainIteration (s : State) (polls : List Fence) (hw : Option ℕ) : Option State :=
  (selectEntity s).map fun (i, e) =>
    entityTurn
      { s with rq := update s.rq i { s.rq i with currentEntity := some e } } e polls hw

/-- The callback of a hardware fence. -/
def callback (s : State) (j : Job) : Option State :=
  match s.cb j with
  | some f =>
    if s.signaled (.other f) then some (processJob { s with cb := update s.cb j none } j)
    else none
  | none => none

/-- `drm_sched_entity_wakeup` and `drm_sched_entity_clear_dep`. -/
def depCallback (s : State) (e : Entity) : Option State :=
  match s.dep e with
  | some f => if s.signaled f then some { s with dep := update s.dep e none } else none
  | none => none

/-- `drm_sched_job_finish`. -/
def jobFinish (s : State) (j : Job) : Option State :=
  if s.finishWork j then
    some { s with
      mirror := s.mirror.erase j
      finishWork := update s.finishWork j false
      jobFreed := update s.jobFreed j true }
  else none

/-- `drm_sched_fence_free`, when all references to the fences of a job are gone. -/
def fenceFree (s : State) (j : Job) : Option State :=
  if s.jobFreed j = true ∧ s.fenceFreed j = false then
    some { s with
      fenceFreed := update s.fenceFreed j true
      parent := update s.parent j none
      dropped := if (s.parent j).isSome then update s.dropped j (s.dropped j + 1)
        else s.dropped }
  else none

/-! ## Reset and recovery -/

/-- The body of the loop of `drm_sched_hw_job_reset`. -/
def resetJob (s : State) (j : Job) : State :=
  if (s.parent j).isSome ∧ (s.cb j).isSome then
    { s with
      parent := update s.parent j none
      cb := update s.cb j none
      dropped := update s.dropped j (s.dropped j + 1)
      hwRqCount := s.hwRqCount - 1 }
  else s

/-- The end of `drm_sched_hw_job_reset`: the karma of the bad job. -/
def blame (s : State) (bad : Job) : State :=
  if s.priority bad.entity = priorityKernel then s
  else
    let karma := s.karma bad + 1
    let known := (List.range priorityKernel).any fun i => bad.entity ∈ (s.rq i).entities
    { s with
      karma := update s.karma bad karma
      guilty := if known ∧ s.hangLimit < karma then
        update s.guilty bad.entity ((s.guilty bad.entity).map fun _ => true)
        else s.guilty }

/-- `drm_sched_hw_job_reset`. -/
def hwJobReset (s : State) (bad : Option Job) : State :=
  let s := s.mirror.reverse.foldl resetJob s
  let s := match bad with
    | some j => blame s j
    | none => s
  { s with resetPending := true }

/-- The beginning of `drm_sched_job_recovery`, up to the first job. -/
def recoveryStart (s : State) : Option State :=
  if s.recovery = none then
    some { s with
      recovery := some ⟨s.mirror.head?,
        s.mirror.head?.bind fun j => CircList.next s.mirror (some j), none⟩ }
  else none

/-- The loop of `drm_sched_job_recovery`, from one `spin_unlock` to the next: run the job again and
go on to the one that was behind it. There is no step if one of the two was freed in between. -/
def recoveryTurn (s : State) (hw : Option ℕ) : Option State :=
  s.recovery.bind fun r =>
    match r.sJob with
    | none => some { s with recovery := none, resetPending := false }
    | some j =>
      let guilty := if r.guilty = none ∧ s.hangLimit < s.karma j then some j.entity
        else r.guilty
      if j ∈ s.mirror ∧ r.tmp ∈ CircList.ptrs s.mirror then
        let s := { s with
          recovery := some ⟨r.tmp, r.tmp.bind fun t => CircList.next s.mirror (some t), guilty⟩
          canceled := if guilty = some j.entity then update s.canceled j true
            else s.canceled
          ran := s.ran ++ [j]
          hwRqCount := s.hwRqCount + 1 }
        some (submit s j hw)
      else none

/-! ## The steps -/

/-- The steps of the scheduler and of its environment. -/
inductive Act where
  | push (e : Entity)
  | main (polls : List Fence) (hw : Option ℕ)
  | signal (id : ℕ)
  | callback (j : Job)
  | depCallback (e : Entity)
  | jobFinish (j : Job)
  | fenceFree (j : Job)
  | reset (bad : Option Job)
  | recoveryStart
  | recoveryTurn (hw : Option ℕ)
  deriving DecidableEq, Repr

def step : Act → State → Option State
  | .push e, s => some (pushJob s e)
  | .main polls hw, s => mainIteration s polls hw
  | .signal id, s => some { s with signaled := update s.signaled (.other id) true }
  | .callback j, s => callback s j
  | .depCallback e, s => depCallback s e
  | .jobFinish j, s => jobFinish s j
  | .fenceFree j, s => fenceFree s j
  | .reset bad, s => some (hwJobReset s bad)
  | .recoveryStart, s => recoveryStart s
  | .recoveryTurn hw, s => recoveryTurn s hw

end KmsDrm.Sched
