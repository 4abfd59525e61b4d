import KmsDrm.I915.CmdParser.Execution

/-!
# Jumps inside a batch

A batch may end in `MI_BATCH_BUFFER_START`. Over any sequence of parses on one context, such a
jump of an accepted batch leads to the start of a command that the same parse has checked, so
that following it forever executes checked commands only.

## Main results

* `I915.session_jumps_checked` — the jumps of all accepted batches of a context.
-/

namespace KmsDrm.I915

open KmsDrm.Lib

variable (hash32Buf : BitVec 32 → ℕ → BitVec 32)

/-- A parse on some engine of the device: the engine is initialised, and there is a request. -/
structure Call (dev : Device) where
  id : EngineId
  engineAlloc : ℕ → Bool
  engine : Engine
  installed : initCmdParser hash32Buf engineAlloc dev id = some engine
  req : Request

/-- What happened in a parse: the call, the context it was made on, and what it gave. -/
structure Event (dev : Device) where
  call : Call hash32Buf dev
  ctx : Context
  parsed : Parsed

/-- The parses of a session in order, each on the context the one before has left. -/
def session {dev : Device} (ctx : Context) : List (Call hash32Buf dev) → List (Event hash32Buf dev)
  | [] => []
  | call :: calls =>
    match cmdParser hash32Buf call.engine call.req ctx with
    | none => []
    | some parsed => ⟨call, ctx, parsed⟩ :: session parsed.ctx calls

/-- The command at dword `o` was checked in this parse: the loop went on behind it, or it is the
last command, with which the loop was left. -/
def Event.Checked {dev : Device} (ev : Event hash32Buf dev) (mem : Shadow) (s : ParseState)
    (o : ℕ) : Prop :=
  CheckedAt hash32Buf ev.call.engine ev.call.req ev.ctx mem o ∨ o = s.offset

/-- The jumps of a parsed batch, whose loop left with state `s`, are checked: if the last command
is a jump, its target rounded down to a dword is the address in the copy of a command that was
checked in this parse; and every command that is executed was checked in this parse. -/
structure JumpsChecked {dev : Device} (ev : Event hash32Buf dev) (mem : Shadow)
    (s : ParseState) : Prop where
  target : isOp miBatchBufferStart (s.mem s.offset) = true →
    ∃ k, s.mem.target s.offset &&& ~~~3#64 =
        ev.call.req.shadowBatchStart + BitVec.ofNat 64 (4 * k) ∧
      ev.Checked hash32Buf mem s k
  executed : ∀ o, Executed ev.call.engine.tables ev.call.req.shadowBatchStart s.mem o →
    ev.Checked hash32Buf mem s o

variable {hash32Buf}

lemma session_length {dev : Device} (ctx : Context) (calls : List (Call hash32Buf dev)) :
    (session hash32Buf ctx calls).length = calls.length := by
  induction calls generalizing ctx with
  | nil => rfl
  | cons call calls ih =>
    have hsome : (cmdParser hash32Buf call.engine call.req ctx).isSome :=
      cmdParser_isSome call.installed ctx
    obtain ⟨p, hp⟩ := Option.isSome_iff_exists.1 hsome
    simp only [session, hp, List.length_cons, ih]

lemma session_parsed {dev : Device} {ctx : Context} {calls : List (Call hash32Buf dev)}
    {ev : Event hash32Buf dev} (h : ev ∈ session hash32Buf ctx calls) :
    cmdParser hash32Buf ev.call.engine ev.call.req ev.ctx = some ev.parsed := by
  induction calls generalizing ctx with
  | nil => simp [session] at h
  | cons call calls ih =>
    rw [session] at h
    split at h
    · simp at h
    · rename_i p hp
      rcases List.mem_cons.1 h with rfl | h
      · exact hp
      · exact ih h

lemma parse_jumps_checked {dev : Device} (ev : Event hash32Buf dev)
    (hparse : cmdParser hash32Buf ev.call.engine ev.call.req ev.ctx = some ev.parsed)
    (hret : ev.parsed.ret = 0) :
    ∃ mem s, ev.call.req.copy = .ok mem ∧ ev.parsed.last = some s ∧
      JumpsChecked hash32Buf ev mem s := by
  obtain ⟨mem, s, s', hcopy, hreach, hleave, hlast⟩ := cmdParser_ret_zero hparse hret
  have he := ev.call.installed
  have hoffset : s'.offset = s.offset := by
    rcases turn_leave_zero hleave with ⟨-, rfl⟩ | ⟨desc, -, -, -, hs'⟩
    · rfl
    · rw [hs']
  refine ⟨mem, s', hcopy, hlast, ⟨fun hjump => ?_, fun o ho => ?_⟩⟩
  · rw [hoffset] at hjump ⊢
    rcases turn_leave_zero hleave with ⟨hend, rfl⟩ | ⟨desc, -, -, hbb, -⟩
    · rw [hend] at hjump
      exact absurd hjump (by decide)
    · obtain ⟨k, htarget, -, hk⟩ := jump_checked hreach hbb
      refine ⟨k, htarget, ?_⟩
      rw [Event.Checked, hoffset]
      exact hk.symm
  · obtain ⟨u, hu, hus, rfl⟩ := reached_of_executed he hreach hleave ho
    rw [Event.Checked, hoffset]
    rcases Relation.ReflTransGen.cases_head hus with rfl | ⟨v, hv, -⟩
    · exact .inr rfl
    · exact .inl ⟨u, v, hu, hv, rfl⟩

/-- **Jumps lead to checked commands.** In every session on a new context, over batches of any
lengths and with any allocation failures, the jump an accepted batch ends with was rewritten to
the address of a command that was checked in the same parse, or of the jump itself; and whatever
the batch executes, following jumps any number of times, was checked in the same parse.

**Proof sketch.** For one parse this is `parse_jumps_checked`, on any context: the preparation of
the whitelist leaves no bit of an earlier batch among the commands of this one
(`initWhitelist_clear`), and the loop sets only the bits of commands it has checked
(`marked_checked`). -/
theorem session_jumps_checked {dev : Device} (calls : List (Call hash32Buf dev)) :
    (session hash32Buf Context.initial calls).length = calls.length ∧
      ∀ ev ∈ session hash32Buf Context.initial calls, ev.parsed.ret = 0 →
        ∃ mem s, ev.call.req.copy = .ok mem ∧ ev.parsed.last = some s ∧
          JumpsChecked hash32Buf ev mem s :=
  ⟨session_length _ calls, fun ev hev hret => parse_jumps_checked ev (session_parsed hev) hret⟩

/-! ## A batch that jumps to its start -/

def gen9 : Device := ⟨9, false, fun h => by simp at h⟩

/-- A batch of one `MI_NOOP` and a jump back to it. -/
def backJump : Request where
  copy := .ok fun i =>
    if i = 1 then miBatchBufferStart ||| miBbStartOperandExpect
    else if i = 2 then 0x4000
    else 0
  batchStart := 0x4000
  batchLen := 16
  shadowNode := 0x9000
  shadowNode_page := rfl
  alloc := fun _ => true

/-- The parse of the batch on the blitter. -/
def backJumpCall : Call identityHash gen9 where
  id := .bcs
  engineAlloc := fun _ => true
  engine := (initCmdParser identityHash (fun _ => true) gen9 .bcs).get (by decide +kernel)
  installed := (Option.some_get _).symm
  req := backJump

theorem session_jumps_checked_backJump :
    ∃ ev ∈ session identityHash Context.initial [backJumpCall], ev.parsed.ret = 0 ∧
      ∃ mem s, ev.parsed.last = some s ∧
        isOp miBatchBufferStart (s.mem s.offset) = true ∧ s.mem.target s.offset = 0x9000 ∧
        JumpsChecked identityHash ev mem s := by
  have heval : (session identityHash Context.initial [backJumpCall]).map (fun ev =>
      (ev.parsed.ret, ev.parsed.last.map fun s =>
        (isOp miBatchBufferStart (s.mem s.offset), s.mem.target s.offset))) =
      [(0, some (true, 0x9000))] := by
    decide +kernel
  obtain ⟨ev, hev, hval⟩ := List.mem_map.1 (heval ▸ List.mem_singleton_self _)
  simp only [Prod.mk.injEq] at hval
  obtain ⟨mem, s, -, hlast, hchecked⟩ := (session_jumps_checked [backJumpCall]).2 ev hev hval.1
  rw [hlast] at hval
  simp only [Option.map_some, Option.some.injEq, Prod.mk.injEq] at hval
  exact ⟨ev, hev, hval.1, mem, s, hlast, hval.2.1, hval.2.2, hchecked⟩

end KmsDrm.I915
