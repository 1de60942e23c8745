/-
This file states what a user of the passthru stream may rely on, and the invariant of the
stream.

The contract is about what the stream has called, in the order in which it did, and about
the requests it has accepted. That nothing gets lost is told of the states in which
nothing is under way. The invariant accounts for every request: it was answered, or it
failed, or libuv has it, or it waits, in the order in which the requests were made.
-/

import Splintermail.Duv.Passthru

namespace Splintermail

namespace PassthruCall

/-! ### What was called -/

/-- The requests of the write callbacks. -/
def writeCbs (trace : List PassthruCall) : List Nat :=
  trace.filterMap fun
    | .write id => some id
    | _ => none

/-- The requests of the read callbacks. -/
def readCbs (trace : List PassthruCall) : List Nat :=
  trace.filterMap fun
    | .read id _ => some id
    | _ => none

/-- What `uv_write` was given. -/
def given (trace : List PassthruCall) : List (List Bytes) :=
  trace.filterMap fun
    | .uvWrite bufs => some bufs
    | _ => none

/-- The writes that were handed back. -/
def handedWrites (trace : List PassthruCall) : List Nat :=
  (trace.filterMap fun
    | .await _ _ _ writes => some writes
    | _ => none).flatten

/-- The reads that were handed back. -/
def handedReads (trace : List PassthruCall) : List Nat :=
  (trace.filterMap fun
    | .await _ _ reads _ => some reads
    | _ => none).flatten

/-- The number of await callbacks. -/
def awaits (trace : List PassthruCall) : Nat :=
  trace.countP fun
    | .await _ _ _ _ => true
    | _ => false

end PassthruCall

open PassthruCall

namespace Passthru

/-- Nothing is under way. -/
def Idle (p : Passthru) : Prop :=
  p.frames = [] ∧ p.scheduled = false ∧ p.mems = [] ∧ p.shutdownReq = false ∧ p.allocated = false

/-- What is left when nothing is under way. -/
structure Finished (p : Passthru) : Prop where
  writes : p.failing = false → writeCbs p.trace = p.acceptedWrites.map StreamWrite.id
  reads : p.failing = false → p.eof = true → readCbs p.trace = p.acceptedReads
  shutdown : p.failing = false → p.isShutdown = true → .uvShutdown ∈ p.trace ∧ .shutdown ∈ p.trace
  closes : p.closing = true → .uvClose ∈ p.trace
  awaited : p.closeComplete = true → p.awaitCb ≠ none → p.awaited = true

/-- The contract of `stream_i`, for the passthru stream. -/
structure Contract (p : Passthru) : Prop where
  writes : writeCbs p.trace ++ handedWrites p.trace <+: p.acceptedWrites.map StreamWrite.id
  reads : readCbs p.trace ++ handedReads p.trace <+: p.acceptedReads
  bytes : given p.trace <+: p.acceptedWrites.map StreamWrite.bufs
  shutdownOnce : p.trace.count .uvShutdown ≤ 1
  shutdownAfter : ∀ before after, p.trace = before ++ .uvShutdown :: after →
    given before = p.acceptedWrites.map StreamWrite.bufs
  shutdownCbOnce : p.trace.count .shutdown ≤ 1
  shutdownCbAfter : ∀ before after, p.trace = before ++ .shutdown :: after →
    writeCbs before = p.acceptedWrites.map StreamWrite.id
  closes : p.failing = true → .uvClose ∈ p.trace ∨ p.scheduled = true ∨ p.wantSchedule = true
  awaitOnce : awaits p.trace ≤ 1
  awaitAll : p.awaited = true →
    writeCbs p.trace ++ handedWrites p.trace = p.acceptedWrites.map StreamWrite.id ∧
      readCbs p.trace ++ handedReads p.trace = p.acceptedReads
  awaitError : ∀ hook e reads writes, .await hook e reads writes ∈ p.trace →
    (e = none ↔ (∃ id, .read id 0 ∈ p.trace) ∧ .shutdown ∈ p.trace ∧ p.canceled = false)
  finished : p.Idle → p.Finished

/-- What goes wrong otherwise: a write that waited is sent in the place of an older one, a shutdown
with nothing in flight is not recorded, and a write that fails tells nobody. -/
def Sane (p : Passthru) : PassthruEvent × UvAnswer → Prop
  | (.returns, _) => p.frames.head? = some .write → p.failing = true ∨ p.pending = []
  | (.shutdown, _) => p.shutdownCb = true ∨ p.failing = true ∨ p.inflight ≠ 0
  | (.writeDone status, _) => 0 ≤ status ∨ p.failing = true ∨ p.scheduled = true
  | _ => True

instance (p : Passthru) (event : PassthruEvent × UvAnswer) : Decidable (p.Sane event) :=
  match event with
  | (.returns, _) => inferInstanceAs (Decidable (_ → _))
  | (.shutdown, _) | (.writeDone _, _) => inferInstanceAs (Decidable (_ ∨ _))
  | (.read _ _, _) | (.write _ _, _) | (.cancel, _) | (.await _, _) | (.alloc, _) | (.readDone _, _)
  | (.shutdownDone _, _) | (.closeDone, _) | (.scheduled, _) => isTrue trivial

/-! ### The invariant -/

/-- The frames of the stream: one, or one within the run of the scheduler. -/
inductive Framed : List PassthruFrame → Prop where
  | none : Framed []
  | one (frame : PassthruFrame) : Framed [frame]
  | within (frame : PassthruFrame) (last : frame = .shutdown ∨ frame = .await) :
      Framed [frame, .sched]

/-- The requests that libuv has. -/
def taken (p : Passthru) : List Nat := p.mems.filterMap p.req

/-- The writes, one behind the other. -/
structure Writes (p : Passthru) : Prop where
  inflight : p.inflight = p.mems.length
  slots : (p.pool ++ p.mems).Perm (List.range 8)
  known : ∀ mem ∈ p.mems, p.req mem ≠ none
  account : p.acceptedWrites.map StreamWrite.id =
    writeCbs p.trace ++ handedWrites p.trace ++ p.failed ++ p.taken ++ p.pending.map StreamWrite.id
  bytes : given p.trace <+: p.acceptedWrites.map StreamWrite.bufs
  count : p.awaited = false →
    (given p.trace).length = (writeCbs p.trace).length + p.failed.length + p.mems.length
  failed : p.failed ≠ [] → p.failing = true

/-- The reads. -/
structure Reads (p : Passthru) : Prop where
  account : p.acceptedReads = readCbs p.trace ++ handedReads p.trace ++ p.reads
  allocated : p.allocated = true → p.reads ≠ []
  reading : p.reading = true → p.closing = true ∨ p.reads ≠ [] ∨ .read ∈ p.frames ∨ .sched ∈ p.frames
  ends : .eof ∈ p.frames → p.eof = true
  eof : p.eof = true → p.reading = false ∧ p.allocated = false ∧
    (p.reads = [] ∨ .eof ∈ p.frames) ∧ ∃ id, .read id 0 ∈ p.trace
  zero : ∀ id, .read id 0 ∈ p.trace → p.eof = true

/-- The shutdown. -/
structure Shutting (p : Passthru) : Prop where
  asked : p.shutdownCb = true → p.isShutdown = true
  kept : p.isShutdown = true → p.shutdownCb = true ∨ p.failing = true
  once : p.trace.count .uvShutdown = p.requested.toNat
  requested : p.requested = true → p.shutdownCb = true ∧
    given p.trace = p.acceptedWrites.map StreamWrite.bufs
  after : ∀ before after, p.trace = before ++ .uvShutdown :: after →
    given before = p.acceptedWrites.map StreamWrite.bufs
  sent : p.shutdownReq = true → p.requested = true ∧ p.complete = false
  complete : p.complete = true → p.requested = true ∧ p.mems = []
  waits : p.requested = true → p.complete = true ∨ p.shutdownReq = true ∨ p.failing = true
  cbOnce : p.trace.count .shutdown = p.responded.toNat
  responded : p.responded = true → p.complete = true
  cbAfter : ∀ before after, p.trace = before ++ .shutdown :: after →
    writeCbs before = p.acceptedWrites.map StreamWrite.id

/-- The end of the stream. -/
structure Ending (p : Passthru) : Prop where
  framed : Framed p.frames
  guard : p.scheduleGuard = true ↔ .sched ∈ p.frames
  want : p.wantSchedule = true → p.scheduleGuard = true
  close : p.closeRequested = true → p.closing = true ∧ .uvClose ∈ p.trace
  complete : p.closeComplete = true → p.closeRequested = true ∧ p.mems = [] ∧ p.allocated = false
  awaited : p.awaited = true → p.closeComplete = true ∧ p.reads = [] ∧ p.failed = [] ∧ p.pending = []
  awaits : awaits p.trace = p.awaited.toNat
  error : p.e.isSome = true → p.eof = false ∨ p.responded = false ∨ p.canceled = true
  result : ∀ hook e reads writes, .await hook e reads writes ∈ p.trace →
    (e = none ↔ p.eof = true ∧ p.responded = true ∧ p.canceled = false)
  handed : p.failing = false → handedWrites p.trace = [] ∧ handedReads p.trace = []

/-- What always holds, also where the stream has something left to do. -/
structure Ready (p : Passthru) : Prop where
  writes : p.Writes
  reads : p.Reads
  shutting : p.Shutting
  ending : p.Ending

/-- What the stream has done when it returns to libuv or to its user. -/
structure Settled (p : Passthru) : Prop where
  queue : p.pending ≠ [] → p.failing = true ∨ p.pool = [] ∨ .write ∈ p.frames
  reads : p.reading = true → p.closeRequested = true ∨ p.reads ≠ [] ∨ .read ∈ p.frames ∨
    .sched ∈ p.frames
  shutdown : p.shutdownCb = true → p.requested = true ∨ p.failing = true ∨ p.mems ≠ [] ∨
    .write ∈ p.frames
  responds : p.complete = true → p.responded = true ∨ p.failing = true
  closes : p.failing = true → p.closeRequested = true ∨ p.scheduled = true ∨ p.wantSchedule = true
  ends : p.closing = true → p.closeRequested = true ∨ p.failing = true ∨ .shutdown ∈ p.frames ∨
    .eof ∈ p.frames
  awaits : p.closeComplete = true → p.awaitCb ≠ none →
    p.awaited = true ∨ p.scheduled = true ∨ p.wantSchedule = true

structure Sound (p : Passthru) : Prop where
  ready : p.Ready
  settled : p.Settled

end Passthru

end Splintermail
