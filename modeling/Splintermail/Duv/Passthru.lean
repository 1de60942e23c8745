/-
This file models the passthru stream: `passthru.c`, with the checks of `stream.h`.

A callback of the user may call the stream again before it returns. So the functions that
call back stop there and leave a frame, and go on from it when the callback returns; the
calls of the user come at any time. `duv_scheduler_run` is such a place too, because what
it runs are other layers of the stream, which are users of this one.

What libuv answers to a call comes with the event, as does where memory is short. Requests
are told by numbers, and the trace records what the stream calls: libuv with what it was
given, and the callbacks of the user.
-/

import Mathlib.Data.List.Range
import Splintermail.Dstr.Bytes
import Splintermail.Lib.Run

namespace Splintermail

/-- `UV_EOF` -/
def uvEof : Int := -4095

/-- `UV_ENOBUFS` -/
def uvEnobufs : Int := -105

/-- `UV_ECANCELED` -/
def uvEcanceled : Int := -125

/-- `stream_write_t`. A request that was not copied has no buffers. -/
structure StreamWrite where
  id : Nat
  bufs : List Bytes
  deriving DecidableEq

/-- What libuv returns, and for which requests there is no memory. -/
structure UvAnswer where
  write : Nat → Int
  readStart : Int
  shutdown : Int
  nomem : Nat → Bool

inductive PassthruError where
  | uv (status : Int)
  | nomem
  | canceled
  deriving DecidableEq

/-- What the stream does when a callback returns. -/
inductive PassthruFrame where
  | eof
  | read
  | sched
  | write
  | shutdown
  | await
  deriving DecidableEq

/-- What the stream calls. -/
inductive PassthruCall where
  | uvWrite (bufs : List Bytes)
  | uvShutdown
  | uvClose
  | read (id len : Nat)
  | write (id : Nat)
  | shutdown
  | await (hook : Nat) (e : Option PassthruError) (reads writes : List Nat)
  deriving DecidableEq

/-- Where the program is aborted, or crashes. -/
inductive PassthruFault where
  | emptyReads
  | enobufs
  | noInflight
  | noRequest
  | leftoverReads
  | leftoverWrites

/-- `duv_passthru_t`, with its `iface`. The request of a `write_mem` is `none` until it is first used;
`mems` are those that libuv has, in the order in which it got them, and `shutdownReq` says that it has
the shutdown request. The requests that were accepted are kept. -/
structure Passthru where
  canceled : Bool
  isShutdown : Bool
  eof : Bool
  awaited : Bool
  scheduled : Bool
  shutdownCb : Bool
  awaitCb : Option Nat
  e : Option PassthruError
  reading : Bool
  reads : List Nat
  allocated : Bool
  nheapbufs : Nat
  scheduleGuard : Bool
  wantSchedule : Bool
  pending : List StreamWrite
  inflight : Nat
  failed : List Nat
  req : Nat → Option Nat
  pool : List Nat
  requested : Bool
  complete : Bool
  responded : Bool
  closeRequested : Bool
  closeComplete : Bool
  mems : List Nat
  shutdownReq : Bool
  frames : List PassthruFrame
  trace : List PassthruCall
  acceptedReads : List Nat
  acceptedWrites : List StreamWrite

namespace Passthru

/-- `duv_passthru_init` -/
def init : Passthru where
  canceled := false
  isShutdown := false
  eof := false
  awaited := false
  scheduled := false
  shutdownCb := false
  awaitCb := none
  e := none
  reading := false
  reads := []
  allocated := false
  nheapbufs := 0
  scheduleGuard := false
  wantSchedule := false
  pending := []
  inflight := 0
  failed := []
  req := fun _ => none
  pool := List.range 8
  requested := false
  complete := false
  responded := false
  closeRequested := false
  closeComplete := false
  mems := []
  shutdownReq := false
  frames := []
  trace := []
  acceptedReads := []
  acceptedWrites := []

def call (p : Passthru) (c : PassthruCall) : Passthru := { p with trace := p.trace ++ [c] }

/-- A callback of the user, after which the stream goes on from the frame. -/
def callback (p : Passthru) (c : PassthruCall) (frame : PassthruFrame) : Passthru :=
  { p with trace := p.trace ++ [c], frames := frame :: p.frames }

/-- `TRACE_ORIG` -/
def fail (p : Passthru) (e : PassthruError) : Passthru := { p with e := some e }

/-- `failing` -/
def failing (p : Passthru) : Bool := p.canceled || p.e.isSome

/-- `closing` -/
def closing (p : Passthru) : Bool := p.failing || (p.eof && p.responded)

/-- `schedule` -/
def schedule (p : Passthru) : Passthru :=
  if p.scheduleGuard then { p with wantSchedule := true } else { p with scheduled := true }

/-- `convert_to_uvbufs`, which needs memory for many buffers. -/
def convertToUvbufs (p : Passthru) (uv : UvAnswer) (id nbufs : Nat) : Option Passthru :=
  if nbufs < 4 then some p
  else if p.nheapbufs < nbufs then if uv.nomem id then none else some { p with nheapbufs := nbufs }
  else some p

/-- A write that libuv has taken. -/
def submitted (p : Passthru) (mem : Nat) (pool : List Nat) (bufs : List Bytes) : Passthru :=
  { p with
    pool := pool
    mems := p.mems ++ [mem]
    inflight := p.inflight + 1
    trace := p.trace ++ [.uvWrite bufs] }

/-- The loop of `advance_state` through the pending writes, and whether it fails. -/
def submitLoop (uv : UvAnswer) : List StreamWrite → Passthru → Passthru × Bool
  | [], p => ({ p with pending := [] }, false)
  | w :: rest, p =>
    match p.pool with
    | [] => ({ p with pending := w :: rest }, false)
    | mem :: pool =>
      match p.convertToUvbufs uv w.id w.bufs.length with
      | none => ({ p with pending := w :: rest, pool := pool ++ [mem] }.fail .nomem, true)
      | some p =>
        if uv.write w.id < 0 then
          ({ p with pending := w :: rest, pool := pool ++ [mem] }.fail (.uv (uv.write w.id)), true)
        -- the request of the `write_mem` is left as it is
        else submitLoop uv rest (p.submitted mem pool w.bufs)

/-- The error of the await callback. -/
def finalError (p : Passthru) : Option PassthruError :=
  if !p.e.isSome && p.canceled then some .canceled else p.e

/-- `await_cb`, with all that is left. -/
def respondAwait (p : Passthru) (hook : Nat) : Except PassthruFault Passthru :=
  let p := { p with e := p.finalError, scheduled := false, awaited := true }
  if !p.failing && !p.reads.isEmpty then .error .leftoverReads
  else if !p.failing && !(p.failed.isEmpty && p.pending.isEmpty) then .error .leftoverWrites
  else
    .ok ({ p with reads := [], failed := [], pending := [] }.callback
      (.await hook p.e p.reads (p.failed ++ p.pending.map StreamWrite.id)) .await)

/-- The part of `advance_state` after the label. -/
def close (p : Passthru) : Except PassthruFault Passthru :=
  let p := if p.closeRequested then p else { p with closeRequested := true }.call .uvClose
  if p.allocated then .ok p
  else if p.inflight ≠ 0 then .ok p
  else if !p.closeComplete then .ok p
  else
    match p.awaitCb with
    | none => .ok p
    | some hook => if p.awaited then .ok p else p.respondAwait hook

/-- The shutdown in `advance_state`. -/
def advanceShutdown (p : Passthru) (uv : UvAnswer) : Except PassthruFault Passthru :=
  if !p.shutdownCb || p.responded then .ok p
  else if !p.pending.isEmpty then .ok p
  else
    let asked :=
      if p.requested then p
      else
        let p := { p with requested := true }.call .uvShutdown
        if uv.shutdown < 0 then p.fail (.uv uv.shutdown) else { p with shutdownReq := true }
    if !p.requested && decide (uv.shutdown < 0) then asked.close
    else if !asked.complete then .ok asked
    else .ok ({ asked with responded := true }.callback .shutdown .shutdown)

/-- `advance_state` -/
def advanceState (p : Passthru) (uv : UvAnswer) : Except PassthruFault Passthru :=
  if p.closing then p.close
  else
    let (p, failed) := submitLoop uv p.pending p
    if failed then p.close else p.advanceShutdown uv

/-! ### Callbacks of libuv -/

/-- The loop of `respond_eof_all`, and the rest of `_read_cb`. -/
def respondEofAll (p : Passthru) (uv : UvAnswer) : Except PassthruFault Passthru :=
  match p.reads with
  | [] => p.advanceState uv
  | id :: reads => .ok ({ p with reads := reads }.callback (.read id 0) .eof)

/-- `_alloc_cb` -/
def allocCb (p : Passthru) : Except PassthruFault Passthru :=
  if p.reads.isEmpty then .error .emptyReads else .ok { p with allocated := true }

/-- `_read_cb`, with `_do_read_cb` up to the callback. -/
def readCb (p : Passthru) (uv : UvAnswer) (nread : Int) : Except PassthruFault Passthru :=
  let p := { p with allocated := false }
  if p.failing then p.advanceState uv
  else if nread < 1 then
    if nread = 0 then p.advanceState uv
    else if nread = uvEof then { p with eof := true, reading := false }.respondEofAll uv
    else if nread = uvEnobufs then .error .enobufs
    else if nread = uvEcanceled then p.advanceState uv
    else (p.fail (.uv nread)).advanceState uv
  else
    match p.reads with
    | [] => .error .noRequest
    | id :: reads => .ok ({ p with reads := reads }.callback (.read id nread.toNat) .read)

/-- `write_cb`, up to the callback. -/
def writeCb (p : Passthru) (status : Int) : Except PassthruFault Passthru :=
  match p.mems with
  | [] => .error .noInflight
  | mem :: mems =>
    match p.req mem with
    | none => .error .noRequest
    | some id =>
      let p := if decide (status < 0) && !p.failing then p.fail (.uv status) else p
      if p.inflight = 0 then .error .noInflight
      else
        let p := { p with mems := mems, inflight := p.inflight - 1, pool := p.pool ++ [mem] }
        if p.failing then .ok { p with failed := p.failed ++ [id] }
        else .ok (p.callback (.write id) .write)

/-- `_shutdown_cb` -/
def shutdownDone (p : Passthru) (uv : UvAnswer) (status : Int) : Except PassthruFault Passthru :=
  let p := { p with complete := true, shutdownReq := false }
  let p := if decide (status < 0) && !p.failing then p.fail (.uv status) else p
  p.advanceState uv

/-- What follows when a callback returns. -/
def goOn (p : Passthru) (uv : UvAnswer) : PassthruFrame → Except PassthruFault Passthru
  | .eof => p.respondEofAll uv
  | .read =>
    if p.failing || !p.reads.isEmpty then p.advanceState uv
    else .ok { p with scheduleGuard := true, frames := .sched :: p.frames }
  | .sched =>
    let p := { p with scheduleGuard := false }
    let p := if p.wantSchedule then { p with wantSchedule := false }.schedule else p
    if p.failing || !p.reads.isEmpty then p.advanceState uv
    else { p with reading := false }.advanceState uv
  | .write => p.advanceState uv
  | .shutdown => if p.closing then p.close else .ok p
  | .await => .ok p

/-! ### Calls of the user -/

/-- `passthru_read`; a call that is not accepted changes nothing. -/
def read (p : Passthru) (uv : UvAnswer) (id size : Nat) : Passthru :=
  if size = 0 || p.awaited || p.canceled || p.eof then p
  else
    let p := { p with reads := p.reads ++ [id], acceptedReads := p.acceptedReads ++ [id] }
    if p.failing then p.schedule
    else if p.reading then p
    else
      let p := if uv.readStart < 0 then (p.fail (.uv uv.readStart)).schedule else p
      { p with reading := true }

/-- The write of `passthru_write` that goes to libuv at once. -/
def writeNow (p : Passthru) (uv : UvAnswer) (id : Nat) (bufs : List Bytes) (mem : Nat)
    (pool : List Nat) : Passthru :=
  let p := { p with req := fun other => if other = mem then some id else p.req other }
  match p.convertToUvbufs uv id bufs.length with
  | none =>
    let p : Passthru := (fail { p with pool := pool ++ [mem] } .nomem).schedule
    { p with pending := p.pending ++ [⟨id, []⟩] }
  | some p =>
    if uv.write id < 0 then
      let p : Passthru := (fail { p with pool := pool ++ [mem] } (.uv (uv.write id))).schedule
      { p with pending := p.pending ++ [⟨id, []⟩] }
    else p.submitted mem pool bufs

/-- `passthru_write` -/
def write (p : Passthru) (uv : UvAnswer) (id : Nat) (bufs : List Bytes) : Passthru :=
  if bufs.all List.isEmpty || p.awaited || p.canceled || p.isShutdown then p
  else
    let p : Passthru := { p with acceptedWrites := p.acceptedWrites ++ [⟨id, bufs⟩] }
    if p.failing then { p with pending := p.pending ++ [⟨id, []⟩] }
    else
      match p.pending, p.pool with
      | [], mem :: pool => p.writeNow uv id bufs mem pool
      | _, _ =>
        -- `stream_write_init` needs memory for more than four buffers
        if decide (4 < bufs.length) && uv.nomem id then
          let p : Passthru := (p.fail .nomem).schedule
          { p with pending := p.pending ++ [⟨id, []⟩] }
        else { p with pending := p.pending ++ [⟨id, bufs⟩] }

/-- `passthru_shutdown` -/
def shutdown (p : Passthru) (uv : UvAnswer) : Passthru :=
  let p := { p with isShutdown := true }
  if p.shutdownCb || p.failing then p
  else
    let p := { p with shutdownCb := true }
    if p.inflight ≠ 0 then p
    else
      -- `shutdown.requested` is not set here
      let p := p.call .uvShutdown
      if uv.shutdown < 0 then (p.fail (.uv uv.shutdown)).schedule else { p with shutdownReq := true }

/-- `passthru_cancel` -/
def cancel (p : Passthru) : Passthru :=
  if p.canceled || p.awaited then p else { p with canceled := true }.schedule

/-- `passthru_await` -/
def await (p : Passthru) (hook : Nat) : Passthru :=
  if p.awaited then p else { p with awaitCb := some hook }.schedule

end Passthru

/-! ### Events -/

inductive PassthruEvent where
  | read (id size : Nat)
  | write (id : Nat) (bufs : List Bytes)
  | shutdown
  | cancel
  | await (hook : Nat)
  | returns
  | alloc
  | readDone (nread : Int)
  | writeDone (status : Int)
  | shutdownDone (status : Int)
  | closeDone
  | scheduled

namespace Passthru

def step (p : Passthru) : PassthruEvent × UvAnswer → Except PassthruFault Passthru
  | (.read id size, uv) => .ok (p.read uv id size)
  | (.write id bufs, uv) => .ok (p.write uv id bufs)
  | (.shutdown, uv) => .ok (p.shutdown uv)
  | (.cancel, _) => .ok p.cancel
  | (.await hook, _) => .ok (p.await hook)
  | (.returns, uv) =>
    match p.frames with
    | [] => .ok p
    | frame :: frames => { p with frames := frames }.goOn uv frame
  | (.alloc, _) => p.allocCb
  | (.readDone nread, uv) => p.readCb uv nread
  | (.writeDone status, _) => p.writeCb status
  | (.shutdownDone status, uv) => p.shutdownDone uv status
  | (.closeDone, uv) => { p with closeComplete := true }.advanceState uv
  | (.scheduled, uv) => { p with scheduled := false }.advanceState uv

/-- What libuv and the scheduler do: libuv calls back from its loop only, it reads while it was told
to, completes a shutdown after the writes, and closes a handle after all its requests. The scheduler
runs what is scheduled from the loop, or when it is told to run. -/
def Fits (p : Passthru) : PassthruEvent × UvAnswer → Prop
  | (.returns, _) => p.frames ≠ [] ∧ (p.frames.head? = some .sched → p.scheduled = false)
  | (.alloc, _) => p.frames = [] ∧ p.reading ∧ p.allocated = false ∧ p.closeRequested = false
  | (.readDone nread, _) => p.frames = [] ∧ p.allocated ∧ nread ≠ uvEnobufs
  | (.writeDone _, _) => p.frames = [] ∧ p.mems ≠ []
  | (.shutdownDone _, _) => p.frames = [] ∧ p.shutdownReq ∧ p.mems = []
  | (.closeDone, _) => p.frames = [] ∧ p.closeRequested ∧ p.closeComplete = false ∧ p.mems = [] ∧
      p.shutdownReq = false ∧ p.allocated = false
  | (.scheduled, _) => p.scheduled ∧ (p.frames = [] ∨ p.frames.head? = some .sched)
  | _ => True

instance (p : Passthru) (event : PassthruEvent × UvAnswer) : Decidable (p.Fits event) :=
  match event with
  | (.returns, _) | (.alloc, _) | (.readDone _, _) | (.writeDone _, _) | (.shutdownDone _, _)
  | (.closeDone, _) | (.scheduled, _) => inferInstanceAs (Decidable (_ ∧ _))
  | (.read _ _, _) | (.write _ _, _) | (.shutdown, _) | (.cancel, _) | (.await _, _) =>
    isTrue trivial

end Passthru

end Splintermail
