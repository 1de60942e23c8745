/-
This file models `rstream_concat`: `concat.c`, on base streams of which only the contract of
`stream.h` is known.

A read of the user is lent to one base at a time, under a callback of the concat, and comes
back with that callback, or with the await of the base. What the bases have is kept apart
from what the code knows of them. The user may call the stream from within its callbacks;
what it does there comes with the event.
-/

import Splintermail.Dstr.Bytes
import Splintermail.Lib.Run

namespace Splintermail

/-- `read->cb`: a callback of the user, or `read_cb`. -/
inductive ReadCb where
  | user (hook : Nat)
  | concat
  deriving DecidableEq, Repr

/-- `rstream_read_t` -/
structure ConcatRead where
  id : Nat
  cb : ReadCb
  deriving DecidableEq, Repr

/-- The errors of a stream, as far as they are told apart. -/
inductive ConcatError where
  | canceled
  | other
  deriving DecidableEq, Repr

/-- A base stream: what it has not delivered yet, and what it has done. -/
structure ConcatBase where
  rest : Bytes
  eof : Bool
  awaited : Bool
  canceled : Bool
  deriving DecidableEq, Repr

/-- What the user's callbacks are called with. -/
inductive ConcatCall where
  | read (read : ConcatRead) (buf : Bytes)
  | await (hook : Nat) (e : Option ConcatError) (reads : List ConcatRead)
  deriving DecidableEq, Repr

/-- What the user may do. -/
inductive ConcatUse where
  | read (id hook size : Nat)
  | cancel
  | await (hook : Nat)
  deriving DecidableEq, Repr

/-- `rstream_concat_t`, with its `iface`, and what is around it: the scheduler, the bases with what
they deliver in all, the read that one of them was lent, what was called and which reads were
accepted, and what the user does in its next callbacks. -/
structure RstreamConcat where
  canceled : Bool
  eof : Bool
  awaited : Bool
  nbases : Nat
  basesCanceled : Nat → Bool
  nawaited : Nat
  e : Option ConcatError
  awaitCb : Option Nat
  baseIdx : Nat
  baseEof : Bool
  reading : Bool
  reads : List ConcatRead
  originalReadCb : ReadCb
  returned : Option (ConcatRead × Bytes)
  scheduled : Bool
  contents : Nat → Bytes
  bases : Nat → ConcatBase
  lent : Option (Nat × ConcatRead)
  trace : List ConcatCall
  accepted : List ConcatRead
  reactions : List (List ConcatUse)

inductive ConcatFault where
  /-- An event that the bases or the scheduler do not give. -/
  | impossible
  /-- Where the program is aborted, or crashes. -/
  | fatal
  deriving DecidableEq, Repr

namespace RstreamConcat

/-- `NBASES_MAX` -/
def nbasesMax : Nat := 8

/-- What `_rstream_concat` writes. -/
def fresh (contents : List Bytes) : RstreamConcat where
  canceled := false
  eof := false
  awaited := false
  nbases := contents.length
  basesCanceled := fun _ => false
  nawaited := 0
  e := none
  awaitCb := none
  baseIdx := 0
  baseEof := false
  reading := false
  reads := []
  originalReadCb := .concat
  returned := none
  scheduled := false
  contents := fun idx => contents.getD idx []
  bases := fun idx => ⟨contents.getD idx [], false, false, false⟩
  lent := none
  trace := []
  accepted := []
  reactions := []

/-- `_rstream_concat` -/
def init (contents : List Bytes) : Except ConcatFault RstreamConcat :=
  if contents.length > nbasesMax then .error .fatal else .ok (fresh contents)

/-- `failing` -/
def failing (c : RstreamConcat) : Bool := c.e.isSome || c.canceled

/-- `closing` -/
def closing (c : RstreamConcat) : Bool := c.failing || c.eof

/-- `cancel_bases` -/
def cancelBases (c : RstreamConcat) : RstreamConcat :=
  { c with
    basesCanceled := fun _ => true
    bases := fun idx =>
      if c.basesCanceled idx then c.bases idx else { c.bases idx with canceled := true } }

/-! ### The user's calls -/

/-- `concat_read` -/
def concatRead (c : RstreamConcat) (id hook size : Nat) : RstreamConcat :=
  if size ≠ 0 && !c.awaited && !c.canceled && !c.eof then
    { c with
      reads := c.reads ++ [⟨id, .user hook⟩]
      accepted := c.accepted ++ [⟨id, .user hook⟩]
      scheduled := true }
  else c

/-- `concat_cancel` -/
def concatCancel (c : RstreamConcat) : RstreamConcat :=
  let c := { c with canceled := true }
  if c.awaited then c else { c.cancelBases with scheduled := true }

/-- `concat_await` -/
def concatAwait (c : RstreamConcat) (hook : Nat) : RstreamConcat := { c with awaitCb := some hook }

/-- A call of the user. -/
def use (c : RstreamConcat) : ConcatUse → RstreamConcat
  | .read id hook size => c.concatRead id hook size
  | .cancel => c.concatCancel
  | .await hook => c.concatAwait hook

/-- A callback of the user, with what the user does in it. -/
def callback (c : RstreamConcat) (call : ConcatCall) : RstreamConcat :=
  (c.reactions.headD []).foldl use
    { c with trace := c.trace ++ [call], reactions := c.reactions.tail }

/-! ### The state machine -/

/-- `respond_all_eof`, on `c->reads`, with a bound on the number of reads. -/
def respondAllEof : Nat → RstreamConcat → RstreamConcat
  | 0, c => c
  | count + 1, c =>
    match c.reads with
    | [] => c
    | read :: reads => respondAllEof count ({ c with reads }.callback (.read read []))

/-- `advance_state`, from where the read in flight is awaited. -/
def advanceAwait (c : RstreamConcat) : RstreamConcat :=
  -- await the in-flight read
  if c.reading then c
  else
    -- the link of the read is in no list: as the head of a list it has no elements to prepend
    let c := { c with returned := none }
    -- await all bases
    if c.nawaited < c.nbases then c
    else
      -- wait to be awaited
      match c.awaitCb with
      | none => c
      | some hook =>
        let e := if c.e = none && c.canceled then some .canceled else c.e
        { c with awaited := true, scheduled := false, e, reads := [] }.callback
          (.await hook e c.reads)

/-- `advance_state`, from `closing` on. -/
def advanceClosing (c : RstreamConcat) : RstreamConcat :=
  if c.awaited then c else (if c.failing then c.cancelBases else c).advanceAwait

/-- `advance_state`, from where a read may be sent out. -/
def advanceRead (c : RstreamConcat) : Except ConcatFault RstreamConcat :=
  if c.reading then .ok c
  else
    match c.reads with
    | [] => .ok c
    | read :: reads =>
      let base := c.bases c.baseIdx
      -- submit to the current base
      if base.awaited || base.canceled || base.eof then .error .fatal
      else .ok { c with
          reads
          originalReadCb := read.cb
          lent := some (c.baseIdx, { read with cb := .concat })
          reading := true }

/-- `advance_state`, from where the bases are counted. -/
def advanceBase (c : RstreamConcat) : Except ConcatFault RstreamConcat :=
  if c.baseIdx = c.nbases then
    let c := { c with eof := true }
    .ok (c.respondAllEof c.reads.length).advanceClosing
  else
    -- respond to successful reads
    match c.returned with
    | none => c.advanceRead
    | some (read, buf) =>
      let c := { c with returned := none }.callback (.read read buf)
      -- check if user closed us
      if c.closing then .ok c.advanceClosing else c.advanceRead

/-- `advance_state` -/
def advanceState (c : RstreamConcat) : Except ConcatFault RstreamConcat :=
  if c.closing then .ok c.advanceClosing
  else if c.baseEof then
    match c.returned with
    | none => .error .fatal
    | some (read, _) =>
      -- put our returned read back in front of pending
      advanceBase { c with
          baseIdx := c.baseIdx + 1, baseEof := false, reads := read :: c.reads, returned := none }
  else c.advanceBase

/-- `read_cb` -/
def readCb (c : RstreamConcat) (read : ConcatRead) (buf : Bytes) :
    Except ConcatFault RstreamConcat :=
  advanceState { c with
      returned := some ({ read with cb := c.originalReadCb }, buf)
      reading := false
      baseEof := if buf.length = 0 then true else c.baseEof }

/-- `UPGRADE_CANCELED_VAR` -/
def upgradeCanceled (e : Option ConcatError) : Option ConcatError :=
  if e = some .canceled then some .other else e

/-- `KEEP_FIRST_IF_NOT_CANCELED_VAR` -/
def keepFirst (e e2 : Option ConcatError) : Option ConcatError :=
  match e with
  | some .canceled => e2
  | some .other => some .other
  | none => e2

/-- `await_cb`. The reads of others that the base had are passed on and not kept here. -/
def awaitCbOf (c : RstreamConcat) (idx : Nat) (e : Option ConcatError) (reads : List ConcatRead) :
    Except ConcatFault RstreamConcat :=
  let e := if c.basesCanceled idx then e else upgradeCanceled e
  -- capture any unfinished reads of ours
  let ours := reads.filter fun read => read.cb = .concat
  advanceState { c with
      e := keepFirst c.e e
      nawaited := c.nawaited + 1
      basesCanceled := fun other => if other = idx then true else c.basesCanceled other
      reading := if ours.isEmpty then c.reading else false
      reads := ours ++ c.reads }

/-! ### Runs -/

inductive ConcatEvent where
  | use (use : ConcatUse)
  | baseRead (buf : Bytes)
  | baseAwait (idx : Nat) (e : Option ConcatError)
  | scheduled
  deriving DecidableEq, Repr

/-- The bytes that a base delivers are the next ones, and there is an end after the last. -/
def Delivers (base : ConcatBase) (buf : Bytes) : Prop :=
  base.awaited = false ∧ base.eof = false ∧ buf <+: base.rest ∧ (buf = [] → base.rest = [])

/-- A base has an end before it is awaited, or fails. -/
def Ends (base : ConcatBase) (e : Option ConcatError) : Prop :=
  base.awaited = false ∧ (e = none → base.eof = true)

instance (base : ConcatBase) (buf : Bytes) : Decidable (Delivers base buf) :=
  inferInstanceAs (Decidable (_ ∧ _))

instance (base : ConcatBase) (e : Option ConcatError) : Decidable (Ends base e) :=
  inferInstanceAs (Decidable (_ ∧ _))

/-- A base after it delivered. -/
def deliver (base : ConcatBase) (buf : Bytes) : ConcatBase :=
  { base with rest := base.rest.drop buf.length, eof := buf = [] }

/-- The read of ours that a base has. -/
def heldBy (c : RstreamConcat) (idx : Nat) : List ConcatRead :=
  match c.lent with
  | some (holder, read) => if holder = idx then [read] else []
  | none => []

/-- What happens next, with what the user does in the callbacks. -/
def step (c : RstreamConcat) (event : ConcatEvent × List (List ConcatUse)) :
    Except ConcatFault RstreamConcat :=
  let c := { c with reactions := event.2 }
  match event.1 with
  | .use use => .ok (c.use use)
  | .baseRead buf =>
    match c.lent with
    | none => .error .impossible
    | some (idx, read) =>
      if Delivers (c.bases idx) buf then
        readCb { c with
            lent := none
            bases := fun other =>
              if other = idx then deliver (c.bases idx) buf else c.bases other }
          read buf
      else .error .impossible
  | .baseAwait idx e =>
    if idx < c.nbases ∧ Ends (c.bases idx) e then
      awaitCbOf { c with
          lent := if (c.heldBy idx).isEmpty then c.lent else none
          bases := fun other =>
            if other = idx then { c.bases idx with awaited := true } else c.bases other }
        idx e (c.heldBy idx)
    else .error .impossible
  | .scheduled =>
    if c.scheduled then advanceState { c with scheduled := false } else .error .impossible

end RstreamConcat

end Splintermail
