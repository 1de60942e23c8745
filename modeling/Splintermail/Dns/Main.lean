/-
This file models the callbacks of the DNS server, `main.c` with `membuf.c`.

A `membuf_t` is a number. A pointer to one that was returned is NULL, and reading through it
is a fault, as is reading a buffer that is in the pool. What libuv guarantees is in which
callbacks can come: the timer of the initial resyncs is first, a socket that receives asks
the allocator and then hands over what it has received, and a send completes once. What a
callback computes from a packet is taken from outside.
-/

import Splintermail.Dstr.Bytes
import Mathlib.Data.List.Perm.Basic

namespace Splintermail

namespace Dns

def maxPeers : Nat := 8
def nmembufs : Nat := 256

/-- The sockets. -/
inductive Udp where
  | dns
  | sync
  deriving DecidableEq

/-- `derr_t`, when it is an error. -/
inductive Derr where
  | internal
  | uv (uvret : Int)
  | sending
  | handling
  deriving DecidableEq

def uvEcanceled : Int := -125
def uvEdestaddrreq : Int := -89
def enokey : Int := 126

/-- What can go wrong: reading through a pointer that is NULL, reading a buffer that was returned,
and a `LOG_FATAL`. -/
inductive IoFault where
  | null
  | returned
  | fatal
  deriving DecidableEq

/-- `globals_t`, with the state that libuv keeps: which socket receives, the buffers that it was
given, and the timer. -/
structure Globals where
  membufs : List Nat
  recving : Bool
  closing : Bool
  closeReason : Option Derr
  receiving : Udp → Bool
  allocated : Option (Udp × Option Nat)
  sends : List (Udp × Nat)
  timer : Bool

namespace Globals

/-! ### Buffers -/

/-- `membufs_pop` -/
def membufsPop (g : Globals) : Option (Nat × Globals) :=
  match g.membufs with
  | [] => none
  | membuf :: membufs => some (membuf, { g with membufs })

/-- `membuf_return`, and the pointer after it. -/
def membufReturn (g : Globals) : Option Nat → Globals × Option Nat
  | none => (g, none)
  | some membuf => ({ g with membufs := g.membufs ++ [membuf] }, none)

/-- Any access to a buffer. -/
def use (g : Globals) : Option Nat → Except IoFault Nat
  | none => .error .null
  | some membuf => if membuf ∈ g.membufs then .error .returned else .ok membuf

/-! ### libuv -/

/-- `recv_start`. A socket that already receives is an error, and all callers then stop. -/
def recvStart (g : Globals) (udp : Udp) : Except IoFault Globals :=
  if g.receiving udp then .error .fatal
  else .ok { g with receiving := fun other => if other = udp then true else g.receiving other }

/-- `recv_stop` -/
def recvStop (g : Globals) (udp : Udp) : Globals :=
  { g with receiving := fun other => if other = udp then false else g.receiving other }

/-- `udp_send`, if it succeeds. -/
def udpSend (g : Globals) (udp : Udp) (membuf : Nat) : Globals :=
  { g with sends := g.sends ++ [(udp, membuf)] }

/-! ### Callbacks -/

/-- `g_membuf_return`, and the pointer after it. -/
def gMembufReturn (g : Globals) (membuf : Option Nat) : Except IoFault (Globals × Option Nat) := do
  let (g, membuf) := g.membufReturn membuf
  if !g.closing && !g.recving then
    -- it's safe to receive again
    let g ← g.recvStart .dns
    let g ← g.recvStart .sync
    return ({ g with recving := true }, membuf)
  else return (g, membuf)

/-- `dns_close` -/
def dnsClose (g : Globals) (e : Derr) : Globals :=
  if g.closing then
    if g.closeReason.isNone then { g with closeReason := some e } else g
  else { g with closing := true, closeReason := some e, receiving := fun _ => false }

/-- `on_send` -/
def onSend (g : Globals) (membuf : Nat) (status : Int) : Except IoFault Globals := do
  let (g, membuf) ← g.gMembufReturn (some membuf)
  if status = 0 ∨ status = uvEcanceled then return g
  if status = uvEdestaddrreq then
    let _ ← g.use membuf
    return g
  -- similarly, don't crash the service if one wg endpoint is misconfigured
  if status = -enokey then
    let _ ← g.use membuf
    return g
  return g.dnsClose (.uv status)

/-- `allocator`. Without a buffer libuv is given none. -/
def allocator (g : Globals) (udp : Udp) : Globals :=
  match g.membufsPop with
  | none => { g with allocated := some (udp, none) }
  | some (membuf, g) => { g with allocated := some (udp, some membuf) }

/-- What the functions called by `on_recv_dns` return: `rrl_check`, `handle_packet`, and if
`addr_copy` and `udp_send` succeed. -/
structure DnsCalls where
  ok : Bool
  rlen : Nat
  copied : Bool
  sent : Bool

/-- `on_recv_dns`: the pointer after it, and the error. -/
def onRecvDns (g : Globals) (membufp : Option Nat) (calls : DnsCalls) :
    Except IoFault (Globals × Option Nat × Option Derr) := do
  if !calls.ok then return (g, membufp, none)
  let membuf ← g.use membufp
  if calls.rlen = 0 then return (g, membufp, none)
  if !calls.copied then return (g, membufp, some .sending)
  if !calls.sent then return (g, membufp, some .sending)
  -- if we launched the write successfully, the udp_send owns membuf
  return (g.udpSend .dns membuf, none, none)

/-- What the functions called by `on_recv_sync` return: whether a peer is found, whether
`kvpsync_update_read` admits the packet, and if `kvpsync_recv_handle_update`, `addr_copy` and
`udp_send` succeed. -/
structure SyncCalls where
  found : Bool
  ok : Bool
  handled : Bool
  copied : Bool
  sent : Bool

/-- `on_recv_sync`: the pointer after it, and the error. -/
def onRecvSync (g : Globals) (membufp : Option Nat) (calls : SyncCalls) :
    Except IoFault (Globals × Option Nat × Option Derr) := do
  if !calls.found then return (g, membufp, none)
  let membuf ← g.use membufp
  if !calls.ok then return (g, membufp, none)
  if !calls.handled then return (g, membufp, some .handling)
  if !calls.copied then return (g, membufp, some .sending)
  if !calls.sent then return (g, membufp, some .sending)
  -- if we launched the write successfully, the udp_send owns membuf
  return (g.udpSend .sync membuf, none, none)

/-- What libuv hands to `on_recv`. -/
inductive Nread where
  | nothing
  | enobufs
  | ecanceled
  | error (uvret : Int)
  | udpPartial
  | packet (dns : DnsCalls) (sync : SyncCalls)

/-- What is done with it: the pointer after it, and the error. -/
def received (g : Globals) (udp : Udp) (membuf : Option Nat) :
    Nread → Except IoFault (Globals × Option Nat × Option Derr)
  | .nothing => .ok (g, membuf, none)
  | .enobufs => .ok (g, membuf, some .internal)
  | .ecanceled => .ok (g, membuf, none)
  | .error uvret => .ok (g, membuf, some (.uv uvret))
  | .udpPartial => .ok (g, membuf, none)
  | .packet dns sync =>
    match udp with
    | .dns => g.onRecvDns membuf dns
    | .sync => g.onRecvSync membuf sync

/-- The end of `on_recv`, with the pointer. -/
def bufReturn (g : Globals) (membuf : Option Nat) : Except IoFault Globals :=
  if membuf.isSome then do
    let (g, _) ← g.gMembufReturn membuf
    return g
  else if !g.closing && g.recving && g.membufs.isEmpty then
    -- there are none left and we aren't returning this one
    .ok { (g.recvStop .dns).recvStop .sync with recving := false }
  else .ok g

/-- `on_recv` -/
def onRecv (g : Globals) (udp : Udp) (nread : Nread) (membuf : Option Nat) :
    Except IoFault Globals := do
  let (g, membuf, e) ← g.received udp membuf nread
  match e with
  | none => g.bufReturn membuf
  | some e => (g.dnsClose e).bufReturn membuf

/-- The loop of `send_initial_resyncs`, with whether `addr_copy` and `udp_send` succeed for each
peer. -/
def sendInitialResyncs (g : Globals) : List (Bool × Bool) → Except IoFault Globals
  | [] => .ok g
  | (copied, sent) :: peers =>
    match g.membufsPop with
    | none => .error .fatal
    | some (membuf, g) => do
      let membuf ← g.use (some membuf)
      if !copied || !sent then
        let (g, _) := g.membufReturn (some membuf)
        return g.dnsClose .sending
      (g.udpSend .sync membuf).sendInitialResyncs peers

/-! ### Steps -/

/-- The state when the loop is entered. -/
def start : Globals where
  membufs := List.range nmembufs
  recving := true
  closing := false
  closeReason := none
  receiving := fun _ => true
  allocated := none
  sends := []
  timer := true

/-- The callbacks. -/
inductive Event where
  | resyncs (peers : List (Bool × Bool))
  | alloc (udp : Udp)
  | recv (udp : Udp) (nread : Nread)
  | sent (udp : Udp) (membuf : Nat) (status : Int)

/-- The callback can come. Without a buffer a socket hands over `UV_ENOBUFS`, or that it was
stopped. -/
def Enabled (npeers : Nat) (g : Globals) : Event → Prop
  | .resyncs peers => g.timer = true ∧ peers.length = npeers
  | .alloc udp =>
    g.timer = false ∧ g.allocated = none ∧ g.closing = false ∧ g.receiving udp = true
  | .recv udp nread => g.timer = false ∧
    (g.allocated = none ∧ nread = .ecanceled ∨ g.allocated = some (udp, none) ∧ nread = .enobufs ∨
      (∃ membuf, g.allocated = some (udp, some membuf)) ∧ nread ≠ .enobufs)
  | .sent udp membuf _ => g.timer = false ∧ g.allocated = none ∧ (udp, membuf) ∈ g.sends

/-- What a callback does. -/
def step (g : Globals) : Event → Except IoFault Globals
  | .resyncs peers => { g with timer := false }.sendInitialResyncs peers
  | .alloc udp => .ok (g.allocator udp)
  | .recv udp nread => { g with allocated := none }.onRecv udp nread (g.allocated.bind Prod.snd)
  | .sent udp membuf status =>
    { g with sends := g.sends.erase (udp, membuf) }.onSend membuf status

end Globals

end Dns

end Splintermail
