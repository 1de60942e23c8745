/-
This file models `duv_connect`: `connect.c`, on a libuv of which only what it promises is
known.

The addresses of a node are tried one after the other, on one handle that is closed in
between. What libuv has outstanding is kept apart from what the code knows of it: a request
is answered once, by an event, and a call that libuv does not allow is a fault. The answers
of the two calls that may fail at once come with the event in which they are made.
-/

import Mathlib.Data.List.Infix
import Splintermail.Lib.Run

namespace Splintermail

/-- The errors that `duv_connect_cb` may get. -/
inductive ConnectError where
  | uv (status : Int)
  | conn
  | canceled
  deriving DecidableEq, Repr

/-- `duv_connect_t`, where the address lists are lists of what is in `ai_addr`. -/
structure DuvConnect (Addr : Type) where
  active : Bool
  canceling : Bool
  done : Bool
  gaiCanceling : Bool
  gaiReturned : Bool
  gaiStatus : Int
  gaiRes : List Addr
  gaiDone : Bool
  gaiPtr : List Addr
  tcpOpen : Bool
  tcpClosing : Bool
  tcpClosed : Bool
  connectStarted : Bool
  connectCanceling : Bool
  connectReturned : Bool
  connectStatus : Int
  deriving DecidableEq, Repr

/-- The handle, as libuv has it: before `uv_tcp_init_ex` and after it was closed it is not there. -/
inductive TcpHandle (Addr : Type) where
  | absent
  | opened
  | connected (addr : Addr)
  | closing
  deriving DecidableEq, Repr

/-- What is outstanding in libuv, with a record of what happened: the addresses that were resolved,
those that `uv_tcp_connect` was called with, the number of completions, and what the callback got. -/
structure Uv (Addr : Type) where
  gai : Bool
  connect : Option Addr
  tcp : TcpHandle Addr
  addrs : List Addr
  tried : List Addr
  completions : Nat
  called : List (Option ConnectError)
  deriving DecidableEq, Repr

/-- What libuv answers to the calls that may fail at once. -/
structure SyncAnswer where
  init : Int
  connect : Int
  deriving DecidableEq, Repr

inductive ConnectFault where
  /-- An event that libuv does not give. -/
  | impossible
  /-- A call that libuv does not allow, or an access to a null pointer. -/
  | misuse
  deriving DecidableEq, Repr

/-- A connector on its libuv. -/
structure Connecting (Addr : Type) where
  c : DuvConnect Addr
  uv : Uv Addr
  deriving DecidableEq, Repr

namespace Connecting

variable {Addr : Type}

/-- `duv_connect`, when `uv_getaddrinfo` was started. -/
def start : Connecting Addr where
  c :=
    { active := true
      canceling := false
      done := false
      gaiCanceling := false
      gaiReturned := false
      gaiStatus := 0
      gaiRes := []
      gaiDone := false
      gaiPtr := []
      tcpOpen := false
      tcpClosing := false
      tcpClosed := false
      connectStarted := false
      connectCanceling := false
      connectReturned := false
      connectStatus := 0 }
  uv :=
    { gai := true
      connect := none
      tcp := .absent
      addrs := []
      tried := []
      completions := 0
      called := [] }

/-! ### Calls to libuv -/

/-- `uv_tcp_init_ex` -/
def uvTcpInitEx (ret : Int) (w : Connecting Addr) : Except ConnectFault (Connecting Addr) :=
  if w.uv.tcp matches .absent then
    if ret < 0 then .ok w else .ok { w with uv := { w.uv with tcp := .opened } }
  else .error .misuse

/-- `uv_tcp_connect` -/
def uvTcpConnect (ret : Int) (addr : Addr) (w : Connecting Addr) :
    Except ConnectFault (Connecting Addr) :=
  if w.uv.tcp matches .opened && w.uv.connect.isNone then
    let uv := { w.uv with tried := w.uv.tried ++ [addr] }
    if ret < 0 then .ok { w with uv } else .ok { w with uv := { uv with connect := some addr } }
  else .error .misuse

/-- `duv_tcp_close` on a handle without a request. -/
def duvTcpClose (w : Connecting Addr) : Except ConnectFault (Connecting Addr) :=
  if (w.uv.tcp matches .opened || w.uv.tcp matches .connected _) && w.uv.connect.isNone then
    .ok { w with uv := { w.uv with tcp := .closing } }
  else .error .misuse

/-! ### The state machine -/

/-- `finish` -/
def finish (w : Connecting Addr) (e : Option ConnectError) : Connecting Addr :=
  let e := if e = none && w.c.canceling then some .canceled else e
  { c := { w.c with gaiRes := [], done := true, active := false, canceling := false }
    uv := { w.uv with called := w.uv.called ++ [e] } }

/-- `advance_state`, the cancel logic. -/
def advanceCancel (w : Connecting Addr) : Except ConnectFault (Connecting Addr) := do
  -- a connect cannot be canceled, and is waited for
  let w :=
    if w.c.connectStarted then { w with c := { w.c with connectCanceling := true } } else w
  if w.c.connectStarted && !w.c.connectReturned then return w
  let mut w := w
  if w.c.tcpOpen then
    -- we have an open tcp still
    if !w.c.tcpClosing then
      w ← duvTcpClose { w with c := { w.c with tcpClosing := true } }
    if !w.c.tcpClosed then return w
  if !w.c.gaiReturned then
    -- we are mid-gai
    return { w with c := { w.c with gaiCanceling := true } }
  -- everything is cleaned up
  return finish w none

/-- `advance_state`, from where a connect was started. -/
def advanceConnect (w : Connecting Addr) : Except ConnectFault (Connecting Addr) :=
  if !w.c.connectReturned then .ok w
  else if w.c.connectStatus < 0 then
    -- connection failed
    duvTcpClose { w with c := { w.c with tcpClosing := true } }
  else .ok (finish w none)

/-- `advance_state`, from where the tcp is open. -/
def advanceTcp (sync : SyncAnswer) (w : Connecting Addr) :
    Except ConnectFault (Connecting Addr) := do
  if w.c.connectStarted then advanceConnect w
  else
    match w.c.gaiPtr with
    | [] => .error .misuse
    | addr :: _ =>
      let w ← uvTcpConnect sync.connect addr w
      if sync.connect < 0 then return finish w (some (.uv sync.connect))
      advanceConnect { w with c := { w.c with connectStarted := true } }

/-- `advance_state`, from where no tcp is closing. -/
def advanceAddr (sync : SyncAnswer) (w : Connecting Addr) :
    Except ConnectFault (Connecting Addr) := do
  if w.c.tcpOpen then advanceTcp sync w
  else if w.c.gaiPtr.isEmpty then
    -- we tried all the addrs, but all failed
    return finish w (some .conn)
  else
    let w ← uvTcpInitEx sync.init w
    if sync.init < 0 then return finish w (some (.uv sync.init))
    advanceTcp sync { w with c := { w.c with tcpOpen := true } }

/-- `advance_state`, from where there are addresses. -/
def advanceReset (sync : SyncAnswer) (w : Connecting Addr) :
    Except ConnectFault (Connecting Addr) :=
  if w.c.tcpClosing then
    if !w.c.tcpClosed then .ok w
    else
      -- we finished closing, reset state and try again
      match w.c.gaiPtr with
      | [] => .error .misuse
      | _ :: next =>
        advanceAddr sync { w with
            c := { w.c with
              tcpOpen := false
              tcpClosing := false
              tcpClosed := false
              connectStarted := false
              connectReturned := false
              gaiPtr := next } }
  else advanceAddr sync w

/-- `advance_state` -/
def advanceState (sync : SyncAnswer) (w : Connecting Addr) :
    Except ConnectFault (Connecting Addr) :=
  if w.c.done then .ok w
  else if w.c.canceling then advanceCancel w
  else if w.c.gaiDone then advanceReset sync w
  else if !w.c.gaiReturned then .ok w
  -- end of the line
  else if w.c.gaiStatus < 0 then .ok (finish w (some (.uv w.c.gaiStatus)))
  -- start at the beginning of the list
  else advanceReset sync { w with c := { w.c with gaiPtr := w.c.gaiRes, gaiDone := true } }

/-- `duv_connect_cancel` -/
def duvConnectCancel (sync : SyncAnswer) (w : Connecting Addr) :
    Except ConnectFault (Connecting Addr) :=
  if w.c.done || w.c.canceling then .ok w
  else advanceState sync { w with c := { w.c with canceling := true } }

/-! ### Runs -/

inductive ConnectEvent (Addr : Type) where
  | gaiCb (status : Int) (res : List Addr)
  | connectCb (status : Int)
  | closeCb
  | cancel
  deriving DecidableEq, Repr

/-- What happens next: a completion, which libuv gives only if it is outstanding, or a cancel. -/
def step (w : Connecting Addr) (event : ConnectEvent Addr × SyncAnswer) :
    Except ConnectFault (Connecting Addr) :=
  match event.1 with
  | .gaiCb status res =>
    if w.uv.gai then
      advanceState event.2
        { c := { w.c with gaiStatus := status, gaiRes := res, gaiReturned := true }
          uv := { w.uv with gai := false, addrs := res, completions := w.uv.completions + 1 } }
    else .error .impossible
  | .connectCb status =>
    match w.uv.connect with
    | some addr =>
      advanceState event.2
        { c := { w.c with connectStatus := status, connectReturned := true }
          uv := { w.uv with
            connect := none
            tcp := if status < 0 then w.uv.tcp else .connected addr
            completions := w.uv.completions + 1 } }
    | none => .error .impossible
  | .closeCb =>
    if w.uv.tcp matches .closing then
      advanceState event.2
        { c := { w.c with tcpClosed := true }
          uv := { w.uv with tcp := .absent, completions := w.uv.completions + 1 } }
    else .error .impossible
  | .cancel => duvConnectCancel event.2 w

end Connecting

end Splintermail
