/-
This file proves that `duv_connect` cleans up after itself.

A connector is in one of four phases: it waits for the addresses, for a connection, for a
handle to be closed, or it has called back. In each of the first three exactly one thing is
outstanding in libuv, and the flags of the code say which. A connector calls back only when
nothing is outstanding and, unless it is connected, the handle is gone. One path is wrong:
where `uv_tcp_connect` fails at once, the handle is open and is left so.
-/

import Splintermail.Duv.Connect

namespace Splintermail

open List

open Outcome (Sat)

namespace Connecting

variable {Addr : Type} {w : Connecting Addr}

/-! ### Phases -/

/-- No address is known yet. -/
structure Resolving (w : Connecting Addr) : Prop where
  gai : w.uv.gai = true
  connect : w.uv.connect = none
  tcp : w.uv.tcp = .absent
  addrs : w.uv.addrs = []
  tried : w.uv.tried = []
  completions : w.uv.completions = 0
  called : w.uv.called = []
  done : w.c.done = false
  gaiReturned : w.c.gaiReturned = false
  gaiDone : w.c.gaiDone = false
  tcpOpen : w.c.tcpOpen = false
  tcpClosing : w.c.tcpClosing = false
  tcpClosed : w.c.tcpClosed = false
  connectStarted : w.c.connectStarted = false
  connectReturned : w.c.connectReturned = false

/-- The next address, if there is one, can be tried. -/
structure Ready (w : Connecting Addr) : Prop where
  gai : w.uv.gai = false
  connect : w.uv.connect = none
  tcp : w.uv.tcp = .absent
  addrs : w.uv.addrs = w.uv.tried ++ w.c.gaiPtr
  completions : w.uv.completions = 2 * w.uv.tried.length + 1
  called : w.uv.called = []
  done : w.c.done = false
  canceling : w.c.canceling = false
  gaiReturned : w.c.gaiReturned = true
  gaiDone : w.c.gaiDone = true
  tcpOpen : w.c.tcpOpen = false
  tcpClosing : w.c.tcpClosing = false
  tcpClosed : w.c.tcpClosed = false
  connectStarted : w.c.connectStarted = false
  connectReturned : w.c.connectReturned = false

/-- A connection was started. -/
structure Trying (w : Connecting Addr) : Prop where
  gai : w.uv.gai = false
  connect : ∃ addr rest, w.uv.connect = some addr ∧ w.c.gaiPtr = addr :: rest ∧
    w.uv.addrs = w.uv.tried ++ rest ∧ w.uv.tried.getLast? = some addr
  tcp : w.uv.tcp = .opened
  completions : w.uv.completions + 1 = 2 * w.uv.tried.length
  called : w.uv.called = []
  done : w.c.done = false
  gaiReturned : w.c.gaiReturned = true
  gaiDone : w.c.gaiDone = true
  tcpOpen : w.c.tcpOpen = true
  tcpClosing : w.c.tcpClosing = false
  tcpClosed : w.c.tcpClosed = false
  connectStarted : w.c.connectStarted = true
  connectReturned : w.c.connectReturned = false

/-- A handle is being closed. -/
structure Closing (w : Connecting Addr) : Prop where
  gai : w.uv.gai = false
  connect : w.uv.connect = none
  tcp : w.uv.tcp = .closing
  addrs : ∃ addr rest, w.c.gaiPtr = addr :: rest ∧ w.uv.addrs = w.uv.tried ++ rest
  completions : w.uv.completions = 2 * w.uv.tried.length
  called : w.uv.called = []
  done : w.c.done = false
  gaiReturned : w.c.gaiReturned = true
  gaiDone : w.c.gaiDone = true
  tcpOpen : w.c.tcpOpen = true
  tcpClosing : w.c.tcpClosing = true
  tcpClosed : w.c.tcpClosed = false
  connectStarted : w.c.connectStarted = true
  connectReturned : w.c.connectReturned = true

/-- The callback was called, and all is cleaned up. -/
structure Called (w : Connecting Addr) : Prop where
  gai : w.uv.gai = false
  connect : w.uv.connect = none
  done : w.c.done = true
  tried : w.uv.tried <+: w.uv.addrs
  completions : w.uv.completions ≤ 2 * w.uv.tried.length + 1
  called : ∃ e, w.uv.called = [e] ∧ match e with
    | none => ∃ addr, w.uv.tcp = .connected addr ∧ w.uv.tried.getLast? = some addr
    | some _ => w.uv.tcp = .absent

/-- The phases between two events. -/
def Sound (w : Connecting Addr) : Prop := Resolving w ∨ Trying w ∨ Closing w ∨ Called w

/-! ### Steps -/

theorem start_sound : Sound (start : Connecting Addr) := by
  refine .inl ?_
  constructor <;> rfl

variable {sync : SyncAnswer} {allowed : ConnectFault → Prop}

theorem uvTcpInitEx_ok {ret : Int} (absent : w.uv.tcp = .absent) (accepted : ¬ ret < 0) :
    uvTcpInitEx ret w = .ok { w with uv := { w.uv with tcp := .opened } } := by
  simp [uvTcpInitEx, absent, accepted]

theorem uvTcpConnect_ok {ret : Int} (opened : w.uv.tcp = .opened) (idle : w.uv.connect = none)
    (accepted : ¬ ret < 0) (addr : Addr) :
    uvTcpConnect ret addr w =
      .ok { w with uv := { w.uv with tried := w.uv.tried ++ [addr], connect := some addr } } := by
  simp [uvTcpConnect, opened, idle, accepted]

theorem duvTcpClose_ok (here : w.uv.tcp = .opened ∨ ∃ addr, w.uv.tcp = .connected addr)
    (idle : w.uv.connect = none) :
    duvTcpClose w = .ok { w with uv := { w.uv with tcp := .closing } } := by
  rcases here with opened | ⟨addr, connected⟩
  · simp [duvTcpClose, opened, idle]
  · simp [duvTcpClose, connected, idle]

/-- A connector calls back when nothing is outstanding and the handle is gone. -/
theorem finish_error (gai : w.uv.gai = false) (connect : w.uv.connect = none)
    (absent : w.uv.tcp = .absent) (tried : w.uv.tried <+: w.uv.addrs)
    (completions : w.uv.completions ≤ 2 * w.uv.tried.length + 1) (called : w.uv.called = [])
    {e : Option ConnectError} (failed : e = none → w.c.canceling = true) : Called (finish w e) := by
  refine ⟨gai, connect, rfl, tried, completions, ?_⟩
  cases e with
  | none => exact ⟨some .canceled, by simp [finish, called, failed rfl], absent⟩
  | some error => exact ⟨some error, by simp [finish, called], absent⟩

theorem advanceTcp_started {addr : Addr} {rest : List Addr} (ptr : w.c.gaiPtr = addr :: rest)
    (opened : w.uv.tcp = .opened) (idle : w.uv.connect = none)
    (unstarted : w.c.connectStarted = false) (unreturned : w.c.connectReturned = false)
    (accepted : ¬ sync.connect < 0) :
    advanceTcp sync w = .ok
      { c := { w.c with connectStarted := true }
        uv := { w.uv with tried := w.uv.tried ++ [addr], connect := some addr } } := by
  rw [advanceTcp, unstarted, if_neg Bool.false_ne_true]
  split
  · next empty =>
    rw [ptr] at empty
    cases empty
  · next first others split =>
    obtain ⟨rfl, rfl⟩ := cons_eq_cons.mp (ptr.symm.trans split)
    rw [uvTcpConnect_ok opened idle accepted]
    simp only [bind, Except.bind, accepted, if_false, advanceConnect, unreturned, Bool.not_false,
      if_true]

theorem advanceAddr_spec (ready : Ready w) (answered : 0 ≤ sync.connect) :
    Sat (advanceAddr sync w) Sound allowed := by
  have accepted : ¬ sync.connect < 0 := Int.not_lt.mpr answered
  have prefixed : w.uv.tried <+: w.uv.addrs := ready.addrs ▸ prefix_append _ _
  have reported (error : ConnectError) : Called (finish w (some error)) :=
    finish_error ready.gai ready.connect ready.tcp prefixed ready.completions.le ready.called nofun
  rw [advanceAddr, ready.tcpOpen, if_neg Bool.false_ne_true]
  cases ptr : w.c.gaiPtr with
  | nil => exact .inr (.inr (.inr (reported _)))
  | cons addr rest =>
    rw [isEmpty_cons, if_neg Bool.false_ne_true]
    by_cases failed : sync.init < 0
    · have unopened : uvTcpInitEx sync.init w = .ok w := by
        simp [uvTcpInitEx, ready.tcp, failed]
      simp only [unopened, failed, bind, Except.bind]
      exact .inr (.inr (.inr (reported _)))
    · have started : advanceTcp sync
            { c := { w.c with tcpOpen := true }, uv := { w.uv with tcp := .opened } } = _ :=
        advanceTcp_started ptr rfl ready.connect ready.connectStarted ready.connectReturned accepted
      simp only [uvTcpInitEx_ok ready.tcp failed, failed, bind, Except.bind, if_false, started]
      refine .inr (.inl ?_)
      constructor
      case connect => exact ⟨addr, rest, rfl, ptr, by simp [ready.addrs, ptr], by simp⟩
      case completions => simp [ready.completions]; omega
      all_goals simp [ready.gai, ready.called, ready.done, ready.gaiReturned, ready.gaiDone,
        ready.tcpClosing, ready.tcpClosed, ready.connectReturned]

theorem gaiCb_spec (resolving : Resolving w) (status : Int) (res : List Addr)
    (answered : 0 ≤ sync.connect) : Sat (step w (.gaiCb status res, sync)) Sound allowed := by
  simp only [step, resolving.gai, if_true, advanceState, resolving.done, Bool.false_eq_true, if_false]
  cases canceled : w.c.canceling with
  | true =>
    simp only [if_true, advanceCancel, resolving.connectStarted, resolving.tcpOpen, Bool.false_eq_true,
      if_false, Bool.false_and, Bool.not_true]
    refine .inr (.inr (.inr (finish_error ?_ ?_ ?_ ?_ ?_ ?_ ?_)))
    all_goals simp [resolving.connect, resolving.tcp, resolving.tried, resolving.completions,
      resolving.called]
  | false =>
    simp only [Bool.false_eq_true, if_false, resolving.gaiDone, Bool.not_true]
    by_cases failed : status < 0
    · rw [if_pos failed]
      refine .inr (.inr (.inr (finish_error ?_ ?_ ?_ ?_ ?_ ?_ ?_)))
      all_goals simp [resolving.connect, resolving.tcp, resolving.tried, resolving.completions,
        resolving.called]
    · rw [if_neg failed, advanceReset]
      simp only [resolving.tcpClosing, Bool.false_eq_true, if_false]
      refine advanceAddr_spec ?_ answered
      constructor
      case addrs => simp [resolving.tried]
      case completions => simp [resolving.completions, resolving.tried]
      all_goals simp [resolving.connect, resolving.tcp, resolving.called, resolving.tcpOpen,
        resolving.tcpClosed, resolving.connectStarted, resolving.connectReturned]

/-- A connection is there, or it failed, or it is not wanted any more. -/
theorem connectCb_spec (trying : Trying w) (status : Int) :
    Sat (step w (.connectCb status, sync)) Sound allowed := by
  obtain ⟨addr, rest, connect, ptr, addrs, last⟩ := trying.connect
  have here : (if status < 0 then w.uv.tcp else .connected addr) = .opened ∨
      ∃ addr', (if status < 0 then w.uv.tcp else .connected addr) = TcpHandle.connected addr' := by
    split_ifs
    · exact .inl trying.tcp
    · exact .inr ⟨addr, rfl⟩
  simp only [step, connect, advanceState, trying.done, Bool.false_eq_true, if_false]
  cases canceled : w.c.canceling with
  | true =>
    simp only [if_true, advanceCancel, trying.connectStarted, trying.tcpOpen, Bool.not_true,
      Bool.and_false, Bool.false_eq_true, if_false, trying.tcpClosing, Bool.not_false]
    rw [duvTcpClose_ok here rfl]
    simp only [bind, Except.bind, trying.tcpClosed, Bool.not_false, if_true]
    refine .inr (.inr (.inl ?_))
    constructor
    case addrs => exact ⟨addr, rest, ptr, addrs⟩
    all_goals simp [trying.gai, trying.called, trying.gaiReturned, trying.gaiDone,
      trying.completions]
  | false =>
    simp only [Bool.false_eq_true, if_false, trying.gaiDone, if_true, advanceReset, trying.tcpClosing,
      advanceAddr, trying.tcpOpen, advanceTcp, trying.connectStarted, advanceConnect, Bool.not_true]
    by_cases failed : status < 0
    · rw [if_pos failed, duvTcpClose_ok here rfl]
      refine .inr (.inr (.inl ?_))
      constructor
      case addrs => exact ⟨addr, rest, ptr, addrs⟩
      all_goals simp [trying.gai, trying.called, trying.gaiReturned, trying.tcpClosed,
        trying.completions]
    · rw [if_neg failed]
      refine .inr (.inr (.inr ⟨trying.gai, rfl, rfl, ?_, ?_, none, ?_, addr, ?_, last⟩))
      · exact addrs ▸ prefix_append _ _
      · exact trying.completions.le.trans (Nat.le_succ _)
      · simp [finish, trying.called]
      · simp [finish, failed]

theorem closeCb_spec (closing : Closing w) (answered : 0 ≤ sync.connect) :
    Sat (step w (.closeCb, sync)) Sound allowed := by
  obtain ⟨addr, rest, ptr, addrs⟩ := closing.addrs
  simp only [step, closing.tcp, if_true, advanceState, closing.done, Bool.false_eq_true, if_false]
  cases canceled : w.c.canceling with
  | true =>
    simp only [if_true, advanceCancel, closing.connectStarted, closing.connectReturned, closing.tcpOpen,
      closing.tcpClosing, closing.gaiReturned, Bool.not_true, Bool.and_false, Bool.false_eq_true,
      if_false]
    refine .inr (.inr (.inr (finish_error ?_ ?_ ?_ ?_ ?_ ?_ ?_)))
    all_goals simp [closing.gai, closing.connect, closing.completions, closing.called, addrs]
  | false =>
    simp only [Bool.false_eq_true, if_false, closing.gaiDone, if_true, advanceReset, closing.tcpClosing,
      Bool.not_true, ptr]
    refine advanceAddr_spec ?_ answered
    constructor
    all_goals simp [closing.gai, closing.connect, closing.called, closing.gaiReturned,
      closing.completions, addrs]

theorem cancel_spec (sound : Sound w) : Sat (step w (.cancel, sync)) Sound allowed := by
  simp only [step, duvConnectCancel]
  split
  · exact sound
  · next live =>
    rcases sound with resolving | trying | closing | called
    · simp only [advanceState, resolving.done, Bool.false_eq_true, if_false, if_true, advanceCancel,
        resolving.connectStarted, resolving.tcpOpen, resolving.gaiReturned, Bool.false_and,
        Bool.not_false]
      refine .inl ?_
      constructor
      all_goals simp [resolving.gai, resolving.connect, resolving.tcp, resolving.addrs,
        resolving.tried, resolving.completions, resolving.called, resolving.gaiDone,
        resolving.tcpClosing, resolving.tcpClosed, resolving.connectReturned]
    · simp only [advanceState, trying.done, Bool.false_eq_true, if_false, if_true, advanceCancel,
        trying.connectStarted, trying.connectReturned, Bool.not_false, Bool.and_self]
      refine .inr (.inl ?_)
      constructor
      case connect => exact trying.connect
      all_goals simp [trying.gai, trying.tcp, trying.completions, trying.called, trying.gaiReturned,
        trying.gaiDone, trying.tcpOpen, trying.tcpClosing, trying.tcpClosed]
    · simp only [advanceState, closing.done, Bool.false_eq_true, if_false, if_true, advanceCancel,
        closing.connectStarted, closing.connectReturned, closing.tcpOpen, closing.tcpClosing,
        closing.tcpClosed, Bool.not_true, Bool.not_false, Bool.and_false]
      refine .inr (.inr (.inl ?_))
      constructor
      case addrs => exact closing.addrs
      all_goals simp [closing.gai, closing.connect, closing.tcp, closing.completions, closing.called,
        closing.gaiReturned, closing.gaiDone]
    · rw [called.done] at live
      exact absurd rfl live

/-! ### Runs -/

/-- No event makes a sound connector misuse libuv, if `uv_tcp_connect` does not fail at once. -/
theorem step_sound (w : Connecting Addr) (event : ConnectEvent Addr × SyncAnswer) (sound : Sound w)
    (answered : 0 ≤ event.2.connect) : Sat (step w event) Sound (· = .impossible) := by
  obtain ⟨event, sync⟩ := event
  cases event with
  | gaiCb status res =>
    rcases sound with resolving | trying | closing | called
    · exact gaiCb_spec resolving status res answered
    · simp [step, trying.gai]
    · simp [step, closing.gai]
    · simp [step, called.gai]
  | connectCb status =>
    rcases sound with resolving | trying | closing | called
    · simp [step, resolving.connect]
    · exact connectCb_spec trying status
    · simp [step, closing.connect]
    · simp [step, called.connect]
  | closeCb =>
    rcases sound with resolving | trying | closing | called
    · simp [step, resolving.tcp]
    · simp [step, trying.tcp]
    · exact closeCb_spec closing answered
    · obtain ⟨e, -, handle⟩ := called.called
      cases e with
      | none =>
        obtain ⟨addr, connected, -⟩ := handle
        simp [step, connected]
      | some error => simp [step, handle]
  | cancel => exact cancel_spec sound

/-- What is promised of a connector: the addresses are tried in order, each once at most, and the
callback is called once, with no error if and only if the handle is connected to the last address
that was tried, and with an error only when the handle is not there; then nothing is outstanding,
and before it something is. -/
structure Clean (w : Connecting Addr) : Prop where
  tried : w.uv.tried <+: w.uv.addrs
  once : w.uv.called.length ≤ 1
  connected : ∀ e ∈ w.uv.called,
    (e = none ↔ ∃ addr, w.uv.tcp = .connected addr ∧ w.uv.tried.getLast? = some addr) ∧
      (e ≠ none → w.uv.tcp = .absent) ∧ w.uv.gai = false ∧ w.uv.connect = none
  outstanding : w.uv.called = [] → w.uv.gai = true ∨ w.uv.connect ≠ none ∨ w.uv.tcp = .closing
  completions : w.uv.completions ≤ 2 * w.uv.addrs.length + 1

theorem Sound.clean (sound : Sound w) : Clean w := by
  rcases sound with resolving | trying | closing | called
  · constructor
    case outstanding => exact fun _ => .inl resolving.gai
    all_goals simp [resolving.tried, resolving.called, resolving.completions]
  · obtain ⟨addr, rest, connect, -, addrs, -⟩ := trying.connect
    have completions := trying.completions
    constructor
    case outstanding => exact fun _ => .inr (.inl (by simp [connect]))
    case completions => simp [addrs]; omega
    all_goals simp [trying.called, addrs]
  · obtain ⟨addr, rest, -, addrs⟩ := closing.addrs
    have completions := closing.completions
    constructor
    case outstanding => exact fun _ => .inr (.inr closing.tcp)
    case completions => simp [addrs]; omega
    all_goals simp [closing.called, addrs]
  · obtain ⟨e, same, handle⟩ := called.called
    have fewer := called.tried.length_le
    have completions := called.completions
    refine ⟨called.tried, by simp [same], fun other mem => ?_, by simp [same], by omega⟩
    rw [same, mem_singleton] at mem
    subst mem
    cases other with
    | none => exact ⟨⟨fun _ => handle, fun _ => rfl⟩, nofun, called.gai, called.connect⟩
    | some error =>
      refine ⟨⟨nofun, fun there => ?_⟩, fun _ => handle, called.gai, called.connect⟩
      obtain ⟨addr, connected, -⟩ := there
      rw [handle] at connected
      cases connected

end Connecting

end Splintermail
