/-
This file proves that the buffers of the DNS server are conserved, until a send fails in one
of two ways.

A buffer is in the pool, in a callback or with libuv. The server receives as long as there
is a buffer. When a send fails because the peer has no endpoint or no key, the callback
returns the buffer and then reads the address of the peer from it, through a pointer that is
NULL by then.
-/

import Splintermail.Dns.Main

namespace Splintermail

open List

namespace Dns

namespace Globals

variable {g after : Globals} {npeers : Nat}

/-- The buffer that libuv was given to receive into. -/
def processed (g : Globals) : List Nat := (g.allocated.bind Prod.snd).toList

/-- The buffers that libuv sends from. -/
def owned (g : Globals) : List Nat := g.sends.map Prod.snd

/-- Every buffer is in one place, and sockets receive as long as there are buffers. -/
structure Conserved (g : Globals) : Prop where
  places : (g.membufs ++ g.processed ++ g.owned).Perm (range nmembufs)
  enabled : g.closing = false →
    (∀ udp, g.receiving udp = g.recving) ∧ (g.recving = true ↔ g.membufs ≠ [] ∨ g.allocated ≠ none)

/-- What holds between callbacks. -/
structure Balanced (g : Globals) : Prop extends Conserved g where
  buffered : ∀ udp, g.allocated ≠ some (udp, none)
  first : g.timer = true → g.sends = [] ∧ g.allocated = none ∧ g.closing = false

/-- What holds in a callback, with the pointer it has. -/
structure Holds (g : Globals) (membuf : Option Nat) : Prop where
  places : (g.membufs ++ membuf.toList ++ g.owned).Perm (range nmembufs)
  same : g.closing = false → ∀ udp, g.receiving udp = g.recving
  idle : g.allocated = none
  timer : g.timer = false

/-! ### Returning a buffer -/

variable {membuf : Nat}

theorem Holds.not_mem (holds : g.Holds (some membuf)) : membuf ∉ g.membufs := by
  intro mem
  have nodup := holds.places.nodup_iff.mpr nodup_range
  rw [append_assoc] at nodup
  exact (nodup_append.mp nodup).2.2 membuf mem membuf
    (mem_append_left _ (mem_singleton_self membuf)) rfl

theorem Holds.use (holds : g.Holds (some membuf)) : g.use (some membuf) = .ok membuf :=
  if_neg holds.not_mem

theorem balanced_of_idle (places : (g.membufs ++ g.owned).Perm (range nmembufs))
    (enabled : g.closing = false →
      (∀ udp, g.receiving udp = g.recving) ∧ (g.recving = true ↔ g.membufs ≠ []))
    (idle : g.allocated = none) (timer : g.timer = false) : g.Balanced := by
  refine ⟨⟨?_, fun opened => ?_⟩, fun udp => ?_, fun on => ?_⟩
  · unfold processed
    rw [idle]
    simpa using places
  · obtain ⟨same, latch⟩ := enabled opened
    rw [idle]
    exact ⟨same, latch.trans ⟨.inl, fun some => some.resolve_right (not_not_intro rfl)⟩⟩
  · rw [idle]
    exact nofun
  · rw [timer] at on
    exact nomatch on

theorem recvStart_eq {udp : Udp} (quiet : g.receiving udp = false) :
    g.recvStart udp = .ok
      { g with receiving := fun other => if other = udp then true else g.receiving other } :=
  if_neg (by rw [quiet]; decide)

theorem gMembufReturn_eq (holds : g.Holds (some membuf)) :
    ∃ after, g.gMembufReturn (some membuf) = .ok (after, none) ∧ after.Balanced ∧
      after.allocated = none ∧ after.timer = false := by
  have places : ((g.membufs ++ [membuf]) ++ g.owned).Perm (range nmembufs) := holds.places
  have some : g.membufs ++ [membuf] ≠ [] := append_ne_nil_of_right_ne_nil _ nofun
  unfold gMembufReturn membufReturn
  by_cases starts : (!g.closing && !g.recving) = true
  · have opened : g.closing = false := by
      rw [Bool.and_eq_true, Bool.not_eq_true'] at starts
      exact starts.1
    have stopped : g.recving = false := by
      rw [Bool.and_eq_true, Bool.not_eq_true', Bool.not_eq_true'] at starts
      exact starts.2
    have quiet := holds.same opened
    rw [stopped] at quiet
    have first := @recvStart_eq { g with membufs := g.membufs ++ [membuf] } .dns (quiet .dns)
    have second := @recvStart_eq { g with
      membufs := g.membufs ++ [membuf]
      receiving := fun other => if other = .dns then true else g.receiving other } .sync (quiet .sync)
    dsimp only
    rw [if_pos starts, first]
    refine ⟨{ g with
      membufs := g.membufs ++ [membuf], recving := true
      receiving := fun other => if other = .sync then true else if other = .dns then true else
        g.receiving other }, ?_, balanced_of_idle places (fun _ => ⟨fun udp => ?_, ?_⟩) holds.idle
      holds.timer, holds.idle, holds.timer⟩
    · show (recvStart _ .sync >>= _) = _
      rw [second]
      rfl
    · cases udp with
      | dns => rfl
      | sync => rfl
    · exact ⟨fun _ => some, fun _ => rfl⟩
  · dsimp only
    rw [if_neg starts]
    refine ⟨{ g with membufs := g.membufs ++ [membuf] }, rfl, balanced_of_idle places
      (fun opened => ⟨holds.same opened, ?_⟩) holds.idle holds.timer, holds.idle, holds.timer⟩
    dsimp only at opened ⊢
    have on : g.recving = true := by
      rw [opened] at starts
      simpa using starts
    exact ⟨fun _ => some, fun _ => on⟩

theorem Holds.dnsClose {membuf : Option Nat} (holds : g.Holds membuf) (e : Derr) :
    (g.dnsClose e).Holds membuf := by
  unfold Globals.dnsClose
  by_cases closing : g.closing = true
  · rw [if_pos closing]
    split
    · exact ⟨holds.places, holds.same, holds.idle, holds.timer⟩
    · exact holds
  · rw [if_neg closing]
    exact ⟨holds.places, fun opened => (nomatch opened), holds.idle, holds.timer⟩

theorem dnsClose_closing (g : Globals) (e : Derr) : (g.dnsClose e).closing = true := by
  unfold dnsClose
  by_cases closing : g.closing = true
  · rw [if_pos closing]
    split
    · exact closing
    · exact closing
  · rw [if_neg closing]

/-- The end of a callback that has no buffer to return, or returns it. -/
theorem bufReturn_eq {membuf : Option Nat} (holds : g.Holds membuf)
    (latch : g.closing = false → g.recving = false → g.membufs = []) :
    ∃ after, g.bufReturn membuf = .ok after ∧ after.Balanced := by
  cases membuf with
  | some membuf =>
    obtain ⟨after, returned, balanced, _⟩ := gMembufReturn_eq holds
    refine ⟨after, ?_, balanced⟩
    unfold bufReturn
    refine (if_pos rfl).trans ?_
    rw [returned]
    rfl
  | none =>
    have places : (g.membufs ++ g.owned).Perm (range nmembufs) := by
      simpa using holds.places
    unfold bufReturn
    rw [if_neg (by decide)]
    by_cases stops : (!g.closing && g.recving && g.membufs.isEmpty) = true
    · rw [if_pos stops]
      rw [Bool.and_eq_true, List.isEmpty_iff] at stops
      refine ⟨_, rfl, balanced_of_idle places (fun _ => ⟨fun udp => ?_, ?_⟩) holds.idle holds.timer⟩
      · cases udp with
        | dns => rfl
        | sync => rfl
      · exact ⟨fun on => (nomatch on), fun some => absurd stops.2 some⟩
    · rw [if_neg stops]
      refine ⟨g, rfl, balanced_of_idle places (fun opened => ⟨holds.same opened, ?_⟩) holds.idle
        holds.timer⟩
      rw [opened, Bool.not_false, Bool.true_and, Bool.and_eq_true, List.isEmpty_iff] at stops
      constructor
      · exact fun on empty => stops ⟨on, empty⟩
      · intro some
        cases on : g.recving with
        | true => rfl
        | false => exact absurd (latch opened on) some

/-! ### Receiving -/

theorem Holds.udpSend (holds : g.Holds (some membuf)) (udp : Udp) :
    (g.udpSend udp membuf).Holds none := by
  refine ⟨?_, holds.same, holds.idle, holds.timer⟩
  refine List.Perm.trans ?_ holds.places
  unfold Globals.udpSend owned
  rw [map_append, append_assoc, append_assoc]
  exact List.Perm.append_left g.membufs (@perm_append_comm _ (g.sends.map Prod.snd) [membuf])

/-- What a callback did with a packet: the buffer is still there, or is being sent from. -/
structure Kept (g after : Globals) (membuf : Option Nat) : Prop where
  holds : after.Holds membuf
  closing : after.closing = g.closing
  recving : after.recving = g.recving
  membufs : after.membufs = g.membufs

theorem Kept.same {membuf : Option Nat} (holds : g.Holds membuf) : g.Kept g membuf :=
  ⟨holds, rfl, rfl, rfl⟩

theorem onRecvDns_eq (holds : g.Holds (some membuf)) (calls : DnsCalls) :
    ∃ after membufp e, g.onRecvDns (some membuf) calls = .ok (after, membufp, e) ∧
      g.Kept after membufp := by
  unfold onRecvDns
  by_cases limited : (!calls.ok) = true
  · rw [if_pos limited]
    exact ⟨g, some membuf, none, rfl, .same holds⟩
  rw [if_neg limited, holds.use]
  by_cases silent : calls.rlen = 0
  · exact ⟨g, some membuf, none, if_pos silent, .same holds⟩
  by_cases notCopied : (!calls.copied) = true
  · exact ⟨g, some membuf, some .sending, (if_neg silent).trans (if_pos notCopied), .same holds⟩
  by_cases notSent : (!calls.sent) = true
  · exact ⟨g, some membuf, some .sending,
      (if_neg silent).trans ((if_neg notCopied).trans (if_pos notSent)), .same holds⟩
  · exact ⟨g.udpSend .dns membuf, none, none,
      (if_neg silent).trans ((if_neg notCopied).trans (if_neg notSent)), holds.udpSend .dns, rfl,
      rfl, rfl⟩

theorem onRecvSync_eq (holds : g.Holds (some membuf)) (calls : SyncCalls) :
    ∃ after membufp e, g.onRecvSync (some membuf) calls = .ok (after, membufp, e) ∧
      g.Kept after membufp := by
  unfold onRecvSync
  by_cases unknown : (!calls.found) = true
  · rw [if_pos unknown]
    exact ⟨g, some membuf, none, rfl, .same holds⟩
  rw [if_neg unknown, holds.use]
  by_cases invalid : (!calls.ok) = true
  · exact ⟨g, some membuf, none, if_pos invalid, .same holds⟩
  by_cases notHandled : (!calls.handled) = true
  · exact ⟨g, some membuf, some .handling, (if_neg invalid).trans (if_pos notHandled), .same holds⟩
  by_cases notCopied : (!calls.copied) = true
  · exact ⟨g, some membuf, some .sending,
      (if_neg invalid).trans ((if_neg notHandled).trans (if_pos notCopied)), .same holds⟩
  by_cases notSent : (!calls.sent) = true
  · exact ⟨g, some membuf, some .sending, (if_neg invalid).trans ((if_neg notHandled).trans
      ((if_neg notCopied).trans (if_pos notSent))), .same holds⟩
  · exact ⟨g.udpSend .sync membuf, none, none, (if_neg invalid).trans ((if_neg notHandled).trans
      ((if_neg notCopied).trans (if_neg notSent))), holds.udpSend .sync, rfl, rfl, rfl⟩

theorem received_eq {membuf : Option Nat} (holds : g.Holds membuf) (udp : Udp) (nread : Nread)
    (buffered : membuf.isSome = true ∨ nread = .ecanceled) :
    ∃ after membufp e, g.received udp membuf nread = .ok (after, membufp, e) ∧
      g.Kept after membufp := by
  cases nread with
  | nothing => exact ⟨g, membuf, _, rfl, .same holds⟩
  | enobufs => exact ⟨g, membuf, _, rfl, .same holds⟩
  | ecanceled => exact ⟨g, membuf, _, rfl, .same holds⟩
  | error uvret => exact ⟨g, membuf, _, rfl, .same holds⟩
  | udpPartial => exact ⟨g, membuf, _, rfl, .same holds⟩
  | packet dns sync =>
    obtain ⟨membuf, rfl⟩ := Option.isSome_iff_exists.mp (buffered.resolve_right nofun)
    cases udp with
    | dns => exact onRecvDns_eq holds dns
    | sync => exact onRecvSync_eq holds sync

theorem onRecv_eq {membuf : Option Nat} (holds : g.Holds membuf) (udp : Udp) (nread : Nread)
    (buffered : membuf.isSome = true ∨ nread = .ecanceled)
    (latch : g.closing = false → g.recving = false → g.membufs = []) :
    ∃ after, g.onRecv udp nread membuf = .ok after ∧ after.Balanced := by
  obtain ⟨middle, membufp, e, result, kept⟩ := received_eq holds udp nread buffered
  unfold onRecv
  rw [result]
  cases e with
  | none =>
    refine bufReturn_eq kept.holds ?_
    rw [kept.closing, kept.recving, kept.membufs]
    exact latch
  | some e =>
    refine bufReturn_eq (kept.holds.dnsClose e) fun opened => ?_
    rw [dnsClose_closing] at opened
    exact nomatch opened

/-! ### The other callbacks -/

/-- The send has not failed in one of the ways that stop the server. -/
def Event.Sendable : Event → Prop
  | .sent _ _ status => status ≠ uvEdestaddrreq ∧ status ≠ -enokey
  | _ => True

theorem Balanced.dnsClose (balanced : g.Balanced) (idle : g.allocated = none) (timer : g.timer = false)
    (e : Derr) : (g.dnsClose e).Balanced := by
  have places := balanced.places
  unfold processed at places
  rw [idle] at places
  have holds : (g.dnsClose e).Holds none := by
    by_cases closing : g.closing = true
    · exact Holds.dnsClose ⟨places, fun opened => absurd (closing.symm.trans opened) nofun, idle, timer⟩ e
    · have opened := Bool.eq_false_iff.mpr closing
      exact Holds.dnsClose ⟨places, fun _ => (balanced.enabled opened).1, idle, timer⟩ e
  refine balanced_of_idle (by simpa using holds.places) (fun opened => ?_) holds.idle holds.timer
  rw [dnsClose_closing] at opened
  exact nomatch opened

theorem onSend_eq (holds : g.Holds (some membuf)) {status : Int}
    (sendable : status ≠ uvEdestaddrreq ∧ status ≠ -enokey) :
    ∃ after, g.onSend membuf status = .ok after ∧ after.Balanced := by
  obtain ⟨after, returned, balanced, idle, timer⟩ := gMembufReturn_eq holds
  unfold onSend
  rw [returned]
  by_cases fine : status = 0 ∨ status = uvEcanceled
  · exact ⟨after, if_pos fine, balanced⟩
  · exact ⟨after.dnsClose (.uv status), (if_neg fine).trans ((if_neg sendable.1).trans
      (if_neg sendable.2)), balanced.dnsClose idle timer _⟩

theorem onSend_null (holds : g.Holds (some membuf)) {status : Int}
    (unsendable : status = uvEdestaddrreq ∨ status = -enokey) :
    g.onSend membuf status = .error .null := by
  obtain ⟨after, returned, _⟩ := gMembufReturn_eq holds
  unfold onSend
  rw [returned]
  rcases unsendable with rfl | rfl
  · rfl
  · rfl

theorem sendInitialResyncs_eq {peers : List (Bool × Bool)} (holds : g.Holds none)
    (opened : g.closing = false) (on : g.recving = true) (room : peers.length < g.membufs.length) :
    ∃ after, g.sendInitialResyncs peers = .ok after ∧ after.Balanced := by
  induction peers generalizing g with
  | nil =>
    have places : (g.membufs ++ g.owned).Perm (range nmembufs) := by
      simpa using holds.places
    have some : g.membufs ≠ [] := ne_nil_of_length_pos room
    exact ⟨g, rfl, balanced_of_idle places
      (fun opened => ⟨holds.same opened, fun _ => some, fun _ => on⟩) holds.idle holds.timer⟩
  | cons peer peers ih =>
    obtain ⟨copied, sent⟩ := peer
    cases pool : g.membufs with
    | nil =>
      rw [pool] at room
      exact absurd room (Nat.not_lt_zero _)
    | cons membuf membufs =>
      have popped : { g with membufs }.Holds (some membuf) := by
        refine ⟨?_, holds.same, holds.idle, holds.timer⟩
        have places := holds.places
        rw [pool] at places
        refine List.Perm.trans ?_ places
        rw [Option.toList_none, append_nil]
        exact List.Perm.append_right _ (@perm_append_comm _ membufs [membuf])
      unfold sendInitialResyncs membufsPop
      rw [pool]
      dsimp only
      rw [popped.use]
      by_cases failed : (!copied || !sent) = true
      · refine ⟨({ g with membufs := membufs ++ [membuf] } : Globals).dnsClose .sending,
          if_pos failed, ?_⟩
        have returned : { g with membufs := membufs ++ [membuf] }.Holds none := by
          refine ⟨?_, holds.same, holds.idle, holds.timer⟩
          rw [Option.toList_none, append_nil]
          exact popped.places
        have closed := returned.dnsClose .sending
        refine balanced_of_idle (by simpa using closed.places) (fun opened => ?_) closed.idle
          closed.timer
        rw [dnsClose_closing] at opened
        exact nomatch opened
      · rw [pool, length_cons, length_cons] at room
        obtain ⟨after, rest, balanced⟩ := @ih
          (({ g with membufs } : Globals).udpSend .sync membuf) (popped.udpSend .sync) opened on
          (Nat.lt_of_succ_lt_succ room)
        exact ⟨after, (if_neg failed).trans rest, balanced⟩

/-! ### Steps -/

theorem balanced_start : start.Balanced := by
  have filled : start.membufs ≠ [] := by
    unfold start
    intro empty
    have length := congrArg length empty
    dsimp only at length
    rw [length_range] at length
    exact absurd length (Nat.succ_ne_zero 255)
  have latch : start.recving = true ↔ start.membufs ≠ [] ∨ start.allocated ≠ none :=
    ⟨fun _ => .inl filled, fun _ => rfl⟩
  have places : (start.membufs ++ start.processed ++ start.owned).Perm (range nmembufs) := by
    unfold start processed owned
    rw [Option.bind_none, Option.toList_none, map_nil, append_nil, append_nil]
  have same : ∀ udp, start.receiving udp = start.recving := fun _ => rfl
  have buffered : ∀ udp, start.allocated ≠ some (udp, none) := fun _ => nofun
  exact ⟨⟨places, fun _ => ⟨same, latch⟩⟩, buffered, fun _ => ⟨rfl, rfl, rfl⟩⟩

theorem Balanced.holds_sent (balanced : g.Balanced) (timer : g.timer = false)
    (idle : g.allocated = none) {udp : Udp} (outstanding : (udp, membuf) ∈ g.sends) :
    { g with sends := g.sends.erase (udp, membuf) }.Holds (some membuf) := by
  refine ⟨?_, fun opened => (balanced.enabled opened).1, idle, timer⟩
  have places := balanced.places
  unfold processed owned at places
  rw [idle, Option.bind_none, Option.toList_none, append_nil] at places
  refine List.Perm.trans ?_ places
  rw [append_assoc]
  refine List.Perm.append_left g.membufs ?_
  exact ((perm_cons_erase outstanding).map Prod.snd).symm

/-- What one callback does. -/
theorem step_eq (few : npeers ≤ maxPeers) (balanced : g.Balanced) {event : Event}
    (enabled : g.Enabled npeers event) (sendable : event.Sendable) :
    ∃ after, g.step event = .ok after ∧ after.Balanced := by
  cases event with
  | resyncs peers =>
    obtain ⟨timer, all⟩ := enabled
    obtain ⟨none, idle, opened⟩ := balanced.first timer
    obtain ⟨same, latch⟩ := balanced.enabled opened
    have places := balanced.places
    unfold processed owned at places
    rw [idle, none] at places
    have full : g.membufs.length = nmembufs := by
      have length := places.length_eq
      rw [length_range] at length
      simpa using length
    have some : g.membufs ≠ [] := ne_nil_of_length_pos (by rw [full]; decide)
    refine sendInitialResyncs_eq ⟨?_, fun _ => same, idle, rfl⟩ opened (latch.mpr (.inl some)) ?_
    · unfold owned
      rw [none]
      exact places
    · show peers.length < g.membufs.length
      rw [full, all]
      exact Nat.lt_of_le_of_lt few (by decide)
  | alloc udp =>
    obtain ⟨timer, idle, opened, receives⟩ := enabled
    obtain ⟨same, latch⟩ := balanced.enabled opened
    have on : g.recving = true := (same udp).symm.trans receives
    have some : g.membufs ≠ [] := (latch.mp on).resolve_right (not_not_intro idle)
    cases pool : g.membufs with
    | nil => exact absurd pool some
    | cons membuf membufs =>
      have allocated : g.allocator udp =
          { g with membufs, allocated := .some (udp, .some membuf) } := by
        unfold allocator membufsPop
        rw [pool]
      refine ⟨_, rfl, ?_⟩
      rw [allocated]
      refine ⟨⟨?_, fun _ => ⟨same, fun _ => .inr nofun, fun _ => on⟩⟩, fun other => ?_,
        fun first => ?_⟩
      · have places := balanced.places
        unfold processed at places
        rw [pool, idle] at places
        refine List.Perm.trans ?_ places
        rw [Option.bind_none, Option.toList_none, append_nil]
        exact List.Perm.append_right _ (@perm_append_comm _ membufs [membuf])
      · exact nofun
      · exact absurd (timer.symm.trans first) nofun
  | recv udp nread =>
    obtain ⟨timer, buffers⟩ := enabled
    have places := balanced.places
    unfold step
    rcases buffers with ⟨idle, rfl⟩ | ⟨empty, -⟩ | ⟨⟨membuf, buffered⟩, -⟩
    · refine @onRecv_eq { g with allocated := none } _ ⟨places, fun opened => (balanced.enabled opened).1, rfl, timer⟩ udp _
        (.inr rfl) fun opened stopped => ?_
      by_contra some
      have on := (balanced.enabled opened).2.mpr (.inl some)
      exact absurd (on.symm.trans stopped) nofun
    · exact absurd empty (balanced.buffered udp)
    · refine @onRecv_eq { g with allocated := none } _ ⟨places, fun opened => (balanced.enabled opened).1, rfl, timer⟩ udp nread
        (.inl ?_) fun opened stopped => ?_
      · rw [buffered]
        rfl
      · have on := (balanced.enabled opened).2.mpr (.inr (by rw [buffered]; exact nofun))
        exact absurd (on.symm.trans stopped) nofun
  | sent udp membuf status =>
    obtain ⟨timer, idle, outstanding⟩ := enabled
    refine onSend_eq (balanced.holds_sent timer idle outstanding) sendable

/-- A send that fails in one of the two ways stops the server. -/
theorem step_null (balanced : g.Balanced) {event : Event} (enabled : g.Enabled npeers event)
    (unsendable : ¬event.Sendable) : g.step event = .error .null := by
  cases event with
  | resyncs peers => exact absurd trivial unsendable
  | alloc udp => exact absurd trivial unsendable
  | recv udp nread => exact absurd trivial unsendable
  | sent udp membuf status =>
    obtain ⟨timer, idle, outstanding⟩ := enabled
    refine onSend_null (balanced.holds_sent timer idle outstanding) ?_
    by_contra fine
    exact unsendable (not_or.mp fine)

/-! ### Runs -/

/-- The callbacks can come one after another. -/
def Possible (npeers : Nat) : Globals → List Event → Prop
  | _, [] => True
  | g, event :: events =>
    g.Enabled npeers event ∧ ∀ after, g.step event = .ok after → Possible npeers after events

/-- Buffers are conserved in every state of a run, and nothing goes wrong in it. -/
def Conserves : Globals → List Event → Prop
  | g, [] => g.Conserved
  | g, event :: events => g.Conserved ∧ ∃ after, g.step event = .ok after ∧ Conserves after events

theorem conserves_of_balanced (few : npeers ≤ maxPeers) (balanced : g.Balanced) {events : List Event}
    (possible : Possible npeers g events) :
    Conserves g events ↔ ∀ event ∈ events, event.Sendable := by
  induction events generalizing g with
  | nil => exact ⟨fun _ _ mem => absurd mem not_mem_nil, fun _ => balanced.toConserved⟩
  | cons event events ih =>
    obtain ⟨enabled, rest⟩ := possible
    by_cases sendable : event.Sendable
    · obtain ⟨after, stepped, balancedAfter⟩ := step_eq few balanced enabled sendable
      have others := ih balancedAfter (rest after stepped)
      constructor
      · rintro ⟨_, other, stepped', conserves⟩ some mem
        cases stepped.symm.trans stepped'
        rcases mem_cons.mp mem with rfl | mem
        · exact sendable
        · exact others.mp conserves some mem
      · intro all
        exact ⟨balanced.toConserved, after, stepped,
          others.mpr fun some mem => all some (.tail _ mem)⟩
    · constructor
      · rintro ⟨_, after, stepped, _⟩
        rw [step_null balanced enabled sendable] at stepped
        exact nomatch stepped
      · exact fun all => absurd (all event mem_cons_self) sendable

/-- Over every sequence of callbacks, with at most as many peers as the server takes, buffers are
conserved and nothing goes wrong, if and only if no send fails for want of an endpoint or a key. -/
theorem conserves_iff (few : npeers ≤ maxPeers) {events : List Event}
    (possible : Possible npeers start events) :
    Conserves start events ↔ ∀ udp membuf status, .sent udp membuf status ∈ events →
      status ≠ uvEdestaddrreq ∧ status ≠ -enokey := by
  rw [conserves_of_balanced few balanced_start possible]
  constructor
  · exact fun all udp membuf status mem => all _ mem
  · intro all event mem
    cases event with
    | resyncs peers => exact trivial
    | alloc udp => exact trivial
    | recv udp nread => exact trivial
    | sent udp membuf status => exact all udp membuf status mem

/-! ### A send to one peer -/

/-- The state after the resync to one peer. -/
def afterResync : Globals :=
  { start with membufs := (range 255).map Nat.succ, sends := [(.sync, 0)], timer := false }

theorem step_resync : start.step (.resyncs [(true, true)]) = .ok afterResync := by
  have pool : range nmembufs = 0 :: (range 255).map Nat.succ := range_succ_eq_map
  have away : 0 ∉ (range 255).map Nat.succ := by simp
  unfold step sendInitialResyncs membufsPop start
  dsimp only
  rw [pool]
  unfold use
  dsimp only
  rw [if_neg away]
  rfl

theorem possible_resync (status : Int) :
    Possible 1 start [.resyncs [(true, true)], .sent .sync 0 status] := by
  refine ⟨⟨rfl, rfl⟩, fun after stepped => ⟨?_, fun _ _ => trivial⟩⟩
  cases step_resync.symm.trans stepped
  exact ⟨rfl, rfl, mem_singleton_self _⟩

theorem conserves_iff_zero : Conserves start [.resyncs [(true, true)], .sent .sync 0 0] :=
  (conserves_iff (by decide) (possible_resync 0)).mpr fun udp membuf status mem => by
    rcases mem_cons.mp mem with resync | mem
    · exact nomatch resync
    · obtain ⟨-, -, rfl⟩ := Event.sent.inj (mem_singleton.mp mem)
      decide

/-- The peer of the first resync has no endpoint. -/
theorem not_conserves_edestaddrreq :
    Possible 1 start [.resyncs [(true, true)], .sent .sync 0 uvEdestaddrreq] ∧
      ¬Conserves start [.resyncs [(true, true)], .sent .sync 0 uvEdestaddrreq] := by
  refine ⟨possible_resync _, fun conserves => ?_⟩
  have all := (conserves_of_balanced (by decide) balanced_start (possible_resync _)).mp conserves
  exact absurd rfl (all (.sent .sync 0 uvEdestaddrreq) (by simp)).1

end Globals

end Dns

end Splintermail
